import Yalnix.Memory.KernelSide
import Yalnix.Memory.Mapping
import Yalnix.Sample

/-! The copy of an address space. `UCCopy` maps each new frame at the parent's
break, fills it there, and hands it to the child's table. -/
namespace Yalnix.UserMemory

open Hardware Transition

section

variable [Hardware] {m n m' : Memory} {child : Proc} {brkPage vpn : Int} {prot : Prot}

/-- The memory after one page was copied to the frame `pfn`. -/
def handOver (n : Memory) (child : Proc) (brkPage vpn : Int) (prot : Prot) (frames : Frames) (pfn : Nat) :
    Memory :=
  { n with
    frames := frames
    ctx := Function.update
      (Function.update n.ctx n.active { n.ctx n.active with
        region1Pt := Function.update n.region1Pt (brkPage - region1BaseVpn) ⟨false, .readWrite, pfn⟩ })
      child { n.ctx child with
        region1Pt := Function.update (n.ctx child).region1Pt (vpn - region1BaseVpn) ⟨true, prot, pfn⟩ }
    pmem := Function.update n.pmem pfn (n.pmem (n.region1Pt (vpn - region1BaseVpn)).pfn) }

/-- The body of the loop, when the break is a page of region 1. -/
inductive CopyPage (n : Memory) (child : Proc) (brkPage vpn : Int) (prot : Prot) (rest : List (Int × Prot)) :
    Except Stop (Memory × Bool) → Prop where
  | full {frames : Frames} (hWf : frames.Wf) (hSize : frames.numFrames = n.frames.numFrames)
      (hSame : frames.inUse = n.frames.inUse) : CopyPage n child brkPage vpn prot rest
        (.ok (destroyPt (n.setFrames frames) (n.ctx child).region1Pt 0 (vpn - region1BaseVpn), false))
  | copied {frames : Frames} {pfn : Nat} (hIn : inRegion1 vpn) (hWf : frames.Wf)
      (hSize : frames.numFrames = n.frames.numFrames) (hFree : pfn ∈ n.frames.range \ n.frames.inUse)
      (hMarked : frames.inUse = insert pfn n.frames.inUse) : CopyPage n child brkPage vpn prot rest
        (copyPages (handOver n child brkPage vpn prot frames pfn) child brkPage rest)
  | stopped {stop : Stop} : CopyPage n child brkPage vpn prot rest (.error stop)

theorem copyPage_cases (hWf : n.frames.Wf) (hBrk : inRegion1 brkPage) (hChild : child ≠ n.active)
    (hOther : vpn ≠ brkPage) (prot : Prot) (rest : List (Int × Prot)) :
    CopyPage n child brkPage vpn prot rest (copyPages n child brkPage ((vpn, prot) :: rest)) := by
  have hAlloc := Mapping.alloc_cases (x := n.userMapping) hWf region1Vpns (brkPage - region1BaseVpn) .readWrite
  unfold copyPages
  rw [allocPage_eq]
  generalize Mapping.alloc region1Vpns n.userMapping (brkPage - region1BaseVpn) .readWrite = result at hAlloc ⊢
  cases hAlloc with
  | @full frames hFull hNext hSize hSame =>
      dsimp only
      rw [n.withUser_frames frames]
      exact .full hNext hSize hSame
  | lost hOut hNext hSize hFree hMarked => exact absurd ⟨hBrk.2, hBrk.1⟩ hOut
  | @mapped frames pfn hIn hNext hSize hFree hMarked =>
      dsimp only
      generalize hMapped : n.withUser ⟨frames, createPte n.userMapping.table (brkPage - region1BaseVpn) pfn
        .readWrite⟩ = mapped
      have hActive : mapped.active = n.active := by rw [← hMapped, Memory.withUser_active]
      have hTable : mapped.region1Pt =
          Function.update n.region1Pt (brkPage - region1BaseVpn) ⟨true, .readWrite, pfn⟩ := by
        rw [← hMapped]
        exact congrArg Mapping.table (n.userMapping_withUser _)
      have hSource : mapped.region1Pt (vpn - region1BaseVpn) = n.region1Pt (vpn - region1BaseVpn) := by
        rw [hTable, Function.update_of_ne (by omega)]
      unfold copyFrame
      dsimp only
      split_ifs with hRead
      · have hCopied : CopyPage n child brkPage vpn prot rest _ :=
          .copied hRead.1 hNext hSize hFree hMarked
        convert hCopied using 1
        rw [hSource, hTable, Function.update_self]
        show copyPages _ child brkPage rest = _
        congr 1
        subst hMapped
        simp only [unmapNoFree, if_pos hBrk, destroyPte, Option.getD_some, Memory.withUser, Memory.setFrames,
          Memory.setRegion1Pt, Memory.region1Pt, Memory.userMapping, createPte, handOver, Function.update_self,
          Function.update_idem, Function.update_of_ne hChild]
      · exact .stopped

theorem handOver_region1Pt (hChild : child ≠ n.active) (brkPage vpn : Int) (prot : Prot) (frames : Frames)
    (pfn : Nat) :
    (handOver n child brkPage vpn prot frames pfn).region1Pt =
      Function.update n.region1Pt (brkPage - region1BaseVpn) ⟨false, .readWrite, pfn⟩ := by
  simp only [Memory.region1Pt, handOver, Function.update_of_ne hChild.symm, Function.update_self]

theorem handOver_child (n : Memory) (child : Proc) (brkPage vpn : Int) (prot : Prot) (frames : Frames) (pfn : Nat) :
    ((handOver n child brkPage vpn prot frames pfn).ctx child).region1Pt =
      Function.update (n.ctx child).region1Pt (vpn - region1BaseVpn) ⟨true, prot, pfn⟩ := by
  simp only [handOver, Function.update_self]

/-- The frames of the child's entries for `pages`. -/
def handedFrames (n : Memory) (child : Proc) (pages : List (Int × Prot)) : Set Nat :=
  {pfn | ∃ page ∈ pages, ((n.ctx child).region1Pt (page.1 - region1BaseVpn)).pfn = pfn}

/-- The pages in `pages` have been copied from `m` to the table of the child. -/
structure Copied (m : Memory) (child : Proc) (brkPage : Int) (pages : List (Int × Prot)) (n : Memory) : Prop where
  side : n.kernelSide = m.kernelSide
  bounds : ∀ p, n.ctx p = { m.ctx p with region1Pt := (n.ctx p).region1Pt }
  parent : ∀ i, i ≠ brkPage - region1BaseVpn → n.region1Pt i = m.region1Pt i
  scratch : (n.region1Pt (brkPage - region1BaseVpn)).valid = false
  inside : ∀ page ∈ pages, inRegion1 page.1
  entry : ∀ page ∈ pages, ∃ pfn ∈ m.frames.range \ m.frames.inUse,
    (n.ctx child).region1Pt (page.1 - region1BaseVpn) = ⟨true, page.2, pfn⟩
  untouched : ∀ i, (∀ page ∈ pages, page.1 - region1BaseVpn ≠ i) →
    (n.ctx child).region1Pt i = (m.ctx child).region1Pt i
  apart : ∀ page ∈ pages, ∀ other ∈ pages, page.1 ≠ other.1 →
    ((n.ctx child).region1Pt (page.1 - region1BaseVpn)).pfn ≠
      ((n.ctx child).region1Pt (other.1 - region1BaseVpn)).pfn
  contents : ∀ page ∈ pages, (m.region1Pt (page.1 - region1BaseVpn)).pfn ∈ m.frames.inUse →
    n.pmem ((n.ctx child).region1Pt (page.1 - region1BaseVpn)).pfn =
      m.pmem (m.region1Pt (page.1 - region1BaseVpn)).pfn
  kept : ∀ pfn ∈ m.frames.inUse, n.pmem pfn = m.pmem pfn
  inUse : n.frames.inUse = m.frames.inUse ∪ handedFrames n child pages
  wf : n.frames.Wf
  numFrames : n.frames.numFrames = m.frames.numFrames

theorem Copied.nil (hWf : m.frames.Wf) (hScratch : (m.region1Pt (brkPage - region1BaseVpn)).valid = false) :
    Copied m child brkPage [] m where
  side := rfl
  bounds _ := rfl
  parent _ _ := rfl
  scratch := hScratch
  inside := by simp
  entry := by simp
  untouched _ _ := rfl
  apart := by simp
  contents := by simp
  kept _ _ := rfl
  inUse := by simp [handedFrames]
  wf := hWf
  numFrames := rfl

/-- One more page is copied. -/
theorem Copied.snoc {pages : List (Int × Prot)} (h : Copied m child brkPage pages n) (hChild : child ≠ m.active)
    {frames : Frames} {pfn : Nat} (hOther : vpn ≠ brkPage) (hNew : ∀ page ∈ pages, page.1 ≠ vpn)
    (hIn : inRegion1 vpn) (hWf : frames.Wf) (hSize : frames.numFrames = n.frames.numFrames)
    (hFree : pfn ∈ n.frames.range \ n.frames.inUse) (hMarked : frames.inUse = insert pfn n.frames.inUse) :
    Copied m child brkPage (pages ++ [(vpn, prot)]) (handOver n child brkPage vpn prot frames pfn) := by
  have hActive : child ≠ n.active := by
    rw [show n.active = m.active from congrArg KernelSide.active h.side]
    exact hChild
  have hRange : n.frames.range = m.frames.range := Frames.range_of_numFrames h.numFrames
  have hUnused : pfn ∉ m.frames.inUse := by
    intro hOld
    refine hFree.2 ?_
    rw [h.inUse]
    exact Or.inl hOld
  have hTable := handOver_child n child brkPage vpn prot frames pfn
  have hParent := handOver_region1Pt hActive brkPage vpn prot frames pfn
  -- the entries of the earlier pages, and their frames, stay as they were
  have hOld (page : Int × Prot) (hPage : page ∈ pages) :
      ((handOver n child brkPage vpn prot frames pfn).ctx child).region1Pt (page.1 - region1BaseVpn) =
        (n.ctx child).region1Pt (page.1 - region1BaseVpn) := by
    have hNe := hNew page hPage
    rw [hTable, Function.update_of_ne (by omega)]
  have hLast : ((handOver n child brkPage vpn prot frames pfn).ctx child).region1Pt (vpn - region1BaseVpn) =
      ⟨true, prot, pfn⟩ := by
    rw [hTable, Function.update_self]
  have hDistinct (page : Int × Prot) (hPage : page ∈ pages) :
      ((n.ctx child).region1Pt (page.1 - region1BaseVpn)).pfn ≠ pfn := by
    intro hSame
    refine hFree.2 ?_
    rw [h.inUse]
    exact Or.inr ⟨page, hPage, hSame⟩
  have hPmem (other : Nat) (hNe : other ≠ pfn) :
      (handOver n child brkPage vpn prot frames pfn).pmem other = n.pmem other := Function.update_of_ne hNe _ _
  constructor
  · exact h.side
  · intro p
    have hBounds := h.bounds p
    by_cases hThis : p = child
    · subst hThis
      simp only [handOver, Function.update_self]
      rw [hBounds]
    · simp only [handOver, Function.update_of_ne hThis]
      by_cases hParentIs : p = n.active
      · subst hParentIs
        simp only [Function.update_self]
        rw [hBounds]
      · simp only [Function.update_of_ne hParentIs]
        exact hBounds
  · intro i hi
    rw [hParent, Function.update_of_ne hi]
    exact h.parent i hi
  · rw [hParent, Function.update_self]
  · rw [List.forall_mem_append]
    refine ⟨h.inside, ?_⟩
    simpa using hIn
  · rw [List.forall_mem_append]
    constructor
    · intro page hPage
      rw [hOld page hPage]
      exact h.entry page hPage
    · simp only [List.mem_singleton, forall_eq]
      exact ⟨pfn, ⟨hRange ▸ hFree.1, hUnused⟩, hLast⟩
  · intro i hNone
    have hNe : vpn - region1BaseVpn ≠ i := hNone (vpn, prot) (by simp)
    rw [hTable, Function.update_of_ne hNe.symm]
    exact h.untouched i fun page hPage => hNone page (by simp [hPage])
  · intro page hPage other hOtherPage hNe
    rw [List.mem_append, List.mem_singleton] at hPage hOtherPage
    rcases hPage with hPage | rfl <;> rcases hOtherPage with hOtherPage | rfl
    · rw [hOld page hPage, hOld other hOtherPage]
      exact h.apart page hPage other hOtherPage hNe
    · rw [hOld page hPage, hLast]
      exact hDistinct page hPage
    · rw [hOld other hOtherPage, hLast]
      exact (hDistinct other hOtherPage).symm
    · exact absurd rfl hNe
  · intro page hPage hUsed
    rw [List.mem_append, List.mem_singleton] at hPage
    rcases hPage with hPage | rfl
    · rw [hOld page hPage, hPmem _ (hDistinct page hPage)]
      exact h.contents page hPage hUsed
    · have hSame : n.region1Pt (vpn - region1BaseVpn) = m.region1Pt (vpn - region1BaseVpn) :=
        h.parent _ (by omega)
      rw [hLast]
      refine (Function.update_self _ _ _).trans ?_
      rw [hSame]
      exact h.kept _ hUsed
  · intro other hUsed
    rw [hPmem other fun hSame => hUnused (hSame ▸ hUsed)]
    exact h.kept other hUsed
  · have hFrames : handedFrames (handOver n child brkPage vpn prot frames pfn) child (pages ++ [(vpn, prot)]) =
        insert pfn (handedFrames n child pages) := by
      ext other
      simp only [handedFrames, List.mem_append, List.mem_singleton, Set.mem_ofPred_eq, Set.mem_insert_iff]
      constructor
      · rintro ⟨page, hPage | rfl, rfl⟩
        · rw [hOld page hPage]
          exact Or.inr ⟨page, hPage, rfl⟩
        · exact Or.inl (by rw [hLast])
      · rintro (rfl | ⟨page, hPage, rfl⟩)
        · exact ⟨(vpn, prot), Or.inr rfl, by rw [hLast]⟩
        · exact ⟨page, Or.inl hPage, by rw [hOld page hPage]⟩
    rw [hFrames, Set.union_insert, ← h.inUse]
    exact hMarked
  · exact hWf
  · exact hSize.trans h.numFrames

/-- `destroy_pt` gives back the frames of the valid entries. -/
theorem destroyPt_spec (m : Memory) (pt : PageTable) (first last : Int) :
    ∃ frames : Frames, destroyPt m pt first last = m.setFrames frames ∧
      frames.inUse = m.frames.inUse \ heldFrames pt first last ∧ (m.frames.Wf → frames.Wf) := by
  have hLoop (pages : List Int) (m : Memory) : ∃ frames : Frames,
      pages.foldl (fun m vpn =>
        if (pt vpn).valid then m.setFrames (m.frames.freeFrame (pt vpn).pfn).1 else m) m = m.setFrames frames ∧
      frames.inUse = m.frames.inUse \ {pfn | ∃ i ∈ pages, (pt i).valid = true ∧ (pt i).pfn = pfn} ∧
      (m.frames.Wf → frames.Wf) := by
    induction pages generalizing m with
    | nil => exact ⟨m.frames, rfl, by simp, id⟩
    | cons vpn pages ih =>
        rw [List.foldl_cons]
        split_ifs with hValid
        · obtain ⟨frames, hEq, hUsed, hWf⟩ := ih (m.setFrames (m.frames.freeFrame (pt vpn).pfn).1)
          refine ⟨frames, hEq, ?_, fun hOld => hWf (hOld.freeFrame _)⟩
          have hFreed : (m.setFrames (m.frames.freeFrame (pt vpn).pfn).1).frames.inUse =
              m.frames.inUse \ {(pt vpn).pfn} := m.frames.inUse_freeFrame _
          rw [hUsed, hFreed]
          ext pfn
          simp only [Set.mem_sdiff, Set.mem_singleton_iff, Set.mem_ofPred_eq, List.mem_cons,
            exists_eq_or_imp, hValid, true_and, not_or]
          tauto
        · obtain ⟨frames, hEq, hUsed, hWf⟩ := ih m
          refine ⟨frames, hEq, ?_, hWf⟩
          rw [hUsed]
          ext pfn
          simp [hValid]
  obtain ⟨frames, hEq, hUsed, hWf⟩ := hLoop (pageRange first last) m
  refine ⟨frames, hEq, ?_, hWf⟩
  rw [hUsed]
  ext pfn
  simp only [heldFrames, mem_pageRange, Set.mem_sdiff, Set.mem_ofPred_eq, and_assoc]

/-- The frames in use and the mappings of the parent are as before. -/
structure GivenBack (m m' : Memory) : Prop where
  inUse : m'.frames.inUse = m.frames.inUse
  mappings : mappings (m'.ctx m.active).region1Pt = mappings m.region1Pt

/-- The frames copied so far are exactly those below the page that failed. -/
theorem Copied.handedFrames_eq {pages : List (Int × Prot)} (h : Copied m child brkPage pages n)
    (hFresh : ∀ i, ((m.ctx child).region1Pt i).valid = false) (hBelow : ∀ page ∈ pages, page.1 < vpn) :
    heldFrames (n.ctx child).region1Pt 0 (vpn - region1BaseVpn) = handedFrames n child pages := by
  ext pfn
  simp only [heldFrames, handedFrames, Set.mem_ofPred_eq]
  constructor
  · rintro ⟨i, hLow, hHigh, hValid, hPfn⟩
    by_contra hNone
    have hSame : (n.ctx child).region1Pt i = (m.ctx child).region1Pt i := by
      refine h.untouched i fun page hPage hIndex => hNone ⟨page, hPage, ?_⟩
      rw [hIndex, hPfn]
    rw [hSame, hFresh i] at hValid
    cases hValid
  · rintro ⟨page, hPage, hPfn⟩
    obtain ⟨frame, -, hEntry⟩ := h.entry page hPage
    have hInside : page.1 - region1BaseVpn < region1Vpns ∧ 0 ≤ page.1 - region1BaseVpn := h.inside page hPage
    have hLess := hBelow page hPage
    refine ⟨page.1 - region1BaseVpn, hInside.2, by omega, ?_, hPfn⟩
    rw [hEntry]

/-- A copy that stops gives back what was copied. -/
theorem Copied.givenBack {pages : List (Int × Prot)} (h : Copied m child brkPage pages n)
    (hFresh : ∀ i, ((m.ctx child).region1Pt i).valid = false)
    (hScratch : (m.region1Pt (brkPage - region1BaseVpn)).valid = false)
    (hBelow : ∀ page ∈ pages, page.1 < vpn) {frames : Frames} (hSame : frames.inUse = n.frames.inUse) :
    GivenBack m (destroyPt (n.setFrames frames) (n.ctx child).region1Pt 0 (vpn - region1BaseVpn)) := by
  obtain ⟨freed, hEq, hUsed, -⟩ := destroyPt_spec (n.setFrames frames) (n.ctx child).region1Pt 0
    (vpn - region1BaseVpn)
  rw [hEq]
  constructor
  · show freed.inUse = m.frames.inUse
    have hFrames : (n.setFrames frames).frames.inUse = m.frames.inUse ∪ handedFrames n child pages :=
      hSame.trans h.inUse
    rw [hUsed, hFrames, h.handedFrames_eq hFresh hBelow]
    refine Set.union_sdiff_cancel_right ?_
    rintro pfn ⟨hOld, page, hPage, rfl⟩
    obtain ⟨frame, hFree, hEntry⟩ := h.entry page hPage
    rw [hEntry] at hOld
    exact hFree.2 hOld
  · have hActive : n.active = m.active := congrArg KernelSide.active h.side
    funext i
    show mappings (n.ctx m.active).region1Pt i = mappings m.region1Pt i
    rw [← hActive]
    by_cases hi : i = brkPage - region1BaseVpn
    · subst hi
      rw [mappings_invalid hScratch]
      exact mappings_invalid h.scratch
    · exact mappings_congr (h.parent i hi)

/-- The outcomes of the copy of a list of pages. -/
inductive CopyRun (m : Memory) (child : Proc) (brkPage : Int) (pages : List (Int × Prot)) :
    Except Stop (Memory × Bool) → Prop where
  | copied {n : Memory} (h : Copied m child brkPage pages n) : CopyRun m child brkPage pages (.ok (n, true))
  | refused {n : Memory} (h : pages.Pairwise (·.1 < ·.1) → GivenBack m n) :
      CopyRun m child brkPage pages (.ok (n, false))
  | stopped {stop : Stop} : CopyRun m child brkPage pages (.error stop)

/-- The loop over the pages that are left, after those in `before`. -/
theorem copyPages_run (hChild : child ≠ m.active) (hBrk : inRegion1 brkPage)
    (hFresh : ∀ i, ((m.ctx child).region1Pt i).valid = false)
    (hScratch : (m.region1Pt (brkPage - region1BaseVpn)).valid = false) (pages before : List (Int × Prot))
    (hApart : (before ++ pages).Pairwise (·.1 ≠ ·.1)) (hOther : ∀ page ∈ pages, page.1 ≠ brkPage)
    (h : Copied m child brkPage before n) :
    CopyRun m child brkPage (before ++ pages) (copyPages n child brkPage pages) := by
  induction pages generalizing before n with
  | nil =>
      rw [List.append_nil]
      exact .copied h
  | cons page rest ih =>
      obtain ⟨vpn, prot⟩ := page
      have hNew (page : Int × Prot) (hPage : page ∈ before) : page.1 ≠ vpn :=
        (List.pairwise_append.mp hApart).2.2 page hPage (vpn, prot) List.mem_cons_self
      have hNotBrk : vpn ≠ brkPage := hOther (vpn, prot) List.mem_cons_self
      have hActive : child ≠ n.active := by
        rw [show n.active = m.active from congrArg KernelSide.active h.side]
        exact hChild
      have hCases := copyPage_cases h.wf hBrk hActive hNotBrk prot rest
      generalize copyPages n child brkPage ((vpn, prot) :: rest) = result at hCases ⊢
      cases hCases with
      | stopped => exact .stopped
      | full hWf hSize hSame =>
          refine .refused fun hSorted => h.givenBack hFresh hScratch (fun page hPage => ?_) hSame
          exact (List.pairwise_append.mp hSorted).2.2 page hPage (vpn, prot) List.mem_cons_self
      | copied hIn hWf hSize hFree hMarked =>
          have hNext : Copied m child brkPage (before ++ [(vpn, prot)]) _ :=
            h.snoc hChild hNotBrk hNew hIn hWf hSize hFree hMarked
          have hSplit : before ++ (vpn, prot) :: rest = (before ++ [(vpn, prot)]) ++ rest := by simp
          rw [hSplit] at hApart ⊢
          exact ih _ hApart (fun page hPage => hOther page (List.mem_cons_of_mem _ hPage)) hNext

/-- The pages that a context asks to copy. -/
theorem mem_copiedPages {ctx : MemCtx} {sp : Word} {page : Int × Prot} :
    page ∈ copiedPages ctx sp ↔
      ctx.txtStartPage ≤ page.1 ∧ page.1 < ctx.dataStartPage ∧ page.2 = .readExec ∨
      ctx.dataStartPage ≤ page.1 ∧ page.1 < ctx.currBrkPage ∧ page.2 = .readWrite ∨
      pageNumber (downToPage sp) ≤ page.1 ∧ page.1 < region1LimitVpn ∧ page.2 = .readWrite := by
  obtain ⟨vpn, prot⟩ := page
  simp only [copiedPages, List.mem_append, List.mem_map, mem_pageRange, Prod.mk.injEq]
  constructor
  · rintro ((⟨_, ⟨hLow, hHigh⟩, rfl, rfl⟩ | ⟨_, ⟨hLow, hHigh⟩, rfl, rfl⟩) | ⟨_, ⟨hLow, hHigh⟩, rfl, rfl⟩)
    · exact Or.inl ⟨hLow, hHigh, rfl⟩
    · exact Or.inr (Or.inl ⟨hLow, hHigh, rfl⟩)
    · exact Or.inr (Or.inr ⟨hLow, hHigh, rfl⟩)
  · rintro (⟨hLow, hHigh, rfl⟩ | ⟨hLow, hHigh, rfl⟩ | ⟨hLow, hHigh, rfl⟩)
    · exact Or.inl (Or.inl ⟨vpn, ⟨hLow, hHigh⟩, rfl, rfl⟩)
    · exact Or.inl (Or.inr ⟨vpn, ⟨hLow, hHigh⟩, rfl, rfl⟩)
    · exact Or.inr ⟨vpn, ⟨hLow, hHigh⟩, rfl, rfl⟩

omit [Hardware] in
/-- The pages of a range with one protection are in increasing order. -/
theorem sorted_pages (first last : Int) (prot : Prot) :
    ((pageRange first last).map (·, prot)).Pairwise (·.1 < ·.1) := by
  rw [List.pairwise_map, pageRange, List.pairwise_map]
  refine List.pairwise_lt_range.imp fun hLess => ?_
  omega

/-- Text, data and stack lie in this order around the break. -/
theorem sorted_copiedPages {ctx : MemCtx} {sp : Word} (hData : ctx.dataStartPage ≤ ctx.currBrkPage)
    (hStack : ctx.currBrkPage < pageNumber (downToPage sp)) :
    (copiedPages ctx sp).Pairwise (·.1 < ·.1) := by
  unfold copiedPages
  rw [List.pairwise_append, List.pairwise_append]
  refine ⟨⟨sorted_pages _ _ _, sorted_pages _ _ _, ?_⟩, sorted_pages _ _ _, ?_⟩
  · simp only [List.mem_map, mem_pageRange]
    rintro _ ⟨text, hText, rfl⟩ _ ⟨data, hDataPage, rfl⟩
    dsimp only
    omega
  · simp only [List.mem_append, List.mem_map, mem_pageRange]
    rintro _ (⟨page, hPage, rfl⟩ | ⟨page, hPage, rfl⟩) _ ⟨stack, hStackPage, rfl⟩
    · dsimp only
      omega
    · dsimp only
      omega

/-- The page at the break is not copied. -/
theorem scratch_not_copied {ctx : MemCtx} {sp : Word} (hData : ctx.dataStartPage ≤ ctx.currBrkPage)
    (hStack : ctx.currBrkPage < pageNumber (downToPage sp)) :
    ∀ page ∈ copiedPages ctx sp, page.1 ≠ ctx.currBrkPage := by
  intro page hPage
  rcases mem_copiedPages.mp hPage with ⟨hLow, hHigh, -⟩ | ⟨hLow, hHigh, -⟩ | ⟨hLow, hHigh, -⟩
  all_goals omega

/-- A break outside region 1: the copy fails at the first page, and a frame that
was found for it is lost. -/
theorem copyPages_outside (hWf : m.frames.Wf) (hBrk : ¬inRegion1 brkPage)
    (hFresh : ∀ i, ((m.ctx child).region1Pt i).valid = false) {pages : List (Int × Prot)} (hPages : pages ≠ []) :
    ∃ frames : Frames, copyPages m child brkPage pages = .ok (m.setFrames frames, false) ∧
      (m.frames.freeCount = 0 ∧ frames.inUse = m.frames.inUse ∨
        ∃ pfn ∈ m.frames.range \ m.frames.inUse, frames.inUse = insert pfn m.frames.inUse) := by
  obtain ⟨⟨vpn, prot⟩, rest, rfl⟩ := List.exists_cons_of_ne_nil hPages
  have hAlloc := Mapping.alloc_cases (x := m.userMapping) hWf region1Vpns (brkPage - region1BaseVpn) .readWrite
  have hNone : heldFrames (m.ctx child).region1Pt 0 (vpn - region1BaseVpn) = ∅ := by
    ext pfn
    simp only [heldFrames, hFresh, Bool.false_eq_true, false_and, and_false, exists_false, Set.mem_ofPred_eq,
      Set.mem_empty_iff_false]
  unfold copyPages
  rw [allocPage_eq]
  generalize Mapping.alloc region1Vpns m.userMapping (brkPage - region1BaseVpn) .readWrite = result at hAlloc ⊢
  cases hAlloc with
  | @full frames hFull hNext hSize hSame =>
      obtain ⟨freed, hEq, hUsed, -⟩ := destroyPt_spec (m.setFrames frames) (m.ctx child).region1Pt 0
        (vpn - region1BaseVpn)
      dsimp only
      rw [m.withUser_frames frames]
      refine ⟨freed, congrArg (fun m => Except.ok (m, false)) hEq, Or.inl ⟨hFull, ?_⟩⟩
      rw [hUsed, hNone, Set.sdiff_empty]
      exact hSame
  | mapped hIn hNext hSize hFree hMarked => exact absurd ⟨hIn.2, hIn.1⟩ hBrk
  | @lost frames pfn hOut hNext hSize hFree hMarked =>
      obtain ⟨freed, hEq, hUsed, -⟩ := destroyPt_spec (m.setFrames frames) (m.ctx child).region1Pt 0
        (vpn - region1BaseVpn)
      dsimp only
      rw [m.withUser_frames frames]
      refine ⟨freed, congrArg (fun m => Except.ok (m, false)) hEq, Or.inr ⟨pfn, hFree, ?_⟩⟩
      rw [hUsed, hNone, Set.sdiff_empty]
      exact hMarked

/-- What `UCCopy` returns is what the loop over the pages returns, unless it
refuses at once. -/
theorem ucCopy_false {sp : Word} (h : ucCopy m sp child = .ok (m', false)) :
    pageNumber (downToPage sp) ≤ (m.ctx m.active).currBrkPage ∧ m' = m ∨
      (m.ctx m.active).currBrkPage < pageNumber (downToPage sp) ∧
        copyPages m child (m.ctx m.active).currBrkPage (copiedPages (m.ctx m.active) sp) = .ok (m', false) := by
  unfold ucCopy at h
  dsimp only at h
  split_ifs at h with hBelow
  · obtain rfl := (Prod.mk.inj (Except.ok.inj h)).1
    exact Or.inl ⟨hBelow, rfl⟩
  · obtain ⟨⟨n, ok⟩, hCopy, h⟩ := bind_eq_ok.mp h
    cases ok with
    | true => cases h
    | false =>
        obtain rfl := (Prod.mk.inj (Except.ok.inj h)).1
        exact Or.inr ⟨not_le.mp hBelow, hCopy⟩

/-- A copy that fails gives everything back, unless the break is outside region 1
and a frame is found for it. -/
theorem copy_gives_back_iff {sp : Word} (hWf : m.frames.Wf) (hChild : child ≠ m.active)
    (hFresh : ∀ i, ((m.ctx child).region1Pt i).valid = false)
    (hScratch : (m.region1Pt ((m.ctx m.active).currBrkPage - region1BaseVpn)).valid = false)
    (hData : (m.ctx m.active).dataStartPage ≤ (m.ctx m.active).currBrkPage) :
    (∀ m', ucCopy m sp child = .ok (m', false) → GivenBack m m') ↔
      inRegion1 (m.ctx m.active).currBrkPage ∨
      pageNumber (downToPage sp) ≤ (m.ctx m.active).currBrkPage ∨
      copiedPages (m.ctx m.active) sp = [] ∨ m.frames.freeCount = 0 := by
  constructor
  · intro hBack
    by_contra hNot
    simp only [not_or, not_le] at hNot
    obtain ⟨hBrk, hBelow, hPages, hSome⟩ := hNot
    obtain ⟨frames, hCopy, hFrames⟩ := copyPages_outside hWf hBrk hFresh hPages
    have hRun : ucCopy m sp child = .ok (m.setFrames frames, false) := by
      unfold ucCopy
      dsimp only
      rw [if_neg (by omega), hCopy]
      rfl
    obtain ⟨hFull, -⟩ | ⟨pfn, hFree, hMarked⟩ := hFrames
    · exact hSome hFull
    · have hSame : frames.inUse = m.frames.inUse := (hBack _ hRun).inUse
      rw [hMarked] at hSame
      exact hFree.2 (hSame ▸ Set.mem_insert pfn _)
  · intro hWhen m' hRun
    obtain ⟨-, rfl⟩ | ⟨hBelow, hCopy⟩ := ucCopy_false hRun
    · exact ⟨rfl, rfl⟩
    have hSorted := sorted_copiedPages hData hBelow
    by_cases hBrk : inRegion1 (m.ctx m.active).currBrkPage
    · have hLoop := copyPages_run hChild hBrk hFresh hScratch (copiedPages (m.ctx m.active) sp) []
        (hSorted.imp fun hLess => hLess.ne) (scratch_not_copied hData hBelow) (.nil hWf hScratch)
      rw [List.nil_append, hCopy] at hLoop
      cases hLoop with
      | refused h => exact h hSorted
    · have hPages : copiedPages (m.ctx m.active) sp ≠ [] := by
        intro hNone
        rw [hNone] at hCopy
        cases hCopy
      have hFull : m.frames.freeCount = 0 :=
        ((hWhen.resolve_left hBrk).resolve_left (by omega)).resolve_left hPages
      obtain ⟨frames, hLost, ⟨-, hSame⟩ | ⟨pfn, hFree, -⟩⟩ := copyPages_outside hWf hBrk hFresh hPages
      · rw [hLost] at hCopy
        obtain rfl := (Prod.mk.inj (Except.ok.inj hCopy)).1
        exact ⟨hSame, rfl⟩
      · exact absurd (Frames.freeCount_eq_zero.mp hFull hFree.1) hFree.2

/-- A page of the address space: text, data and heap, or stack. -/
def IsPage (ctx : MemCtx) (sp : Word) (vpn : Int) : Prop :=
  ctx.txtStartPage ≤ vpn ∧ vpn < ctx.dataStartPage ∨ ctx.dataStartPage ≤ vpn ∧ vpn < ctx.currBrkPage ∨
    pageNumber (downToPage sp) ≤ vpn ∧ vpn < region1LimitVpn

/-- The address space is mapped the way the bounds of its context say. -/
structure Laid (m : Memory) (sp : Word) : Prop where
  text : ∀ vpn, (m.ctx m.active).txtStartPage ≤ vpn → vpn < (m.ctx m.active).dataStartPage →
    (m.region1Pt (vpn - region1BaseVpn)).valid = true ∧ (m.region1Pt (vpn - region1BaseVpn)).prot = .readExec
  data : ∀ vpn, (m.ctx m.active).dataStartPage ≤ vpn → vpn < (m.ctx m.active).currBrkPage →
    (m.region1Pt (vpn - region1BaseVpn)).valid = true ∧ (m.region1Pt (vpn - region1BaseVpn)).prot = .readWrite
  stack : ∀ vpn, pageNumber (downToPage sp) ≤ vpn → vpn < region1LimitVpn →
    (m.region1Pt (vpn - region1BaseVpn)).valid = true ∧ (m.region1Pt (vpn - region1BaseVpn)).prot = .readWrite
  scratch : (m.region1Pt ((m.ctx m.active).currBrkPage - region1BaseVpn)).valid = false
  below : (m.ctx m.active).currBrkPage < pageNumber (downToPage sp)

/-- The frames of the pages of region 1 are marked. -/
def FramesMarked (m : Memory) : Prop :=
  ∀ i : Int, 0 ≤ i → i < region1Vpns → (m.region1Pt i).valid = true → (m.region1Pt i).pfn ∈ m.frames.inUse

/-- The child has the address space of the parent, in frames that were free. -/
structure Duplicate (m m' : Memory) (child : Proc) (sp : Word) : Prop where
  valid : ∀ vpn, ((m'.ctx child).region1Pt (vpn - region1BaseVpn)).valid = true ↔ IsPage (m.ctx m.active) sp vpn
  prot : ∀ vpn, IsPage (m.ctx m.active) sp vpn →
    ((m'.ctx child).region1Pt (vpn - region1BaseVpn)).prot = (m.region1Pt (vpn - region1BaseVpn)).prot
  contents : ∀ vpn, IsPage (m.ctx m.active) sp vpn →
    m'.pmem ((m'.ctx child).region1Pt (vpn - region1BaseVpn)).pfn =
      m.pmem (m.region1Pt (vpn - region1BaseVpn)).pfn
  fresh : ∀ vpn, IsPage (m.ctx m.active) sp vpn →
    ((m'.ctx child).region1Pt (vpn - region1BaseVpn)).pfn ∈ m.frames.range \ m.frames.inUse
  apart : ∀ vpn other, IsPage (m.ctx m.active) sp vpn → IsPage (m.ctx m.active) sp other → vpn ≠ other →
    ((m'.ctx child).region1Pt (vpn - region1BaseVpn)).pfn ≠
      ((m'.ctx child).region1Pt (other - region1BaseVpn)).pfn
  bounds : m'.ctx child = { m.ctx m.active with region1Pt := (m'.ctx child).region1Pt }
  parent : mappings (m'.ctx m.active).region1Pt = mappings m.region1Pt
  kept : ∀ vpn, inRegion1 vpn → (m.region1Pt (vpn - region1BaseVpn)).valid = true →
    m'.pmem (m.region1Pt (vpn - region1BaseVpn)).pfn = m.pmem (m.region1Pt (vpn - region1BaseVpn)).pfn

theorem isPage_iff {ctx : MemCtx} {sp : Word} {vpn : Int} :
    IsPage ctx sp vpn ↔ ∃ prot, (vpn, prot) ∈ copiedPages ctx sp := by
  simp only [mem_copiedPages, IsPage]
  constructor
  · rintro (⟨hLow, hHigh⟩ | ⟨hLow, hHigh⟩ | ⟨hLow, hHigh⟩)
    · exact ⟨.readExec, Or.inl ⟨hLow, hHigh, rfl⟩⟩
    · exact ⟨.readWrite, Or.inr (Or.inl ⟨hLow, hHigh, rfl⟩)⟩
    · exact ⟨.readWrite, Or.inr (Or.inr ⟨hLow, hHigh, rfl⟩)⟩
  · rintro ⟨prot, ⟨hLow, hHigh, -⟩ | ⟨hLow, hHigh, -⟩ | ⟨hLow, hHigh, -⟩⟩
    · exact Or.inl ⟨hLow, hHigh⟩
    · exact Or.inr (Or.inl ⟨hLow, hHigh⟩)
    · exact Or.inr (Or.inr ⟨hLow, hHigh⟩)

namespace Laid

variable {sp : Word}

/-- Each page is mapped with the protection it is copied with. -/
theorem entry (h : Laid m sp) {page : Int × Prot} (hPage : page ∈ copiedPages (m.ctx m.active) sp) :
    (m.region1Pt (page.1 - region1BaseVpn)).valid = true ∧
      (m.region1Pt (page.1 - region1BaseVpn)).prot = page.2 := by
  rcases mem_copiedPages.mp hPage with ⟨hLow, hHigh, hProt⟩ | ⟨hLow, hHigh, hProt⟩ | ⟨hLow, hHigh, hProt⟩
  · rw [hProt]
    exact h.text _ hLow hHigh
  · rw [hProt]
    exact h.data _ hLow hHigh
  · rw [hProt]
    exact h.stack _ hLow hHigh

theorem not_scratch (h : Laid m sp) {page : Int × Prot} (hPage : page ∈ copiedPages (m.ctx m.active) sp) :
    page.1 ≠ (m.ctx m.active).currBrkPage := by
  intro hSame
  have hValid := (h.entry hPage).1
  rw [hSame, h.scratch] at hValid
  cases hValid

/-- No page is copied twice: text pages and stack pages differ in protection. -/
theorem apart (h : Laid m sp) : (copiedPages (m.ctx m.active) sp).Pairwise (·.1 ≠ ·.1) := by
  have hBelow := h.below
  have hRange (first last : Int) (prot : Prot) :
      ((pageRange first last).map (·, prot)).Pairwise (·.1 ≠ ·.1) :=
    (sorted_pages first last prot).imp fun hLess => hLess.ne
  unfold copiedPages
  rw [List.pairwise_append, List.pairwise_append]
  refine ⟨⟨hRange _ _ _, hRange _ _ _, ?_⟩, hRange _ _ _, ?_⟩
  · simp only [List.mem_map, mem_pageRange]
    rintro _ ⟨text, hText, rfl⟩ _ ⟨data, hDataPage, rfl⟩
    dsimp only
    omega
  · simp only [List.mem_append, List.mem_map, mem_pageRange]
    rintro _ (⟨page, hPage, rfl⟩ | ⟨page, hPage, rfl⟩) _ ⟨stack, hStackPage, rfl⟩
    · intro hSame
      have hExec := (h.text page hPage.1 hPage.2).2
      have hWrite := (h.stack stack hStackPage.1 hStackPage.2).2
      have hPages : page = stack := hSame
      rw [hPages, hWrite] at hExec
      exact absurd hExec (by decide)
    · dsimp only
      omega

end Laid

/-- A copy that succeeds has copied all pages, and then the bounds. -/
theorem Laid.copied {sp : Word} (h : Laid m sp) (hChild : child ≠ m.active)
    (hFresh : ∀ i, ((m.ctx child).region1Pt i).valid = false) (hWf : m.frames.Wf)
    (hCopy : ucCopy m sp child = .ok (m', true)) :
    ∃ n, Copied m child (m.ctx m.active).currBrkPage (copiedPages (m.ctx m.active) sp) n ∧
      m' = { n with
        ctx := Function.update n.ctx child { m.ctx m.active with region1Pt := (n.ctx child).region1Pt } } := by
  unfold ucCopy at hCopy
  dsimp only at hCopy
  split_ifs at hCopy with hBelow
  · cases (Prod.mk.inj (Except.ok.inj hCopy)).2
  obtain ⟨⟨n, ok⟩, hRun, hCopy⟩ := bind_eq_ok.mp hCopy
  cases ok with
  | false => cases hCopy
  | true =>
      obtain rfl := (Prod.mk.inj (Except.ok.inj hCopy)).1
      refine ⟨n, ?_, rfl⟩
      by_cases hBrk : inRegion1 (m.ctx m.active).currBrkPage
      · have hLoop := copyPages_run hChild hBrk hFresh h.scratch (copiedPages (m.ctx m.active) sp) []
          h.apart (fun page => h.not_scratch) (.nil hWf h.scratch)
        rw [List.nil_append, hRun] at hLoop
        cases hLoop with
        | copied hCopied => exact hCopied
      · -- with the break outside region 1 only the empty copy succeeds
        by_cases hPages : copiedPages (m.ctx m.active) sp = []
        · rw [hPages] at hRun ⊢
          obtain rfl := (Prod.mk.inj (Except.ok.inj hRun)).1
          exact .nil hWf h.scratch
        · obtain ⟨frames, hLost, -⟩ := copyPages_outside hWf hBrk hFresh hPages
          rw [hLost] at hRun
          cases (Prod.mk.inj (Except.ok.inj hRun)).2

theorem Laid.duplicate {sp : Word} (h : Laid m sp) (hChild : child ≠ m.active)
    (hFresh : ∀ i, ((m.ctx child).region1Pt i).valid = false) (hWf : m.frames.Wf) (hMarked : FramesMarked m)
    (hCopy : ucCopy m sp child = .ok (m', true)) : Duplicate m m' child sp := by
  obtain ⟨n, hCopied, rfl⟩ := h.copied hChild hFresh hWf hCopy
  have hActive : n.active = m.active := congrArg KernelSide.active hCopied.side
  have hParent : (n.ctx m.active).region1Pt = n.region1Pt := by rw [Memory.region1Pt, hActive]
  have hUsed {page : Int × Prot} (hPage : page ∈ copiedPages (m.ctx m.active) sp) :
      (m.region1Pt (page.1 - region1BaseVpn)).pfn ∈ m.frames.inUse := by
    have hInside : page.1 - region1BaseVpn < region1Vpns ∧ 0 ≤ page.1 - region1BaseVpn :=
      hCopied.inside page hPage
    exact hMarked _ hInside.2 hInside.1 (h.entry hPage).1
  constructor
  · intro vpn
    simp only [Function.update_self]
    rw [isPage_iff]
    constructor
    · intro hValid
      by_contra hNone
      rw [hCopied.untouched, hFresh] at hValid
      · cases hValid
      · intro page hPage hSame
        have hPageIs : page.1 = vpn := by omega
        exact hNone ⟨page.2, hPageIs ▸ hPage⟩
    · rintro ⟨prot, hPage⟩
      obtain ⟨pfn, -, hEntry⟩ := hCopied.entry _ hPage
      rw [hEntry]
  · intro vpn hPage
    obtain ⟨prot, hPage⟩ := isPage_iff.mp hPage
    obtain ⟨pfn, -, hEntry⟩ := hCopied.entry _ hPage
    simp only [Function.update_self]
    rw [hEntry, (h.entry hPage).2]
  · intro vpn hPage
    obtain ⟨prot, hPage⟩ := isPage_iff.mp hPage
    simp only [Function.update_self]
    exact hCopied.contents _ hPage (hUsed hPage)
  · intro vpn hPage
    obtain ⟨prot, hPage⟩ := isPage_iff.mp hPage
    obtain ⟨pfn, hFree, hEntry⟩ := hCopied.entry _ hPage
    simp only [Function.update_self]
    rw [hEntry]
    exact hFree
  · intro vpn other hPage hOther hNe
    obtain ⟨prot, hPage⟩ := isPage_iff.mp hPage
    obtain ⟨otherProt, hOther⟩ := isPage_iff.mp hOther
    simp only [Function.update_self]
    exact hCopied.apart _ hPage _ hOther hNe
  · simp only [Function.update_self]
  · funext i
    simp only [Function.update_of_ne hChild.symm]
    rw [hParent]
    by_cases hi : i = (m.ctx m.active).currBrkPage - region1BaseVpn
    · subst hi
      rw [mappings_invalid h.scratch, mappings_invalid hCopied.scratch]
    · exact mappings_congr (hCopied.parent i hi)
  · intro vpn hIn hValid
    have hInside : vpn - region1BaseVpn < region1Vpns ∧ 0 ≤ vpn - region1BaseVpn := hIn
    exact hCopied.kept _ (hMarked _ hInside.2 hInside.1 hValid)

/-- `UCCopy` copies the address space of the parent exactly, and its context. -/
theorem fork_duplicates {s : Kernel} {mem : Memory} (hServes : s.mem.active = s.runningProc)
    (hChild : child ≠ s.runningProc) (hFresh : ∀ i, ((s.mem.ctx child).region1Pt i).valid = false)
    (hWf : s.mem.frames.Wf) (hMarked : FramesMarked s.mem)
    (hLaid : Laid s.mem (s.pcb s.runningProc).uc.sp)
    (hCopy : ucCopy s.mem (s.pcb s.runningProc).uc.sp child = .ok (mem, true)) :
    Duplicate s.mem mem child (s.pcb s.runningProc).uc.sp ∧
      (((s.setMem mem).modifyPcb child fun pcb => { pcb with uc := (s.pcb s.runningProc).uc }).pcb child).uc =
        (s.pcb s.runningProc).uc :=
  ⟨hLaid.duplicate (hServes ▸ hChild) hFresh hWf hMarked hCopy, by simp [Kernel.modifyPcb]⟩

end

section Sample

open Sample

/-- The first program after a step, with a new control block. -/
def forking (labels : List Label) : Kernel := ((after labels).createNewPcb (context []) outcomes).1

/-- The first program moves its break to the end of region 1. -/
def brkAtLimit : Label := .syscall .brk { context [288] with sp := 320 } outcomes

theorem forking_fresh {labels : List Label} {child : Proc} (hNum : (after labels).numPcbs = child) (i : Int) :
    (((forking labels).mem.ctx child).region1Pt i).valid = false := by
  simp [forking, Kernel.createNewPcb, outcomes, hNum, MemCtx.blank, Pte.blank]

/-- The program of the sample machine has text, data and one page of stack. -/
theorem fork_duplicates_program : ∃ mem,
    ucCopy (forking turn).mem 272 2 = .ok (mem, true) ∧ Duplicate (forking turn).mem mem 2 272 := by
  have hOk : ((ucCopy (forking turn).mem 272 2).toOption.any fun copied => copied.2) = true := by
    decide +kernel
  obtain ⟨⟨mem, ok⟩, hCopy, hTrue⟩ := (Option.any_eq_true _ _).mp hOk
  obtain rfl : ok = true := hTrue
  have hRun := mem_toOption.mp hCopy
  refine ⟨mem, hRun, ?_⟩
  have hSp : ((forking turn).pcb (forking turn).runningProc).uc.sp = 272 := by decide +kernel
  have hLaid : Laid (forking turn).mem 272 := by
    constructor
    all_goals decide +kernel
  have hMarked : FramesMarked (forking turn).mem := by
    unfold FramesMarked Frames.inUse
    decide +kernel
  rw [← hSp] at hRun hLaid ⊢
  exact (fork_duplicates (by decide +kernel) (by decide +kernel) (forking_fresh (by decide +kernel))
    ⟨by decide +kernel, by decide +kernel⟩ hMarked hLaid hRun).1

/-- With the break at the end of region 1, the child of the first program is
refused, and frame 14 is lost. -/
theorem copy_gives_back_fails : ∃ mem,
    KernelStart.system.Reachable (after (turn ++ [brkAtLimit])) ∧
    ucCopy (forking (turn ++ [brkAtLimit])).mem 320 2 = .ok (mem, false) ∧
    14 ∈ mem.frames.inUse ∧ 14 ∉ (forking (turn ++ [brkAtLimit])).mem.frames.inUse := by
  have hLost : ((ucCopy (forking (turn ++ [brkAtLimit])).mem 320 2).toOption.any fun copied =>
      !copied.2 && decide (copied.1.frames.used 14)) = true := by decide +kernel
  obtain ⟨⟨mem, ok⟩, hCopy, hResult⟩ := (Option.any_eq_true _ _).mp hLost
  simp only [Bool.and_eq_true, Bool.not_eq_true', decide_eq_true_eq] at hResult
  obtain ⟨rfl, hUsed⟩ := hResult
  refine ⟨mem, reachable_after (by decide +kernel), mem_toOption.mp hCopy, hUsed, ?_⟩
  show ¬(forking (turn ++ [brkAtLimit])).mem.frames.used 14
  decide +kernel

/-- After four forks a frame is left for one page, and the fifth child is refused. -/
theorem copy_gives_back_crowded : ∃ mem,
    ucCopy (forking (turn ++ List.replicate 4 (call .fork []))).mem 272 6 = .ok (mem, false) ∧
    GivenBack (forking (turn ++ List.replicate 4 (call .fork []))).mem mem := by
  have hFull : ((ucCopy (forking (turn ++ List.replicate 4 (call .fork []))).mem 272 6).toOption.any
      fun copied => !copied.2) = true := by decide +kernel
  obtain ⟨⟨mem, ok⟩, hCopy, hFalse⟩ := (Option.any_eq_true _ _).mp hFull
  obtain rfl : ok = false := by simpa using hFalse
  have hRun := mem_toOption.mp hCopy
  refine ⟨mem, hRun, (copy_gives_back_iff ⟨by decide +kernel, by decide +kernel⟩ (by decide +kernel)
    (forking_fresh (by decide +kernel)) (by decide +kernel) (by decide +kernel)).mpr ?_ mem hRun⟩
  exact Or.inl (by decide +kernel)

end Sample
end Yalnix.UserMemory
