import Yalnix.Memory.Duplicate
import Yalnix.Memory.KernelHeap
import Yalnix.Memory.Owners

/-! When `UCCopy` copies all pages, when it refuses and leaves nothing behind, and
when `KCCopy` finds room for a kernel stack. The first two depend on the table of the
parent and the number of free frames alone, the last on the kernel's own table. -/
namespace Yalnix

open Hardware

namespace Frames

variable [Hardware] {f : Frames}

/-- The allocator after `count` calls of `find_frame`. -/
def take (f : Frames) : Nat → Frames
  | 0 => f
  | count + 1 => f.findFrame.1.take count

/-- A frame is found when one is free. -/
theorem Wf.findFrame_cases (hWf : f.Wf) :
    (f.freeCount = 0 ∧ f.findFrame.2 = none ∧ f.findFrame.1.inUse = f.inUse) ∨
      ∃ pfn ∈ f.range \ f.inUse, f.findFrame.2 = some pfn ∧ f.findFrame.1.freeCount + 1 = f.freeCount := by
  cases hFound : f.findFrame.2 with
  | none =>
      refine Or.inl ⟨?_, rfl, inUse_findFrame_none hFound⟩
      rw [freeCount_eq_zero]
      exact fun pfn hRange => ⟨hRange.1, hRange.2, hWf.all_used hFound hRange.2⟩
  | some pfn =>
      have hFree := (hWf.findFrame_least hFound).1
      have hMarked : f.findFrame.1.inUse = insert pfn f.inUse := by
        ext other
        exact (hWf.findFrame_some hFound).2 other
      exact Or.inr ⟨pfn, hFree, rfl, freeCount_insert (range_of_numFrames f.findFrame_numFrames) hFree hMarked⟩

/-- As many frames are free as can be named. -/
theorem length_le_freeCount {l : List Nat} (hNodup : l.Nodup)
    (hFree : ∀ pfn ∈ l, pmemBaseFrame ≤ pfn ∧ pfn - pmemBaseFrame < f.numFrames ∧ ¬f.used pfn) :
    l.length ≤ f.freeCount := by
  rw [← List.toFinset_card_of_nodup hNodup, ← Set.ncard_coe_finset]
  refine Set.ncard_le_ncard (fun pfn hIn => ?_) f.finite_range.sdiff
  obtain ⟨hLow, hHigh, hUnused⟩ := hFree pfn (List.mem_toFinset.mp hIn)
  exact ⟨⟨hLow, hHigh⟩, hUnused⟩

theorem Wf.take (hWf : f.Wf) (count : Nat) : (f.take count).Wf := by
  induction count generalizing f with
  | zero => exact hWf
  | succ count ih => exact ih hWf.findFrame

end Frames

namespace UserMemory

open Transition

section

variable [Hardware] {m n m' : Memory} {child : Proc} {brkPage vpn : Int} {prot : Prot} {sp : Word}

/-- The page can be read through the table. -/
def Copyable (pt : PageTable) (vpn : Int) : Prop :=
  inRegion1 vpn ∧ (pt (vpn - region1BaseVpn)).valid = true ∧ (pt (vpn - region1BaseVpn)).prot.read = true

instance (pt : PageTable) (vpn : Int) : Decidable (Copyable pt vpn) := inferInstanceAs (Decidable (_ ∧ _))

/-- The copy is refused and nothing is left of it: there is no room for a stack, or
not one frame is free, or they run out before all pages are copied and the page
at the break, which every copied page passes through, was not mapped. -/
def CopyRefused (ctx : MemCtx) (free : Nat) (sp : Word) : Prop :=
  pageNumber (downToPage sp) ≤ ctx.currBrkPage ∨
    free < (copiedPages ctx sp).length ∧ (free = 0 ∨ inRegion1 ctx.currBrkPage ∧
      (ctx.region1Pt (ctx.currBrkPage - region1BaseVpn)).valid = false ∧
      ∀ page ∈ (copiedPages ctx sp).take free, Copyable ctx.region1Pt page.1)

/-- All pages are copied. -/
structure CopyFits (ctx : MemCtx) (free : Nat) (sp : Word) : Prop where
  below : ctx.currBrkPage < pageNumber (downToPage sp)
  scratch : copiedPages ctx sp = [] ∨ inRegion1 ctx.currBrkPage
  room : (copiedPages ctx sp).length ≤ free
  copyable : ∀ page ∈ copiedPages ctx sp, Copyable ctx.region1Pt page.1

/-- The body of the loop when a frame is found. -/
theorem copyPages_found {pfn : Nat} (hBrk : inRegion1 brkPage) (hChild : child ≠ m.active) (hOther : vpn ≠ brkPage)
    (hFound : m.frames.findFrame.2 = some pfn) (rest : List (Int × Prot)) :
    copyPages m child brkPage ((vpn, prot) :: rest) =
      if Copyable m.region1Pt vpn then
        copyPages (handOver m child brkPage vpn prot m.frames.findFrame.1 pfn) child brkPage rest
      else .error (.fault (vpn * pageSize)) := by
  have hPair : m.frames.findFrame = (m.frames.findFrame.1, some pfn) := Prod.ext rfl hFound
  have hAlloc : allocPage m brkPage .readWrite =
      ((m.setFrames m.frames.findFrame.1).setRegion1Pt m.active
        (createPte m.region1Pt (brkPage - region1BaseVpn) pfn .readWrite), true) := by
    unfold allocPage
    rw [hPair]
    dsimp only
    rw [if_pos hBrk]
  generalize hMapped : (m.setFrames m.frames.findFrame.1).setRegion1Pt m.active
    (createPte m.region1Pt (brkPage - region1BaseVpn) pfn .readWrite) = mapped at hAlloc
  have hTable : mapped.region1Pt =
      Function.update m.region1Pt (brkPage - region1BaseVpn) ⟨true, .readWrite, pfn⟩ := by
    rw [← hMapped]
    simp [Memory.region1Pt, Memory.setRegion1Pt, Memory.setFrames, createPte]
  have hSource : mapped.region1Pt (vpn - region1BaseVpn) = m.region1Pt (vpn - region1BaseVpn) := by
    rw [hTable, Function.update_of_ne (by omega)]
  rw [copyPages, hAlloc]
  dsimp only
  unfold copyFrame
  dsimp only
  rw [hSource, hTable, Function.update_self]
  by_cases hRead : Copyable m.region1Pt vpn
  · rw [if_pos hRead, if_pos (show inRegion1 vpn ∧ _ from hRead)]
    show copyPages _ child brkPage rest = _
    congr 1
    subst hMapped
    simp only [unmapNoFree, if_pos hBrk, destroyPte, Option.getD_some, Memory.setFrames,
      Memory.setRegion1Pt, Memory.region1Pt, createPte, handOver, Function.update_self,
      Function.update_idem, Function.update_of_ne hChild]
  · rw [if_neg hRead, if_neg (show ¬(inRegion1 vpn ∧ _) from hRead)]
    rfl

/-- No page is copied when no frame is free. -/
theorem copyPages_none (hWf : m.frames.Wf) (hFull : m.frames.freeCount = 0) (rest : List (Int × Prot)) :
    copyPages m child brkPage ((vpn, prot) :: rest) = .ok (destroyPt (m.setFrames m.frames.findFrame.1)
      (m.ctx child).region1Pt 0 (vpn - region1BaseVpn), false) := by
  obtain ⟨-, hNone, -⟩ | ⟨pfn, hFree, -⟩ := hWf.findFrame_cases
  · have hPair : m.frames.findFrame = (m.frames.findFrame.1, none) := Prod.ext rfl hNone
    have hAlloc : allocPage m brkPage .readWrite = (m.setFrames m.frames.findFrame.1, false) := by
      unfold allocPage
      rw [hPair]
    rw [copyPages, hAlloc]
    rfl
  · exact absurd (Frames.freeCount_eq_zero.mp hFull hFree.1) hFree.2

/-- What becomes of the copy of some pages. -/
inductive CopyResult (m : Memory) (child : Proc) (brkPage : Int) (pages : List (Int × Prot)) :
    Except Stop (Memory × Bool) → Prop where
  | copied {n : Memory} (hRoom : pages.length ≤ m.frames.freeCount)
      (hRead : ∀ page ∈ pages, Copyable m.region1Pt page.1) (hFrames : n.frames = m.frames.take pages.length) :
      CopyResult m child brkPage pages (.ok (n, true))
  | full {n : Memory} (hRoom : m.frames.freeCount < pages.length)
      (hRead : ∀ page ∈ pages.take m.frames.freeCount, Copyable m.region1Pt page.1)
      (hScratch : (m.region1Pt (brkPage - region1BaseVpn)).valid = false ∨ m.frames.freeCount ≠ 0 →
        ((n.ctx m.active).region1Pt (brkPage - region1BaseVpn)).valid = false) :
      CopyResult m child brkPage pages (.ok (n, false))
  | unread {stop : Stop} (hRead : ∃ page ∈ pages.take m.frames.freeCount, ¬Copyable m.region1Pt page.1) :
      CopyResult m child brkPage pages (.error stop)

theorem copyable_handOver {frames : Frames} {pfn : Nat} {page : Int} (hChild : child ≠ m.active)
    (hOther : page ≠ brkPage) :
    Copyable (handOver m child brkPage vpn prot frames pfn).region1Pt page ↔ Copyable m.region1Pt page := by
  have hEntry : (handOver m child brkPage vpn prot frames pfn).region1Pt (page - region1BaseVpn) =
      m.region1Pt (page - region1BaseVpn) := by
    rw [handOver_region1Pt hChild, Function.update_of_ne (by omega)]
  unfold Copyable
  rw [hEntry]

/-- The loop takes one frame a page, in order, and stops at the first page that
cannot be read or for which there is none. -/
theorem copyPages_result (hWf : m.frames.Wf) (hBrk : inRegion1 brkPage) (hChild : child ≠ m.active)
    {pages : List (Int × Prot)} (hOther : ∀ page ∈ pages, page.1 ≠ brkPage) :
    CopyResult m child brkPage pages (copyPages m child brkPage pages) := by
  induction pages generalizing m with
  | nil => exact .copied (Nat.zero_le _) (by simp) rfl
  | cons page rest ih =>
      obtain ⟨vpn, prot⟩ := page
      have hNotBrk : vpn ≠ brkPage := hOther (vpn, prot) List.mem_cons_self
      have hRest (page : Int × Prot) (hPage : page ∈ rest) : page.1 ≠ brkPage :=
        hOther page (List.mem_cons_of_mem _ hPage)
      obtain ⟨hFull, hNone, -⟩ | ⟨pfn, hFree, hFound, hCount⟩ := hWf.findFrame_cases
      · rw [copyPages_none hWf hFull]
        refine .full (by simp [hFull]) (by simp [hFull]) fun hScratch => ?_
        obtain ⟨frames, hFreed, -⟩ := destroyPt_spec (m.setFrames m.frames.findFrame.1) (m.ctx child).region1Pt 0
          (vpn - region1BaseVpn)
        rw [hFreed]
        exact hScratch.resolve_right fun hSome => hSome hFull
      · rw [copyPages_found hBrk hChild hNotBrk hFound]
        split_ifs with hRead
        · generalize hNext : handOver m child brkPage vpn prot m.frames.findFrame.1 pfn = next
          have hFrames : next.frames = m.frames.findFrame.1 := by rw [← hNext]; rfl
          have hActive : next.active = m.active := by rw [← hNext]; rfl
          rw [← hFrames] at hCount
          have hSame (page : Int × Prot) (hPage : page ∈ rest) :
              Copyable next.region1Pt page.1 ↔ Copyable m.region1Pt page.1 := by
            rw [← hNext]
            exact copyable_handOver hChild (hRest page hPage)
          have hTake : ((vpn, prot) :: rest).take m.frames.freeCount =
              (vpn, prot) :: rest.take next.frames.freeCount := by
            rw [← hCount, List.take_succ_cons]
          have hLeft := ih (m := next) (hFrames ▸ hWf.findFrame) (hActive ▸ hChild) hRest
          generalize copyPages next child brkPage rest = result at hLeft
          cases hLeft with
          | copied hRoom hAll hTaken =>
              refine .copied (by rw [List.length_cons]; omega) ?_ ?_
              · rw [List.forall_mem_cons]
                exact ⟨hRead, fun page hPage => (hSame page hPage).mp (hAll page hPage)⟩
              · rw [hTaken, hFrames]
                rfl
          | full hRoom hAll hScratch =>
              refine .full (by rw [List.length_cons]; omega) ?_ fun _ => ?_
              · rw [hTake, List.forall_mem_cons]
                exact ⟨hRead, fun page hPage => (hSame page (List.mem_of_mem_take hPage)).mp (hAll page hPage)⟩
              · rw [← hActive]
                refine hScratch (Or.inl ?_)
                rw [← hNext, handOver_region1Pt hChild, Function.update_self]
          | unread hSome =>
              obtain ⟨page, hPage, hUnread⟩ := hSome
              refine .unread ⟨page, ?_, fun hOld => hUnread ?_⟩
              · rw [hTake]
                exact List.mem_cons_of_mem _ hPage
              · exact (hSame page (List.mem_of_mem_take hPage)).mpr hOld
        · refine .unread ⟨(vpn, prot), ?_, hRead⟩
          rw [← hCount, List.take_succ_cons]
          exact List.mem_cons_self

/-- `UCCopy` with a stack above the break. -/
theorem ucCopy_above (hBelow : (m.ctx m.active).currBrkPage < pageNumber (downToPage sp)) :
    ucCopy m sp child =
      (copyPages m child (m.ctx m.active).currBrkPage (copiedPages (m.ctx m.active) sp)).bind fun copied =>
        if copied.2 then
          .ok ({ copied.1 with
            ctx := Function.update copied.1.ctx child
              { m.ctx m.active with region1Pt := (copied.1.ctx child).region1Pt } }, true)
        else .ok copied := by
  unfold ucCopy
  exact if_neg (by omega)

/-- With the break outside region 1 no page can be copied. -/
theorem copyPages_stuck (hWf : m.frames.Wf) (hFresh : ∀ i, ((m.ctx child).region1Pt i).valid = false)
    (hBrk : ¬inRegion1 brkPage) {pages : List (Int × Prot)} (hPages : pages ≠ []) :
    ∃ n, copyPages m child brkPage pages = .ok (n, false) ∧ (GivenBack m n ↔ m.frames.freeCount = 0) := by
  obtain ⟨frames, hCopy, hFrames⟩ := copyPages_outside hWf hBrk hFresh hPages
  refine ⟨_, hCopy, ?_⟩
  obtain ⟨hFull, hSame⟩ | ⟨pfn, hFree, hMarked⟩ := hFrames
  · exact iff_of_true ⟨hSame, rfl⟩ hFull
  · refine iff_of_false (fun hBack => ?_) fun hFull => hFree.2 (Frames.freeCount_eq_zero.mp hFull hFree.1)
    have hSame : frames.inUse = m.frames.inUse := hBack.inUse
    rw [hMarked] at hSame
    exact hFree.2 (hSame ▸ Set.mem_insert pfn _)

/-- When no frame is free the copy of the first page gives up at once. -/
theorem givenBack_none (hWf : m.frames.Wf) (hFull : m.frames.freeCount = 0)
    (hFresh : ∀ i, ((m.ctx child).region1Pt i).valid = false) (rest : List (Int × Prot)) :
    ∃ n, copyPages m child brkPage ((vpn, prot) :: rest) = .ok (n, false) ∧ GivenBack m n := by
  refine ⟨_, copyPages_none hWf hFull rest, ?_⟩
  obtain ⟨frames, hFreed, hUsed, -⟩ := destroyPt_spec (m.setFrames m.frames.findFrame.1) (m.ctx child).region1Pt 0
    (vpn - region1BaseVpn)
  rw [hFreed]
  refine ⟨?_, rfl⟩
  have hNone : heldFrames (m.ctx child).region1Pt 0 (vpn - region1BaseVpn) = ∅ := by
    ext pfn
    simp only [heldFrames, hFresh, Bool.false_eq_true, false_and, and_false, exists_false, Set.mem_ofPred_eq,
      Set.mem_empty_iff_false]
  show frames.inUse = m.frames.inUse
  rw [hUsed, hNone, Set.sdiff_empty]
  obtain ⟨-, -, hSame⟩ | ⟨pfn, hFree, -⟩ := hWf.findFrame_cases
  · exact hSame
  · exact absurd (Frames.freeCount_eq_zero.mp hFull hFree.1) hFree.2

/-- The pages that are refused without a trace. -/
theorem copyPages_refused_iff (hWf : m.frames.Wf) (hChild : child ≠ m.active)
    (hFresh : ∀ i, ((m.ctx child).region1Pt i).valid = false) {pages : List (Int × Prot)}
    (hSorted : pages.Pairwise (·.1 < ·.1)) (hOther : ∀ page ∈ pages, page.1 ≠ brkPage) :
    (∃ n, copyPages m child brkPage pages = .ok (n, false) ∧ GivenBack m n) ↔
      m.frames.freeCount < pages.length ∧ (m.frames.freeCount = 0 ∨ inRegion1 brkPage ∧
        (m.region1Pt (brkPage - region1BaseVpn)).valid = false ∧
        ∀ page ∈ pages.take m.frames.freeCount, Copyable m.region1Pt page.1) := by
  by_cases hPages : pages = []
  · subst hPages
    simp [copyPages]
  by_cases hFull : m.frames.freeCount = 0
  · obtain ⟨⟨vpn, prot⟩, rest, rfl⟩ := List.exists_cons_of_ne_nil hPages
    refine iff_of_true (givenBack_none hWf hFull hFresh rest) ⟨?_, Or.inl hFull⟩
    rw [hFull, List.length_cons]
    exact Nat.succ_pos _
  rw [or_iff_right hFull]
  by_cases hBrk : inRegion1 brkPage
  · have hResult := copyPages_result hWf hBrk hChild hOther
    have hRun (hScratch : (m.region1Pt (brkPage - region1BaseVpn)).valid = false) :=
      copyPages_run hChild hBrk hFresh hScratch _ [] (hSorted.imp fun hLess => hLess.ne) hOther (.nil hWf hScratch)
    generalize copyPages m child brkPage pages = result at hResult hRun
    cases hResult with
    | copied hRoom hRead hFrames =>
        apply iff_of_false
        · rintro ⟨n, hCopy, -⟩
          cases (Prod.mk.inj (Except.ok.inj hCopy)).2
        · intro h
          exact absurd h.1 (by omega)
    | unread hSome =>
        obtain ⟨page, hPage, hUnread⟩ := hSome
        apply iff_of_false
        · rintro ⟨n, hCopy, -⟩
          cases hCopy
        · intro h
          exact hUnread (h.2.2.2 page hPage)
    | @full n hRoom hRead hScratch =>
        constructor
        · rintro ⟨n', hCopy, hBack⟩
          obtain rfl := (Prod.mk.inj (Except.ok.inj hCopy)).1
          refine ⟨hRoom, hBrk, ?_, hRead⟩
          -- a page mapped at the break would have been lost
          have hNone := mappings_invalid (hScratch (Or.inr hFull))
          rw [hBack.mappings] at hNone
          by_contra hValid
          rw [mappings, if_pos (Bool.eq_true_of_not_eq_false hValid)] at hNone
          cases hNone
        · rintro ⟨-, -, hUnmapped, -⟩
          have hLeft := hRun hUnmapped
          rw [List.nil_append] at hLeft
          cases hLeft with
          | refused hBack => exact ⟨n, rfl, hBack hSorted⟩
  · obtain ⟨n, hCopy, hBack⟩ := copyPages_stuck hWf hFresh hBrk hPages
    apply iff_of_false ?_ fun h => hBrk h.2.1
    rintro ⟨n', hSame, hKept⟩
    rw [hCopy] at hSame
    obtain rfl := (Prod.mk.inj (Except.ok.inj hSame)).1
    exact hFull (hBack.mp hKept)

/-- Exactly these copies are refused without a trace. -/
theorem ucCopy_refused_iff (hWf : m.frames.Wf) (hChild : child ≠ m.active)
    (hFresh : ∀ i, ((m.ctx child).region1Pt i).valid = false)
    (hData : (m.ctx m.active).dataStartPage ≤ (m.ctx m.active).currBrkPage) :
    (∃ n, ucCopy m sp child = .ok (n, false) ∧ GivenBack m n) ↔
      CopyRefused (m.ctx m.active) m.frames.freeCount sp := by
  unfold CopyRefused
  by_cases hBelow : pageNumber (downToPage sp) ≤ (m.ctx m.active).currBrkPage
  · refine iff_of_true ⟨m, ?_, rfl, rfl⟩ (Or.inl hBelow)
    unfold ucCopy
    exact if_pos hBelow
  have hAbove := not_le.mp hBelow
  rw [or_iff_right hBelow]
  refine Iff.trans (exists_congr fun n => and_congr_left fun _ => ?_)
    (copyPages_refused_iff hWf hChild hFresh (sorted_copiedPages hData hAbove) (scratch_not_copied hData hAbove))
  rw [ucCopy_above hAbove]
  cases copyPages m child (m.ctx m.active).currBrkPage (copiedPages (m.ctx m.active) sp) with
  | error stop => simp [Except.bind]
  | ok copied =>
      obtain ⟨copied, ok⟩ := copied
      cases ok <;> simp [Except.bind]

/-- A copy that succeeds had room, and takes one frame a page. -/
theorem ucCopy_copied (hWf : m.frames.Wf) (hChild : child ≠ m.active)
    (hFresh : ∀ i, ((m.ctx child).region1Pt i).valid = false)
    (hData : (m.ctx m.active).dataStartPage ≤ (m.ctx m.active).currBrkPage)
    (hCopy : ucCopy m sp child = .ok (n, true)) :
    CopyFits (m.ctx m.active) m.frames.freeCount sp ∧
      n.frames = m.frames.take (copiedPages (m.ctx m.active) sp).length := by
  by_cases hBelow : pageNumber (downToPage sp) ≤ (m.ctx m.active).currBrkPage
  · unfold ucCopy at hCopy
    rw [if_pos hBelow] at hCopy
    cases (Prod.mk.inj (Except.ok.inj hCopy)).2
  have hAbove := not_le.mp hBelow
  have hOther := scratch_not_copied hData hAbove
  rw [ucCopy_above hAbove] at hCopy
  obtain ⟨⟨copied, ok⟩, hLoop, hCopy⟩ := bind_eq_ok.mp hCopy
  cases ok with
  | false => cases (Prod.mk.inj (Except.ok.inj hCopy)).2
  | true =>
      obtain rfl := (Prod.mk.inj (Except.ok.inj hCopy)).1
      by_cases hPages : copiedPages (m.ctx m.active) sp = []
      · rw [hPages] at hLoop ⊢
        obtain rfl := (Prod.mk.inj (Except.ok.inj hLoop)).1
        exact ⟨⟨hAbove, Or.inl hPages, by simp [hPages], by simp [hPages]⟩, rfl⟩
      · by_cases hBrk : inRegion1 (m.ctx m.active).currBrkPage
        · have hResult := copyPages_result hWf hBrk hChild hOther
          rw [hLoop] at hResult
          cases hResult with
          | copied hRoom hRead hFrames => exact ⟨⟨hAbove, Or.inr hBrk, hRoom, hRead⟩, hFrames⟩
        · obtain ⟨stuck, hStuck, -⟩ := copyPages_stuck hWf hFresh hBrk hPages
          rw [hStuck] at hLoop
          cases (Prod.mk.inj (Except.ok.inj hLoop)).2

/-- With room for all pages the copy succeeds. -/
theorem CopyFits.copied (h : CopyFits (m.ctx m.active) m.frames.freeCount sp) (hWf : m.frames.Wf)
    (hChild : child ≠ m.active) (hData : (m.ctx m.active).dataStartPage ≤ (m.ctx m.active).currBrkPage) :
    ∃ n, ucCopy m sp child = .ok (n, true) := by
  rw [ucCopy_above h.below]
  have hLoop : ∃ copied, copyPages m child (m.ctx m.active).currBrkPage (copiedPages (m.ctx m.active) sp) =
      .ok (copied, true) := by
    rcases h.scratch with hNone | hBrk
    · rw [hNone]
      exact ⟨m, rfl⟩
    · have hResult := copyPages_result hWf hBrk hChild (scratch_not_copied hData h.below)
      have hRoom := h.room
      generalize copyPages m child (m.ctx m.active).currBrkPage (copiedPages (m.ctx m.active) sp) = result at hResult
      cases hResult with
      | @copied n => exact ⟨n, rfl⟩
      | full hFull => omega
      | unread hSome =>
          obtain ⟨page, hPage, hUnread⟩ := hSome
          exact absurd (h.copyable page (List.mem_of_mem_take hPage)) hUnread
  obtain ⟨copied, hLoop⟩ := hLoop
  rw [hLoop]
  exact ⟨_, rfl⟩

end

end UserMemory

namespace KernelMemory

variable [Hardware] {m n : Memory} {child : Proc}

/-- What a change of the kernel break reads. -/
def heapView (m : Memory) : Mapping × Int × Bool := (m.kernelMapping, m.currentBrkPage, m.vmEnabled)

/-- A change of the kernel break depends on nothing else. -/
theorem heapView_setKernelBrk (hSame : heapView n = heapView m) (addr : Word) :
    heapView (setKernelBrk n addr).1 = heapView (setKernelBrk m addr).1 ∧
      (setKernelBrk n addr).2 = (setKernelBrk m addr).2 := by
  obtain ⟨hMapping, hRest⟩ := Prod.mk.inj hSame
  obtain ⟨hBrk, hEnabled⟩ := Prod.mk.inj hRest
  unfold setKernelBrk
  dsimp only
  rw [hBrk, hEnabled]
  generalize pageNumber (upToPage addr) = page
  split_ifs with hRange hOff hGrow
  · exact ⟨hSame, rfl⟩
  · exact ⟨congrArg (fun x => (x, page, m.vmEnabled)) hMapping |>.trans (by rw [← hEnabled]; rfl), rfl⟩
  · rw [allocPages_eq, allocPages_eq, hMapping]
    generalize Mapping.allocAll region0Vpns m.kernelMapping m.currentBrkPage .readWrite
      (pageRange m.currentBrkPage page) = result
    obtain ⟨x, ok⟩ := result
    cases ok with
    | false => exact ⟨congrArg₂ (fun brk enabled => (x, brk, enabled)) hBrk hEnabled, rfl⟩
    | true => exact ⟨congrArg (fun enabled => (x, page, enabled)) hEnabled, rfl⟩
  · rw [undoAllocation_eq, undoAllocation_eq, hMapping]
    exact ⟨congrArg (fun enabled => (_, page, enabled)) hEnabled, rfl⟩

/-- What a change of the kernel break relies on. -/
structure Movable (m : Memory) : Prop where
  enabled : m.vmEnabled = true
  wf : m.frames.Wf
  bounds : m.HeapBounds

theorem Movable.setKernelBrk (h : Movable m) (addr : Word) : Movable (setKernelBrk m addr).1 := by
  obtain ⟨frames, table, page, hEq⟩ := setKernelBrk_eq m addr
  have hCases := break_cases h.enabled h.wf h.bounds addr
  refine ⟨?_, ?_, heapBounds_setKernelBrk h.bounds addr⟩
  · rw [hEq]
    exact h.enabled
  · generalize KernelMemory.setKernelBrk m addr = result at hCases
    cases hCases with
    | refused => exact h.wf
    | failed _ _ _ hRestored => exact hRestored.wf
    | grown _ _ hFilled => exact hFilled.wf
    | shrunk _ _ _ hCleared => exact hCleared.wf

/-- There is room for a kernel stack between the break and the stack in use, and
there are frames for it. -/
def RoomForStack (m : Memory) : Prop :=
  m.currentBrkPage + kStackVpns < stackBase - 2 ∧ kStackVpns ≤ m.frames.freeCount

theorem roomForStack_congr (hSame : heapView n = heapView m) : RoomForStack n ↔ RoomForStack m := by
  obtain ⟨hMapping, hRest⟩ := Prod.mk.inj hSame
  have hFrames : n.frames = m.frames := congrArg Mapping.frames hMapping
  unfold RoomForStack
  rw [hFrames, (Prod.mk.inj hRest).1]

/-- `KCCopy` succeeds exactly when there is room. -/
theorem kcCopy_ok_iff (h : Movable m) (hSome : 0 < kStackVpns) (child : Proc) :
    (kcCopy m child).2 = true ↔ RoomForStack m := by
  have hLower := h.bounds.lower
  have hUpper := h.bounds.upper
  have hLimit : stackBase + kStackVpns ≤ region0Vpns := by
    have := stack_le_region0
    unfold stackBase
    omega
  have hPage : pageNumber (upToPage (BitVec.ofInt 32 ((m.currentBrkPage + kStackVpns) * pageSize))) =
      m.currentBrkPage + kStackVpns := pageNumber_boundary (by omega) (by omega) (by omega)
  have hOk : (kcCopy m child).2 =
      (KernelMemory.setKernelBrk m (BitVec.ofInt 32 ((m.currentBrkPage + kStackVpns) * pageSize))).2 := by
    unfold kcCopy
    dsimp only
    split
    · rename_i next hFail
      rw [hFail]
    · rename_i next hDone
      rw [hDone]
  have hAttempt : Mapping.Attempt region0Vpns .readWrite m.currentBrkPage (m.currentBrkPage + kStackVpns)
      m.kernelMapping _ := Mapping.attempt h.wf (by omega) .readWrite
  have hFrames : m.kernelMapping.frames = m.frames := rfl
  rw [hOk]
  unfold KernelMemory.setKernelBrk RoomForStack
  dsimp only
  rw [hPage, if_neg (show ¬m.vmEnabled = false by simp [h.enabled]),
    if_pos (show m.currentBrkPage < m.currentBrkPage + kStackVpns by omega), allocPages_eq]
  generalize Mapping.allocAll region0Vpns m.kernelMapping m.currentBrkPage .readWrite
    (pageRange m.currentBrkPage (m.currentBrkPage + kStackVpns)) = result at hAttempt
  split_ifs with hRange
  · exact iff_of_false (by simp) fun hRoom => absurd hRoom.1 (by omega)
  · rw [and_iff_right (by omega)]
    cases hAttempt with
    | done hIn hFilled =>
        have hCount := hFilled.count
        rw [hFrames] at hCount
        exact iff_of_true rfl (by omega)
    | full hLow hHigh hIn hCount hRestored =>
        rw [hFrames] at hCount
        exact iff_of_false (by simp) (by omega)
    | lost hLow hHigh hIn hOut hCount hFree hRestored => exact absurd ⟨by omega, by omega⟩ hOut

/-- All entries of the stack table of the child are valid after a copy that
succeeds, and none is written by one that fails. -/
theorem kcCopy_entries (h : Movable m) (child : Proc) :
    ((kcCopy m child).2 = true → ∀ i : Int, 0 ≤ i → i < kStackVpns → ((kcCopy m child).1.ksPt child i).valid = true) ∧
      ((kcCopy m child).2 = false → (kcCopy m child).1.ksPt = m.ksPt) := by
  have hLower := h.bounds.lower
  have hLimit : stackBase ≤ region0Vpns := by
    have := stack_le_region0
    unfold stackBase
    omega
  have hBelow := borrowed_le h.bounds
  obtain ⟨frames, table, page, hEq⟩ :=
    setKernelBrk_eq m (BitVec.ofInt 32 ((m.currentBrkPage + kStackVpns) * pageSize))
  unfold kcCopy
  dsimp only
  split
  · rename_i next hFail
    rw [hFail] at hEq
    have hNext : next = { m with frames := frames, region0Pt := table, currentBrkPage := page } := hEq
    refine ⟨fun hOk => absurd hOk (by simp), fun _ => ?_⟩
    rw [hNext]
  · rename_i next hDone
    rw [hDone] at hBelow
    refine ⟨fun _ i hFirst hLast => ?_, fun hOk => absurd hOk (by simp)⟩
    have hRoom := hBelow rfl
    rw [handStack_eq _ rfl (by omega) le_rfl (by omega)]
    dsimp only
    rw [Function.update_self, if_pos ⟨by omega, by omega⟩]

end KernelMemory
end Yalnix
