import Yalnix.Memory.Installed
import Yalnix.Memory.Mapping
import Yalnix.Sample

/-! Changes of the kernel break and copies of the kernel stack: both happen
completely, or leave the page table, the break and the frames as they were. -/
namespace Yalnix.KernelMemory

open Hardware

section

variable [Hardware]

/-- What one change of the kernel break or one copy of the kernel stack relies
on: the heap is mapped up to the break, to frames of its own, nothing is mapped
between the break and the kernel stack, and the frames of the stack are taken. -/
structure Settled (m : Memory) : Prop where
  enabled : m.vmEnabled = true
  wf : m.frames.Wf
  bounds : m.HeapBounds
  mapped : ∀ vpn : Int, origKernelBrkPage ≤ vpn → vpn < m.currentBrkPage →
    (m.region0Pt vpn).valid = true ∧ (m.region0Pt vpn).pfn ∈ m.frames.inUse
  apart : ∀ vpn other : Int, origKernelBrkPage ≤ vpn → vpn < other → other < m.currentBrkPage →
    (m.region0Pt vpn).pfn ≠ (m.region0Pt other).pfn
  unmapped : ∀ vpn, m.currentBrkPage ≤ vpn → vpn < stackBase → (m.region0Pt vpn).valid = false
  stack : ∀ vpn, stackBase ≤ vpn → vpn < stackLimit → (m.region0Pt vpn).pfn ∈ m.frames.inUse

/-- The mappings of region 0, the break and the frames in use are as before. -/
structure Unmoved (m m' : Memory) : Prop where
  mappings : mappings m'.region0Pt = mappings m.region0Pt
  brk : m'.currentBrkPage = m.currentBrkPage
  inUse : m'.frames.inUse = m.frames.inUse

/-- The break is at `page`, and exactly the pages below it are mapped. -/
structure Moved (m m' : Memory) (page : Int) : Prop where
  brk : m'.currentBrkPage = page
  mapped : ∀ vpn : Int, origKernelBrkPage ≤ vpn → vpn < page → (m'.region0Pt vpn).valid = true
  unmapped : ∀ vpn, page ≤ vpn → vpn < stackBase → (m'.region0Pt vpn).valid = false
  other : ∀ vpn : Int, vpn < origKernelBrkPage ∨ stackBase ≤ vpn ∨ vpn < page ∧ vpn < m.currentBrkPage →
    m'.region0Pt vpn = m.region0Pt vpn
  count : (m'.frames.inUse.ncard : Int) - m.frames.inUse.ncard = page - m.currentBrkPage

/-- The child has a copy of the kernel stack, in frames that were free. -/
structure Cloned (m m' : Memory) (child : Proc) : Prop where
  mappings : mappings m'.region0Pt = mappings m.region0Pt
  brk : m'.currentBrkPage = m.currentBrkPage
  entry : ∀ i : Int, 0 ≤ i → i < kStackVpns →
    (m'.ksPt child i).valid = true ∧ (m'.ksPt child i).pfn ∈ m.frames.range \ m.frames.inUse
  apart : ∀ i j : Int, 0 ≤ i → i < j → j < kStackVpns → (m'.ksPt child i).pfn ≠ (m'.ksPt child j).pfn
  inUse : m'.frames.inUse = m.frames.inUse ∪ heldFrames (m'.ksPt child) 0 kStackVpns
  contents : ∀ i : Int, 0 ≤ i → i < kStackVpns →
    m'.pmem (m'.ksPt child i).pfn = m.pmem (m.region0Pt (stackBase + i)).pfn
  other : ∀ pfn ∈ m.frames.inUse, m'.pmem pfn = m.pmem pfn

variable {m m' : Memory} {child : Proc}

/-- What `SetKernelBrk` does once the table is in use. -/
inductive Break (m : Memory) (page : Int) : Memory × Bool → Prop where
  | refused : Break m page (m, false)
  | failed {x : Mapping} {c : Int} (hLow : m.currentBrkPage ≤ c) (hHigh : c < page)
      (hPage : page < stackBase - 2)
      (hRestored : Mapping.Restored ∅ m.currentBrkPage c m.kernelMapping x) : Break m page (m.withKernel x, false)
  | grown {x : Mapping} (hLess : m.currentBrkPage < page) (hPage : page < stackBase - 2)
      (hFilled : Mapping.Filled .readWrite m.currentBrkPage page m.kernelMapping x) :
      Break m page ({ m.withKernel x with currentBrkPage := page }, true)
  | shrunk {x : Mapping} (hLow : origKernelBrkPage ≤ page) (hLe : page ≤ m.currentBrkPage)
      (hPage : page < stackBase - 2) (hCleared : Mapping.Cleared page m.currentBrkPage m.kernelMapping x) :
      Break m page ({ m.withKernel x with currentBrkPage := page }, true)

theorem break_cases (hEnabled : m.vmEnabled = true) (hWf : m.frames.Wf) (hBounds : m.HeapBounds) (addr : Word) :
    Break m (pageNumber (upToPage addr)) (setKernelBrk m addr) := by
  have hLower := hBounds.lower
  have hUpper := hBounds.upper
  have hStack : stackBase ≤ region0Vpns := by
    have := stack_le_region0
    unfold stackBase
    omega
  unfold setKernelBrk
  dsimp only
  generalize pageNumber (upToPage addr) = page
  split_ifs with hRange hOff hGrow
  · exact .refused
  · exact absurd hEnabled (by simp [hOff])
  · have hAttempt : Mapping.Attempt region0Vpns .readWrite m.currentBrkPage page m.kernelMapping _ :=
      Mapping.attempt hWf hGrow.le .readWrite
    rw [allocPages_eq]
    generalize Mapping.allocAll region0Vpns m.kernelMapping m.currentBrkPage .readWrite
      (pageRange m.currentBrkPage page) = result at hAttempt ⊢
    cases hAttempt with
    | done hIn hFilled => exact .grown hGrow (by omega) hFilled
    | full hLow hHigh hIn hCount hRestored => exact .failed hLow hHigh (by omega) hRestored
    | lost hLow hHigh hIn hOut hCount hFree hRestored => exact absurd ⟨by omega, by omega⟩ hOut
  · rw [undoAllocation_eq]
    refine .shrunk (by omega) (by omega) (by omega) (Mapping.cleared_undo hWf ?_ ?_ ?_)
    all_goals omega

namespace Settled

theorem invalid_above (h : Settled m) {page : Int} (hPage : page < stackBase) {vpn : Int}
    (hLow : m.currentBrkPage ≤ vpn) (hHigh : vpn < page) : (m.kernelMapping.table vpn).valid = false :=
  h.unmapped vpn hLow (hHigh.trans hPage)

theorem moved_grown (h : Settled m) {page : Int} {x : Mapping} (hLess : m.currentBrkPage < page)
    (hPage : page < stackBase - 2)
    (hFilled : Mapping.Filled .readWrite m.currentBrkPage page m.kernelMapping x) :
    Moved m { m.withKernel x with currentBrkPage := page } page := by
  have hLower := h.bounds.lower
  constructor
  · rfl
  · intro vpn hLow hHigh
    by_cases hOld : vpn < m.currentBrkPage
    · have hSame : x.table vpn = m.region0Pt vpn := hFilled.other vpn (by omega)
      exact (congrArg Pte.valid hSame).trans (h.mapped vpn hLow hOld).1
    · exact (hFilled.entry vpn (by omega) hHigh).1
  · intro vpn hLow hHigh
    have hSame : x.table vpn = m.region0Pt vpn := hFilled.other vpn (by omega)
    exact (congrArg Pte.valid hSame).trans (h.unmapped vpn (by omega) hHigh)
  · intro vpn hOut
    exact hFilled.other vpn (by omega)
  · have hCount : x.frames.inUse.ncard = m.frames.inUse.ncard + (page - m.currentBrkPage).toNat := hFilled.ncard
    show (x.frames.inUse.ncard : Int) - m.frames.inUse.ncard = page - m.currentBrkPage
    omega

theorem moved_shrunk (h : Settled m) {page : Int} {x : Mapping} (hLow : origKernelBrkPage ≤ page)
    (hLe : page ≤ m.currentBrkPage) (hCleared : Mapping.Cleared page m.currentBrkPage m.kernelMapping x) :
    Moved m { m.withKernel x with currentBrkPage := page } page := by
  have hUpper := h.bounds.upper
  constructor
  · rfl
  · intro vpn hFirst hHigh
    have hSame : x.table vpn = m.region0Pt vpn := hCleared.other vpn (by omega)
    exact (congrArg Pte.valid hSame).trans (h.mapped vpn hFirst (by omega)).1
  · intro vpn hFirst hHigh
    by_cases hOld : vpn < m.currentBrkPage
    · exact congrArg Pte.valid (hCleared.entry vpn hFirst hOld)
    · have hSame : x.table vpn = m.region0Pt vpn := hCleared.other vpn (by omega)
      exact (congrArg Pte.valid hSame).trans (h.unmapped vpn (by omega) hHigh)
  · intro vpn hOut
    exact hCleared.other vpn (by omega)
  · have hCount : x.frames.inUse.ncard + (m.currentBrkPage - page).toNat = m.frames.inUse.ncard := by
      refine hCleared.ncard (fun vpn hFirst hHigh => ?_) (fun vpn hFirst hHigh => ?_) ?_
      · exact (h.mapped vpn (by omega) hHigh).1
      · exact (h.mapped vpn (by omega) hHigh).2
      · exact fun vpn other hFirst hLess hHigh => h.apart vpn other (by omega) hLess hHigh
    show (x.frames.inUse.ncard : Int) - m.frames.inUse.ncard = page - m.currentBrkPage
    omega

theorem unmoved_failed (h : Settled m) {page c : Int} {x : Mapping} (hHigh : c < page) (hPage : page ≤ stackBase)
    (hRestored : Mapping.Restored ∅ m.currentBrkPage c m.kernelMapping x) : Unmoved m (m.withKernel x) where
  mappings := hRestored.mappings fun vpn hLow hLess => h.unmapped vpn hLow (by omega)
  brk := rfl
  inUse := hRestored.inUse.trans (Set.union_empty _)

end Settled

/-- The loop of `handStack` from page `c` on: the entries become invalid, and
their frames appear in the child's table. -/
theorem handStack_eq {first c last : Int} (n : Nat) (hn : (last - c).toNat = n) (hLow : 0 ≤ c) (hFirst : first ≤ c)
    (hLast : last ≤ region0Vpns) (child : Proc) (m : Memory) :
    handStack m child first (pageRange c last) =
      { m with
        region0Pt := fun vpn =>
          if c ≤ vpn ∧ vpn < last then { m.region0Pt vpn with valid := false } else m.region0Pt vpn
        ksPt := Function.update m.ksPt child fun i =>
          if c - first ≤ i ∧ i < last - first then ⟨true, .readWrite, (m.region0Pt (first + i)).pfn⟩
          else m.ksPt child i } := by
  induction n generalizing m c with
  | zero =>
      have hNone : pageRange c last = [] := by simp [pageRange, hn]
      have hPages (vpn : Int) : ¬(c ≤ vpn ∧ vpn < last) := by omega
      have hEntries (i : Int) : ¬(c - first ≤ i ∧ i < last - first) := by omega
      simp only [hNone, handStack, if_neg (hPages _), if_neg (hEntries _), Function.update_eq_self]
  | succ n ih =>
      have hIn : inRegion0 c := ⟨by omega, hLow⟩
      rw [pageRange_cons (by omega), handStack, ih (by omega) (by omega) (by omega)]
      simp only [unmapNoFree, if_pos hIn, destroyPte, Option.getD_some, Function.update_self, Function.update_idem]
      congr 1
      · funext vpn
        by_cases hHere : vpn = c
        · rw [if_neg (by omega), if_pos ⟨by omega, by omega⟩, hHere, Function.update_self]
        · rw [Function.update_of_ne hHere]
          exact if_congr (by omega) rfl rfl
      · congr 1
        funext i
        by_cases hHere : i = c - first
        · have hPage : first + (c - first) = c := by omega
          rw [if_neg (by omega), if_pos ⟨by omega, by omega⟩, hHere, Function.update_self, hPage]
        · rw [Function.update_of_ne hHere, Function.update_of_ne (by omega)]
          exact if_congr (by omega) rfl rfl

/-- Pages copied in order arrive as they were, when no target is a source. -/
theorem copyStack_spec {target n : Int} (hn : 0 ≤ n)
    (hApart : ∀ i j, 0 ≤ i → i < j → j < n → (m.region0Pt (target + i)).pfn ≠ (m.region0Pt (target + j)).pfn)
    (hSource : ∀ i j, 0 ≤ i → i < n → 0 ≤ j → j < n →
      (m.region0Pt (target + i)).pfn ≠ (m.region0Pt (stackBase + j)).pfn) :
    ∃ pmem : Nat → Nat → Byte,
      (pageRange 0 n).foldl (fun m i => { m with
        pmem := Function.update m.pmem (m.region0Pt (target + i)).pfn
          (m.pmem (m.region0Pt (stackBase + i)).pfn) }) m = { m with pmem := pmem } ∧
      (∀ i, 0 ≤ i → i < n → pmem (m.region0Pt (target + i)).pfn = m.pmem (m.region0Pt (stackBase + i)).pfn) ∧
      ∀ pfn, (∀ i, 0 ≤ i → i < n → (m.region0Pt (target + i)).pfn ≠ pfn) → pmem pfn = m.pmem pfn := by
  induction n, hn using Int.leInduction with
  | base => exact ⟨m.pmem, rfl, fun i hLow hHigh => absurd hHigh (by omega), fun _ _ => rfl⟩
  | succ n hn ih =>
      obtain ⟨pmem, hFold, hCopied, hOther⟩ := ih (fun i j hLow hLess hHigh => hApart i j hLow hLess (by omega))
        fun i j hi hin hj hjn => hSource i j hi (by omega) hj (by omega)
      refine ⟨Function.update pmem (m.region0Pt (target + n)).pfn (pmem (m.region0Pt (stackBase + n)).pfn),
        ?_, fun i hLow hHigh => ?_, fun pfn hNone => ?_⟩
      · rw [pageRange_snoc hn, List.foldl_append, hFold]
        rfl
      · by_cases hLast : i = n
        · have hUncopied : pmem (m.region0Pt (stackBase + n)).pfn = m.pmem (m.region0Pt (stackBase + n)).pfn :=
            hOther _ fun j hj hjn => hSource j n hj (by omega) hn (by omega)
          rw [hLast]
          exact (Function.update_self _ _ _).trans hUncopied
        · have hNe : (m.region0Pt (target + i)).pfn ≠ (m.region0Pt (target + n)).pfn :=
            hApart i n hLow (by omega) (by omega)
          exact (Function.update_of_ne hNe _ _).trans (hCopied i hLow (by omega))
      · have hNe : pfn ≠ (m.region0Pt (target + n)).pfn := (hNone n hn (by omega)).symm
        exact (Function.update_of_ne hNe _ _).trans (hOther pfn fun i hLow hHigh => hNone i hLow (by omega))

/-- The borrowed heap pages are filled from the stack and handed to the child. -/
theorem Settled.cloned (h : Settled m) {x : Mapping} (hBelow : m.currentBrkPage + kStackVpns ≤ stackBase)
    (hFilled : Mapping.Filled .readWrite m.currentBrkPage (m.currentBrkPage + kStackVpns) m.kernelMapping x)
    {next : Memory} (hNext : next = { m.withKernel x with currentBrkPage := m.currentBrkPage + kStackVpns })
    (child : Proc) :
    Cloned m { handStack (copyStack next m.currentBrkPage) child m.currentBrkPage
      (pageRange m.currentBrkPage (m.currentBrkPage + kStackVpns)) with currentBrkPage := m.currentBrkPage } child := by
  have hLower := h.bounds.lower
  have hLimit : stackBase + kStackVpns ≤ region0Vpns := by
    have := stack_le_region0
    unfold stackBase
    omega
  have hTable : next.region0Pt = x.table := by rw [hNext]; rfl
  have hStack (i : Int) (hLow : 0 ≤ i) : x.table (stackBase + i) = m.region0Pt (stackBase + i) :=
    hFilled.other _ (by omega)
  -- the frames of the new heap pages were free, those of the stack were not
  have hSource (i j : Int) (hi : 0 ≤ i) (hin : i < kStackVpns) (hj : 0 ≤ j) (hjn : j < kStackVpns) :
      (next.region0Pt (m.currentBrkPage + i)).pfn ≠ (next.region0Pt (stackBase + j)).pfn := by
    intro hSame
    have hFree := hFilled.fresh (m.currentBrkPage + i) (by omega) (by omega)
    have hUsed := h.stack (stackBase + j) (by omega) (show stackBase + j < stackBase + kStackVpns by omega)
    rw [hTable, hStack j hj] at hSame
    rw [hSame] at hFree
    exact hFree.2 hUsed
  have hApart (i j : Int) (hLow : 0 ≤ i) (hLess : i < j) (hHigh : j < kStackVpns) :
      (next.region0Pt (m.currentBrkPage + i)).pfn ≠ (next.region0Pt (m.currentBrkPage + j)).pfn := by
    rw [hTable]
    exact hFilled.apart _ _ (by omega) (by omega) (by omega)
  obtain ⟨pmem, hCopy, hContents, hOther⟩ := copyStack_spec (Int.natCast_nonneg kStackVpns) hApart hSource
  rw [copyStack, hCopy, handStack_eq _ rfl (by omega) le_rfl (by omega)]
  have hEntry (i : Int) (hLow : 0 ≤ i) (hHigh : i < kStackVpns) :
      Function.update next.ksPt child (fun i =>
        if m.currentBrkPage - m.currentBrkPage ≤ i ∧ i < m.currentBrkPage + kStackVpns - m.currentBrkPage then
          ⟨true, .readWrite, (next.region0Pt (m.currentBrkPage + i)).pfn⟩
        else next.ksPt child i) child i = ⟨true, .readWrite, (x.table (m.currentBrkPage + i)).pfn⟩ := by
    rw [Function.update_self, if_pos ⟨by omega, by omega⟩, hTable]
  constructor
  · funext vpn
    dsimp only
    by_cases hIn : m.currentBrkPage ≤ vpn ∧ vpn < m.currentBrkPage + kStackVpns
    · rw [mappings_invalid (h.unmapped vpn hIn.1 (by omega)), mappings_invalid]
      rw [if_pos hIn]
    · refine mappings_congr ?_
      rw [if_neg hIn, hTable]
      exact hFilled.other vpn hIn
  · rfl
  · intro i hLow hHigh
    dsimp only
    rw [hEntry i hLow hHigh]
    exact ⟨rfl, hFilled.fresh _ (by omega) (by omega)⟩
  · intro i j hLow hLess hHigh
    dsimp only
    rw [hEntry i hLow (by omega), hEntry j (by omega) hHigh]
    exact hFilled.apart _ _ (by omega) (by omega) (by omega)
  · have hFrames : next.frames = x.frames := by rw [hNext]; rfl
    have hSame : x.frames.inUse = m.frames.inUse ∪ _ := hFilled.inUse
    dsimp only
    rw [hFrames, hSame]
    congr 1
    ext pfn
    simp only [heldFrames, Set.mem_ofPred_eq]
    constructor
    · rintro ⟨vpn, hLow, hHigh, hPfn⟩
      have hPage : m.currentBrkPage + (vpn - m.currentBrkPage) = vpn := by omega
      refine ⟨vpn - m.currentBrkPage, by omega, by omega, ?_⟩
      rw [hEntry _ (by omega) (by omega), hPage]
      exact ⟨rfl, hPfn⟩
    · rintro ⟨i, hLow, hHigh, -, hPfn⟩
      rw [hEntry i hLow hHigh] at hPfn
      exact ⟨m.currentBrkPage + i, by omega, by omega, hPfn⟩
  · intro i hLow hHigh
    have hPmem : next.pmem = m.pmem := by rw [hNext]; rfl
    have hCopied := hContents i hLow hHigh
    dsimp only
    rw [hEntry i hLow hHigh]
    rw [hTable, hStack i hLow, hPmem] at hCopied
    exact hCopied
  · intro pfn hUsed
    have hPmem : next.pmem = m.pmem := by rw [hNext]; rfl
    rw [← hPmem]
    refine hOther pfn fun i hLow hHigh hSame => ?_
    have hFree := hFilled.fresh (m.currentBrkPage + i) (by omega) (by omega)
    rw [hTable] at hSame
    rw [hSame] at hFree
    exact hFree.2 hUsed

/-- The call of `SetKernelBrk` in `KCCopy` asks for whole pages. -/
theorem break_borrow (hEnabled : m.vmEnabled = true) (hWf : m.frames.Wf) (hBounds : m.HeapBounds) :
    Break m (m.currentBrkPage + kStackVpns)
      (setKernelBrk m (BitVec.ofInt 32 ((m.currentBrkPage + kStackVpns) * pageSize))) := by
  have hCases := break_cases hEnabled hWf hBounds (BitVec.ofInt 32 ((m.currentBrkPage + kStackVpns) * pageSize))
  have hLower := hBounds.lower
  have hUpper := hBounds.upper
  have hLimit : stackBase + kStackVpns ≤ region0Vpns := by
    have := stack_le_region0
    unfold stackBase
    omega
  by_cases hPages : 0 < region0Vpns + region1Vpns
  · rwa [pageNumber_boundary hPages (by omega) (by omega)] at hCases
  · generalize setKernelBrk m _ = result at hCases
    cases hCases with
    | refused => exact .refused
    | failed hLow hHigh hPage hRestored => omega
    | grown hLess hPage hFilled => omega
    | shrunk hLow hLe hPage hCleared => omega

/-- The copy of the stack writes to the frames of its targets only. -/
theorem copyStack_eq (m : Memory) (target : Int) : ∃ pmem, copyStack m target = { m with pmem := pmem } ∧
    ∀ pfn, (∀ i : Int, 0 ≤ i → i < kStackVpns → (m.region0Pt (target + i)).pfn ≠ pfn) → pmem pfn = m.pmem pfn := by
  have hLoop (pages : List Int) (m : Memory) : ∃ pmem, pages.foldl (fun m i => { m with
      pmem := Function.update m.pmem (m.region0Pt (target + i)).pfn (m.pmem (m.region0Pt (stackBase + i)).pfn) }) m =
        { m with pmem := pmem } ∧
      ∀ pfn, (∀ i ∈ pages, (m.region0Pt (target + i)).pfn ≠ pfn) → pmem pfn = m.pmem pfn := by
    induction pages generalizing m with
    | nil => exact ⟨m.pmem, rfl, fun _ _ => rfl⟩
    | cons i rest ih =>
        obtain ⟨pmem, hEq, hOther⟩ := ih { m with
          pmem := Function.update m.pmem (m.region0Pt (target + i)).pfn (m.pmem (m.region0Pt (stackBase + i)).pfn) }
        refine ⟨pmem, by rw [List.foldl_cons, hEq], fun pfn hNone => ?_⟩
        rw [hOther pfn fun j hj => hNone j (List.mem_cons_of_mem _ hj)]
        exact Function.update_of_ne (hNone i List.mem_cons_self).symm _ _
  obtain ⟨pmem, hEq, hOther⟩ := hLoop (pageRange 0 kStackVpns) m
  refine ⟨pmem, hEq, fun pfn hNone => hOther pfn fun i hi => ?_⟩
  obtain ⟨hLow, hHigh⟩ := mem_pageRange.mp hi
  exact hNone i hLow hHigh

/-- The pages that the heap `x` has above the break have become the stack of the child. -/
def withStack (m : Memory) (x : Mapping) (child : Proc) (pmem : Nat → Nat → Byte) : Memory :=
  { m with
    frames := x.frames
    region0Pt := fun vpn =>
      if m.currentBrkPage ≤ vpn ∧ vpn < m.currentBrkPage + kStackVpns then { x.table vpn with valid := false }
      else x.table vpn
    ksPt := Function.update m.ksPt child fun i =>
      if 0 ≤ i ∧ i < kStackVpns then ⟨true, .readWrite, (x.table (m.currentBrkPage + i)).pfn⟩
      else m.ksPt child i
    pmem := pmem }

/-- The outcomes of `KCCopy`: the break cannot be moved, or the new pages are filled and
become the stack of the child. -/
inductive Clone (m : Memory) (child : Proc) : Memory × Bool → Prop where
  | failed {n : Memory} (h : Break m (m.currentBrkPage + kStackVpns) (n, false)) : Clone m child (n, false)
  | done {x : Mapping} {pmem : Nat → Nat → Byte} (hBelow : m.currentBrkPage + kStackVpns ≤ stackBase)
      (hFilled : Mapping.Filled .readWrite m.currentBrkPage (m.currentBrkPage + kStackVpns) m.kernelMapping x)
      (hOther : ∀ pfn, (∀ i : Int, 0 ≤ i → i < kStackVpns → (x.table (m.currentBrkPage + i)).pfn ≠ pfn) →
        pmem pfn = m.pmem pfn) :
      Clone m child (withStack m x child pmem, true)

theorem kcCopy_cases (hEnabled : m.vmEnabled = true) (hWf : m.frames.Wf) (hBounds : m.HeapBounds) (child : Proc) :
    Clone m child (kcCopy m child) := by
  have hLower := hBounds.lower
  have hRegion : stackBase ≤ region0Vpns := by
    have := stack_le_region0
    unfold stackBase
    omega
  have hHand {x : Mapping} (hBelow : m.currentBrkPage + kStackVpns ≤ stackBase)
      (hFilled : Mapping.Filled .readWrite m.currentBrkPage (m.currentBrkPage + kStackVpns) m.kernelMapping x)
      {next : Memory} (hNext : next = { m.withKernel x with currentBrkPage := m.currentBrkPage + kStackVpns }) :
      Clone m child ({ handStack (copyStack next m.currentBrkPage) child m.currentBrkPage
        (pageRange m.currentBrkPage (m.currentBrkPage + kStackVpns)) with
          currentBrkPage := m.currentBrkPage }, true) := by
    obtain ⟨pmem, hCopied, hOther⟩ := copyStack_eq next m.currentBrkPage
    rw [hCopied, handStack_eq _ rfl (by omega) le_rfl (by omega), sub_self, add_sub_cancel_left]
    subst hNext
    exact .done hBelow hFilled hOther
  have hBreak := break_borrow hEnabled hWf hBounds
  unfold kcCopy
  dsimp only
  generalize setKernelBrk m _ = result at hBreak
  cases hBreak with
  | refused => exact .failed .refused
  | failed hLow hHigh hPage hRestored => exact .failed (.failed hLow hHigh hPage hRestored)
  | grown hLess hPage hFilled => exact hHand (by omega) hFilled rfl
  | shrunk hLow hLe hPage hCleared =>
      have hNone : m.currentBrkPage + kStackVpns = m.currentBrkPage := by omega
      rw [hNone] at hCleared
      apply hHand (by omega) _ rfl
      rw [hNone]
      exact hCleared.filled

/-- A change of the kernel break and a copy of the kernel stack either happen
completely or change nothing. -/
theorem heap_atomic (h : Settled m) :
    (∀ addr : Word,
      ((setKernelBrk m addr).2 = false ∧ Unmoved m (setKernelBrk m addr).1) ∨
      ((setKernelBrk m addr).2 = true ∧ Moved m (setKernelBrk m addr).1 (pageNumber (upToPage addr)))) ∧
    ∀ child : Proc,
      ((kcCopy m child).2 = false ∧ Unmoved m (kcCopy m child).1) ∨
      ((kcCopy m child).2 = true ∧ Cloned m (kcCopy m child).1 child) := by
  constructor
  · intro addr
    have hCases := break_cases h.enabled h.wf h.bounds addr
    generalize setKernelBrk m addr = result at hCases
    cases hCases with
    | refused => exact Or.inl ⟨rfl, rfl, rfl, rfl⟩
    | failed hLow hHigh hPage hRestored => exact Or.inl ⟨rfl, h.unmoved_failed hHigh (by omega) hRestored⟩
    | grown hLess hPage hFilled => exact Or.inr ⟨rfl, h.moved_grown hLess hPage hFilled⟩
    | shrunk hLow hLe hPage hCleared => exact Or.inr ⟨rfl, h.moved_shrunk hLow hLe hCleared⟩
  · intro child
    have hCases := break_borrow h.enabled h.wf h.bounds
    unfold kcCopy
    dsimp only
    generalize setKernelBrk m _ = result at hCases
    cases hCases with
    | refused => exact Or.inl ⟨rfl, rfl, rfl, rfl⟩
    | failed hLow hHigh hPage hRestored => exact Or.inl ⟨rfl, h.unmoved_failed hHigh (by omega) hRestored⟩
    | grown hLess hPage hFilled => exact Or.inr ⟨rfl, h.cloned (by omega) hFilled rfl child⟩
    | shrunk hLow hLe hPage hCleared =>
        have hNone : m.currentBrkPage + kStackVpns = m.currentBrkPage := by omega
        rw [hNone] at hCleared
        refine Or.inr ⟨rfl, h.cloned (by omega) ?_ rfl child⟩
        rw [hNone]
        exact hCleared.filled

end

open Sample in
/-- Two more pages for a heap of two pages, and a copy of the stack. -/
theorem heap_atomic_two :
    Moved (setKernelBrk booted.mem 64).1 (setKernelBrk (setKernelBrk booted.mem 64).1 96).1 6 ∧
    Cloned (setKernelBrk booted.mem 64).1 (kcCopy (setKernelBrk booted.mem 64).1 9).1 9 := by
  have hSettled : Settled (setKernelBrk booted.mem 64).1 := by
    constructor
    · decide +kernel
    · exact ⟨by decide +kernel, by decide +kernel⟩
    · exact ⟨by decide +kernel, by decide +kernel⟩
    · simp only [Frames.inUse, Set.mem_ofPred_eq]
      decide +kernel
    · have hPages : ∀ vpn : Int, 2 ≤ vpn → vpn < 4 → ∀ other : Int, vpn + 1 ≤ other → other < 4 →
          ((setKernelBrk booted.mem 64).1.region0Pt vpn).pfn ≠
            ((setKernelBrk booted.mem 64).1.region0Pt other).pfn := by decide +kernel
      intro vpn other hLow hLess hHigh
      exact hPages vpn hLow (hLess.trans hHigh) other hLess hHigh
    · decide +kernel
    · simp only [Frames.inUse, Set.mem_ofPred_eq]
      decide +kernel
  obtain ⟨hBrk, hCopy⟩ := heap_atomic hSettled
  have hMoved := (hBrk 96).resolve_left fun h => absurd h.1 (by decide +kernel)
  have hCloned := (hCopy 9).resolve_left fun h => absurd h.1 (by decide +kernel)
  exact ⟨hMoved.2, hCloned.2⟩

end Yalnix.KernelMemory
