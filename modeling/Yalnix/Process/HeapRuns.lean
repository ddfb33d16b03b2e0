import Yalnix.Process.Custody

/-! The kernel heap over whole runs. The page table of region 0 is built while the
break still moves without it, so that the two agree from then on only if the moves
after that end on the page they started from. -/
namespace Yalnix

open Hardware KernelMemory UserMemory

section

variable [Hardware] {m m' : Memory}

/-- Region 0 maps kernel data and heap up to the break, and nothing from there to the
kernel stack. -/
structure Memory.HeapMapped (m : Memory) : Prop where
  mapped : ∀ vpn : Int, firstKernelDataPage ≤ vpn → vpn < m.currentBrkPage →
    (m.region0Pt vpn).valid = true ∧ (m.region0Pt vpn).prot = .readWrite
  unmapped : ∀ vpn, m.currentBrkPage ≤ vpn → vpn < stackBase → (m.region0Pt vpn).valid = false

/-- The pages of the heap are mapped, each to a frame that nobody else has. -/
structure Memory.HeapOwned (m : Memory) (who : Proc → Prop) : Prop extends m.HeapMapped where
  own : ∀ vpn : Int, firstKernelDataPage ≤ vpn → vpn < m.currentBrkPage →
    (m.region0Pt vpn).pfn ∈ m.frames.inUse ∧
      ∀ owner, m.Holds who owner (m.region0Pt vpn).pfn → owner = .heap vpn

namespace Memory.HeapMapped

theorem congr (h : m.HeapMapped) (hBrk : m'.currentBrkPage = m.currentBrkPage)
    (hTable : ∀ vpn, vpn < stackBase → m'.region0Pt vpn = m.region0Pt vpn) (hBounds : m.HeapBounds) :
    m'.HeapMapped where
  mapped vpn hLow hHigh := by
    rw [hBrk] at hHigh
    rw [hTable vpn (hHigh.trans_le hBounds.upper)]
    exact h.mapped vpn hLow hHigh
  unmapped vpn hLow hHigh := by
    rw [hBrk] at hLow
    rw [hTable vpn hHigh]
    exact h.unmapped vpn hLow hHigh

theorem of_kernelSide (h : m.HeapMapped) (hSame : m'.kernelSide = m.kernelSide) (hBounds : m.HeapBounds) :
    m'.HeapMapped :=
  h.congr (congrArg KernelSide.currentBrkPage hSame)
    (fun vpn _ => congrFun (congrArg KernelSide.region0Pt hSame) vpn) hBounds

theorem switch (h : m.HeapMapped) (next : Proc) (hBounds : m.HeapBounds) :
    (kcSwitch (ucSwitch m next) next).HeapMapped := by
  refine h.congr rfl (fun vpn hHigh => ?_) hBounds
  exact if_neg fun hIn => absurd hIn.1 (not_le.mpr hHigh)

theorem grown {page : Int} {x : Mapping} (h : m.HeapMapped) (hLess : m.currentBrkPage ≤ page)
    (hFilled : Mapping.Filled .readWrite m.currentBrkPage page m.kernelMapping x) :
    HeapMapped { m.withKernel x with currentBrkPage := page } where
  mapped vpn hLow hHigh := by
    have hHigh : vpn < page := hHigh
    show (x.table vpn).valid = true ∧ (x.table vpn).prot = .readWrite
    by_cases hOld : vpn < m.currentBrkPage
    · rw [hFilled.other vpn (by omega)]
      exact h.mapped vpn hLow hOld
    · exact hFilled.entry vpn (by omega) hHigh
  unmapped vpn hLow hHigh := by
    have hLow : page ≤ vpn := hLow
    show (x.table vpn).valid = false
    rw [hFilled.other vpn (by omega)]
    exact h.unmapped vpn (by omega) hHigh

theorem shrunk {page : Int} {x : Mapping} (h : m.HeapMapped) (hLe : page ≤ m.currentBrkPage)
    (hCleared : Mapping.Cleared page m.currentBrkPage m.kernelMapping x) :
    HeapMapped { m.withKernel x with currentBrkPage := page } where
  mapped vpn hLow hHigh := by
    have hHigh : vpn < page := hHigh
    show (x.table vpn).valid = true ∧ (x.table vpn).prot = .readWrite
    rw [hCleared.other vpn (by omega)]
    exact h.mapped vpn hLow (by omega)
  unmapped vpn hLow hHigh := by
    have hLow : page ≤ vpn := hLow
    show (x.table vpn).valid = false
    by_cases hOld : vpn < m.currentBrkPage
    · rw [hCleared.entry vpn hLow hOld]
    · rw [hCleared.other vpn (by omega)]
      exact h.unmapped vpn (by omega) hHigh

/-- Nothing is mapped above the break, so nothing is lost when a growth is undone. -/
theorem restored {c : Int} {x : Mapping} (h : m.HeapMapped)
    (hRestored : Mapping.Restored ∅ m.currentBrkPage c m.kernelMapping x) : (m.withKernel x).HeapMapped where
  mapped vpn hLow hLess := by
    have hLess : vpn < m.currentBrkPage := hLess
    show (x.table vpn).valid = true ∧ (x.table vpn).prot = .readWrite
    rw [hRestored.other vpn (by omega)]
    exact h.mapped vpn hLow hLess
  unmapped vpn hLow hLess := by
    have hLow : m.currentBrkPage ≤ vpn := hLow
    show (x.table vpn).valid = false
    by_cases hTried : vpn < c
    · exact hRestored.entry vpn hLow hTried
    · rw [hRestored.other vpn (by omega)]
      exact h.unmapped vpn hLow hLess

theorem moved (h : m.HeapMapped) {page : Int} {result : Memory × Bool}
    (hBreak : Break m page result) : result.1.HeapMapped := by
  cases hBreak with
  | refused => exact h
  | failed hLow hHigh hPage hRestored => exact h.restored hRestored
  | grown hLess hPage hFilled => exact h.grown hLess.le hFilled
  | shrunk hLow hLe hPage hCleared => exact h.shrunk hLe hCleared

theorem setKernelBrk (h : m.HeapMapped) (hEnabled : m.vmEnabled = true) (hWf : m.frames.Wf) (hBounds : m.HeapBounds)
    (addr : Word) : (setKernelBrk m addr).1.HeapMapped :=
  h.moved (break_cases hEnabled hWf hBounds addr)

/-- The pages that `KCCopy` borrows are unmapped again. -/
theorem kcCopy (h : m.HeapMapped) (hEnabled : m.vmEnabled = true) (hWf : m.frames.Wf) (hBounds : m.HeapBounds)
    (child : Proc) : (kcCopy m child).1.HeapMapped := by
  have hClone := kcCopy_cases hEnabled hWf hBounds child
  generalize KernelMemory.kcCopy m child = result at hClone
  cases hClone with
  | failed hBreak => exact h.moved hBreak
  | @done x pmem hBelow hFilled hOther =>
      constructor
      · intro vpn hLow hHigh
        have hHigh : vpn < m.currentBrkPage := hHigh
        simp only [withStack]
        rw [if_neg (by omega), hFilled.other vpn (by omega)]
        exact h.mapped vpn hLow hHigh
      · intro vpn hLow hHigh
        have hLow : m.currentBrkPage ≤ vpn := hLow
        simp only [withStack]
        split_ifs with hIn
        · rfl
        · rw [hFilled.other vpn hIn]
          exact h.unmapped vpn hLow hHigh

/-- A page of the heap that is mapped has its frame to itself. -/
theorem owned {who : Proc → Prop} (h : m.HeapMapped) (hCustody : Custody who m) (hBounds : m.HeapBounds) :
    m.HeapOwned who where
  toHeapMapped := h
  own vpn hLow hHigh := by
    have hHeld : m.Holds who (.heap vpn) (m.region0Pt vpn).pfn := by
      refine ⟨fun hIn => ?_, (h.mapped vpn hLow hHigh).1, rfl⟩
      exact absurd (hIn.1.trans_lt hHigh) (not_lt.mpr hBounds.upper)
    exact ⟨hCustody.sound.marked _ _ hHeld, fun owner hOwner => hCustody.sound.apart _ _ _ hOwner hHeld⟩

end Memory.HeapMapped

section Step

variable {dies : Proc → Prop} {label : Label} {x y : Space}

theorem Space.Call.heapMapped (hCall : Space.Call dies label x y) (h : x.mem.HeapMapped) (hBounds : x.mem.HeapBounds) :
    y.mem.HeapMapped := by
  cases hCall with
  | none => exact h
  | brk _ => exact h.of_kernelSide (steps_kernelBrkImpl x.mem _ _).kernelSide hBounds
  | grow _ _ => exact h.of_kernelSide (steps_expandStack x.mem _).kernelSide hBounds
  | load _ hLoad _ => exact h.of_kernelSide (LoadProgram.steps_loadProgram hLoad).kernelSide hBounds
  | fork _ hNew hCopy _ =>
      have hSide := kernelSide_ucCopy hCopy
      exact h.congr (congrArg KernelSide.currentBrkPage hSide)
        (fun vpn _ => congrFun (congrArg KernelSide.region0Pt hSide) vpn) hBounds

theorem Space.Step.heapMapped (hStep : Space.Step dies x y) (h : x.mem.HeapMapped) (hGuarded : x.Guarded dies) :
    y.mem.HeapMapped := by
  have hBounds := hGuarded.served.bounds
  have hWf := hGuarded.custody.wf
  cases hStep with
  | write hStore => exact h.of_kernelSide (steps_storeBytes hStore).kernelSide hBounds
  | heap addr => exact h.setKernelBrk hGuarded.enabled hWf hBounds addr
  | clone hChild hOther => exact h.kcCopy hGuarded.enabled hWf hBounds _
  | exit next hDies hNext =>
      have hSide := (kernelSide_deallocateKernelStack (deallocateRegion1 x.mem)).trans
        (steps_deallocateRegion1 x.mem).kernelSide
      have hFreed : (deallocateKernelStack (deallocateRegion1 x.mem)).HeapMapped := h.of_kernelSide hSide hBounds
      exact hFreed.switch next (hBounds.of_brk (congrArg KernelSide.currentBrkPage hSide))
  | switch next hNext => exact h.switch next hBounds

/-- No trap loses the heap. -/
theorem Space.Trap.heapMapped (hTrap : Space.Trap dies label x y) (h : x.mem.HeapMapped) (hGuarded : x.Guarded dies) :
    y.mem.HeapMapped := by
  obtain ⟨z, hCall, hSteps⟩ := hTrap
  have hStart := hGuarded.call hCall
  have hMapped := hCall.heapMapped h hGuarded.served.bounds
  induction hSteps with
  | refl => exact hMapped
  | tail hBefore hLast ih => exact hLast.heapMapped ih (hStart.steps hBefore)

end Step

namespace KernelStart

open Kernel

/-- The page of the break after some calls of `SetKernelBrk` while virtual memory is
off, where a request is taken over if it is in range. -/
def bootBreak (page : Int) (brk : List Word) : Int :=
  brk.foldl (fun page addr =>
    if pageNumber (upToPage addr) < origKernelBrkPage ∨ stackBase - 2 ≤ pageNumber (upToPage addr) then page
    else pageNumber (upToPage addr)) page

theorem heapMoves_bootBreak (hVm : m.vmEnabled = false) (brk : List Word) :
    heapMoves m brk = { m with currentBrkPage := bootBreak m.currentBrkPage brk } := by
  induction brk generalizing m with
  | nil => rfl
  | cons addr brk ih =>
      have hMove : (KernelMemory.setKernelBrk m addr).1 =
          { m with currentBrkPage := bootBreak m.currentBrkPage [addr] } := by
        simp only [KernelMemory.setKernelBrk, bootBreak, List.foldl_cons, List.foldl_nil, if_pos hVm]
        split_ifs <;> rfl
      have hRest : heapMoves m (addr :: brk) = heapMoves (KernelMemory.setKernelBrk m addr).1 brk := rfl
      rw [hRest, hMove, ih (m := { m with currentBrkPage := bootBreak m.currentBrkPage [addr] }) hVm]
      rfl

/-- The memory when virtual memory is switched on. -/
def enabledMemory (uctxt : UserContext) (early late : List Word) : Memory :=
  { bootMemory (bootPcbs uctxt).mem early late with vmEnabled := true }

/-- The break and the table of region 0 when virtual memory is switched on. -/
theorem enabledMemory_eq (uctxt : UserContext) (early late : List Word) :
    (enabledMemory uctxt early late).currentBrkPage = bootBreak (bootBreak origKernelBrkPage early) late ∧
      (enabledMemory uctxt early late).region0Pt = bootTable (bootBreak origKernelBrkPage early) := by
  have hImage : (bootPcbs uctxt).mem.HeapBounds := ⟨le_rfl, Int.ofNat_le.mpr brk_le_stack⟩
  obtain ⟨-, -, hBounds⟩ := heapMoves_disabled rfl hImage early
  have hEarly : heapMoves (bootPcbs uctxt).mem early =
      { (bootPcbs uctxt).mem with currentBrkPage := bootBreak origKernelBrkPage early } :=
    heapMoves_bootBreak rfl early
  rw [hEarly] at hBounds
  obtain ⟨frames, hBuilt, -, -⟩ := initRegion0Pt_boot uctxt hBounds
  unfold enabledMemory bootMemory
  dsimp only
  rw [hEarly, hBuilt]
  dsimp only
  generalize hRegion0 : ({ (bootPcbs uctxt).mem with
    frames := frames
    currentBrkPage := bootBreak origKernelBrkPage early
    region0Pt := bootTable (bootBreak origKernelBrkPage early)
    ksPt := _ } : Memory) = built
  have hSide := kernelSide_allocPage { built with
    active := 0
    ptbr1 := 0
    ctx := Function.update built.ctx 0 { built.ctx 0 with
      txtStartPage := region1BaseVpn
      dataStartPage := region1BaseVpn
      origBrkPage := region1BaseVpn
      currBrkPage := region1BaseVpn } } (region1LimitVpn - 1) .readWrite
  have hVm : (initRegion1Pt built 0).1.vmEnabled = false :=
    (congrArg KernelSide.vmEnabled hSide).trans (by rw [← hRegion0]; rfl)
  have hBrk : (initRegion1Pt built 0).1.currentBrkPage = bootBreak origKernelBrkPage early :=
    (congrArg KernelSide.currentBrkPage hSide).trans (by rw [← hRegion0]; rfl)
  have hTable : (initRegion1Pt built 0).1.region0Pt = bootTable (bootBreak origKernelBrkPage early) :=
    (congrArg KernelSide.region0Pt hSide).trans (by rw [← hRegion0]; rfl)
  rw [heapMoves_bootBreak hVm late, hBrk]
  exact ⟨rfl, hTable⟩

/-- When virtual memory is switched on, the heap is mapped exactly if the break is on
the page for which the table was built. -/
theorem heapMapped_enabledMemory_iff (uctxt : UserContext) (early late : List Word) :
    (enabledMemory uctxt early late).HeapMapped ↔
      bootBreak origKernelBrkPage (early ++ late) = bootBreak origKernelBrkPage early := by
  obtain ⟨hBrk, hTable⟩ := enabledMemory_eq uctxt early late
  have hAll : bootBreak origKernelBrkPage (early ++ late) = bootBreak (bootBreak origKernelBrkPage early) late :=
    List.foldl_append
  rw [← hAll] at hBrk
  have hImage : (bootPcbs uctxt).mem.HeapBounds := ⟨le_rfl, Int.ofNat_le.mpr brk_le_stack⟩
  obtain ⟨-, -, hBounds⟩ := heapMoves_disabled rfl hImage early
  rw [heapMoves_bootBreak rfl early] at hBounds
  have hLower : origKernelBrkPage ≤ bootBreak origKernelBrkPage early := hBounds.lower
  have hUpper : bootBreak origKernelBrkPage early ≤ stackBase := hBounds.upper
  have hServed := (served_bootMemory uctxt early late).bounds
  have hLast : (enabledMemory uctxt early late).currentBrkPage ≤ stackBase := hServed.upper
  have hFirst : (origKernelBrkPage : Int) ≤ (enabledMemory uctxt early late).currentBrkPage := hServed.lower
  have hData : (firstKernelDataPage : Int) ≤ origKernelBrkPage := Int.ofNat_le.mpr data_le_brk
  have hText : (firstKernelTextPage : Int) ≤ firstKernelDataPage := Int.ofNat_le.mpr text_le_data
  constructor
  · intro h
    rw [← hBrk]
    rcases lt_trichotomy (enabledMemory uctxt early late).currentBrkPage (bootBreak origKernelBrkPage early) with
      hLess | hSame | hMore
    · have hNone := h.unmapped (enabledMemory uctxt early late).currentBrkPage le_rfl (by omega)
      rw [hTable] at hNone
      have hPage : (firstKernelDataPage : Int) ≤ bootBreak origKernelBrkPage early := by omega
      have hSome := (bootTable_valid hPage).mpr (Or.inl ⟨by omega, hLess⟩)
      rw [hSome] at hNone
      cases hNone
    · exact hSame
    · have hSome := (h.mapped (bootBreak origKernelBrkPage early) (by omega) hMore).1
      rw [hTable, bootTable_valid (by omega)] at hSome
      omega
  · intro hSame
    rw [← hBrk] at hSame
    constructor
    · intro vpn hLow hHigh
      rw [hSame] at hHigh
      rw [hTable]
      unfold bootTable
      rw [if_neg (by omega), if_pos (Or.inl ⟨hLow, hHigh⟩)]
      exact ⟨rfl, rfl⟩
    · intro vpn hLow hHigh
      rw [hSame] at hLow
      rw [hTable]
      unfold bootTable
      rw [if_neg (by omega), if_neg (by omega)]
      rfl

theorem heapMapped_kernelStart {uctxt : UserContext} {early late : List Word}
    (h : (enabledMemory uctxt early late).HeapMapped) : (kernelStart uctxt early late).mem.HeapMapped := by
  have hSpace : (kernelStart uctxt early late).mem = (KernelMemory.kcCopy (enabledMemory uctxt early late) 1).1 :=
    congrArg Space.mem (space_kernelStart uctxt early late)
  have hBounds : (enabledMemory uctxt early late).HeapBounds :=
    (served_bootMemory uctxt early late).bounds.of_brk rfl
  rw [hSpace]
  exact h.kcCopy rfl (custody_bootMemory uctxt early late).wf hBounds 1

theorem heapMapped_step {s t : Kernel} {label : Label} (run : system.Reachable s) (h : s.mem.HeapMapped)
    (hStep : s.step label = .ok t) : t.mem.HeapMapped := by
  have hSound := sound_reachable run
  have hEnd := sound_reachable (reachable_step run hStep)
  have hTrap := trap_step hSound.running_lt hSound.contexts.idle_lt (fates_gone hEnd) hStep
  have hOutlived := outlived_step hSound hStep
  have hGuarded : s.space.Guarded t.Gone :=
    ⟨(guarded_reachable run).served, (guarded_reachable run).enabled, (guarded_reachable run).custody.mono fun p hp =>
      hp.imp_right fun hLives hGone => hLives (hOutlived.gone hGone)⟩
  exact hTrap.heapMapped h hGuarded

end KernelStart

end

namespace KernelStart

open Kernel

/-- From the moment virtual memory is switched on, the pages of the kernel heap are
mapped up to the break and no further, each to a frame of its own, exactly if the break
is then on the page on which it was when the table of region 0 was built. -/
theorem kernel_heap_mapped_iff [Hardware] (uctxt : UserContext) (early late : List Word) :
    ((enabledMemory uctxt early late).HeapOwned (fun _ => True) ∧
      ∀ s, system.Path (fun _ _ => True) (kernelStart uctxt early late) s → s.mem.HeapOwned s.Exists) ↔
    bootBreak origKernelBrkPage (early ++ late) = bootBreak origKernelBrkPage early := by
  rw [← heapMapped_enabledMemory_iff uctxt early late]
  constructor
  · exact fun h => h.1.toHeapMapped
  · intro h
    have hStart : system.Reachable (kernelStart uctxt early late) := .initial ⟨uctxt, early, late, rfl⟩
    have hBoot := custody_bootMemory uctxt early late
    refine ⟨h.owned ⟨hBoot.sound, hBoot.wf⟩ ((served_bootMemory uctxt early late).bounds.of_brk rfl), fun s path => ?_⟩
    have run := path.reachable hStart
    have hGuarded := guarded_reachable run
    have hMapped : s.mem.HeapMapped := by
      refine path.invariant (I := fun s => s.mem.HeapMapped) hStart (heapMapped_kernelStart h) ?_
      exact fun t label u hRun hMapped _ hStep => heapMapped_step hRun hMapped hStep
    refine hMapped.owned (hGuarded.custody.mono fun p hp => Or.inr fun hGone => hGone.2.2 ?_) hGuarded.served.bounds
    exact ⟨hGone.2.1, hp⟩

open Sample in
/-- One page of heap is asked for after the table was built, and it is never mapped. -/
theorem kernel_heap_unmapped : system.Reachable (kernelStart (context []) [] [48]) ∧
    ¬(kernelStart (context []) [] [48]).mem.HeapMapped := by
  refine ⟨.initial ⟨_, _, _, rfl⟩, fun h => ?_⟩
  have hBrk : (kernelStart (context []) [] [48]).mem.currentBrkPage = 3 := by decide +kernel
  have hNone : ((kernelStart (context []) [] [48]).mem.region0Pt 2).valid = false := by decide +kernel
  have hSome := (h.mapped 2 (by decide) (by rw [hBrk]; decide)).1
  rw [hNone] at hSome
  cases hSome

end KernelStart
end Yalnix
