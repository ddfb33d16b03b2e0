import Yalnix.Process.Accounting

/-! The frames an exit gives back, and the frames that are lost: they are in use, and
nothing is mapped to them. No call ever gives those back. -/
namespace Yalnix

open Hardware KernelMemory UserMemory Transition

namespace Kernel

variable [Hardware] {s t : Kernel} {label : Label}

/-- In use, and not mapped by the kernel or by a process that is there. -/
structure Lost (s : Kernel) (pfn : Nat) : Prop where
  used : pfn ∈ s.mem.frames.inUse
  unmapped : ∀ owner, ¬s.mem.Holds s.Present owner pfn

/-- The lost frames of a state, which later states do not touch. -/
theorem Lost.spared (run : KernelStart.system.Reachable s) :
    Spared (fun q => True ∧ s.Present q) {pfn | s.Lost pfn} s.mem s.mem where
  aside := by
    constructor
    · exact fun pfn hLost => hLost.used
    · exact fun owner pfn hOwner hLost => hLost.unmapped owner ⟨hOwner.1.mono fun _ hq => hq.2, hOwner.2⟩
  contents _ _ := rfl
  wf := (KernelStart.guarded_reachable run).custody.wf

theorem Spared.lost {kept : Set Nat} {start : Memory} (h : Spared (fun q => True ∧ t.Present q) kept start t.mem)
    {pfn : Nat} (hKept : pfn ∈ kept) : t.Lost pfn where
  used := h.aside.marked hKept
  unmapped owner hOwner := h.aside.unheld owner pfn ⟨hOwner.1.mono fun _ hq => ⟨trivial, hq⟩, hOwner.2⟩ hKept

theorem heldFrames_region1 {m : Memory} (hFits : m.Fits) : heldFrames m.userMapping.table 0 region1Vpns =
    {pfn | ∃ i, ((m.ctx m.active).region1Pt i).valid = true ∧ ((m.ctx m.active).region1Pt i).pfn = pfn} := by
  ext pfn
  constructor
  · rintro ⟨i, -, -, hEntry⟩
    exact ⟨i, hEntry⟩
  · rintro ⟨i, hEntry⟩
    obtain ⟨hLow, hHigh⟩ := hFits.user _ i hEntry.1
    exact ⟨i, hLow, hHigh, hEntry⟩

theorem heldFrames_stack {m : Memory} {p : Proc} (hFits : m.Fits) (hCurrent : m.Current p) :
    heldFrames m.region0Pt stackBase stackLimit =
      {pfn | ∃ i, (m.ksPt p i).valid = true ∧ (m.ksPt p i).pfn = pfn} := by
  have hLimit : stackLimit = stackBase + kStackVpns := rfl
  ext pfn
  constructor
  · rintro ⟨i, hLow, hHigh, hEntry⟩
    have hSlot := hCurrent.stack (i - stackBase) (by omega) (by omega)
    rw [add_sub_cancel] at hSlot
    exact ⟨i - stackBase, hSlot ▸ hEntry⟩
  · rintro ⟨i, hEntry⟩
    obtain ⟨hLow, hHigh⟩ := hFits.stack _ i hEntry.1
    refine ⟨stackBase + i, by omega, by omega, ?_⟩
    rw [hCurrent.stack i hLow hHigh]
    exact hEntry

/-- What is free after an exit: the frames of the tables of the process, as well. -/
theorem inUse_exitTo (run : KernelStart.system.Reachable s) (next : Proc) :
    (s.space.exitTo next).mem.frames.inUse = s.mem.frames.inUse \ s.frames s.runningProc := by
  have hGuarded := KernelStart.guarded_reachable run
  have hFits := KernelStart.fits_reachable run
  have hActive : s.mem.active = s.runningProc := hGuarded.served.current.active
  have hWf : s.mem.frames.Wf := hGuarded.custody.wf
  obtain ⟨x, hRegion, hCleared⟩ := deallocateRegion1_eq hWf
  have hSteps := steps_deallocateRegion1 s.mem
  have hCurrent : (deallocateRegion1 s.mem).Current s.runningProc :=
    hGuarded.served.current.of_installed s.mem.currentBrkPage (Memory.installed_of_kernelSide hSteps.kernelSide _)
  have hSame : (deallocateRegion1 s.mem).ksPt = s.mem.ksPt := congrArg KernelSide.ksPt hSteps.kernelSide
  obtain ⟨frames, hStack, hUsed, -⟩ := destroyPt_spec (deallocateRegion1 s.mem) (deallocateRegion1 s.mem).region0Pt
    stackBase stackLimit
  have hFirst : (deallocateRegion1 s.mem).frames.inUse =
      s.mem.frames.inUse \ heldFrames s.mem.userMapping.table 0 region1Vpns := by
    rw [hRegion]
    exact hCleared.inUse
  have hLast : (s.space.exitTo next).mem.frames = frames := by
    show (deallocateKernelStack (deallocateRegion1 s.mem)).frames = frames
    rw [deallocateKernelStack_eq, hStack]
    rfl
  rw [hLast, hUsed, hFirst, heldFrames_region1 hFits, hActive, heldFrames_stack (hSteps.fits hFits) hCurrent, hSame,
    Set.sdiff_sdiff]
  congr 1
  ext pfn
  exact Or.comm

end Kernel

namespace KernelStart

open Kernel

/-- A process that exits, by a call or because of a fault, gives back the frames of its
region 1 and of its kernel stack, and no other frame. -/
theorem exit_frees_exactly [Hardware] {s t : Kernel} {label : Label} (run : system.Reachable s)
    (hCall : label.loads = none) (hStep : s.step label = .ok t) (hGone : t.Gone s.runningProc) :
    t.mem.frames.inUse = s.mem.frames.inUse \ s.frames s.runningProc ∧ s.frames s.runningProc ⊆ s.mem.frames.inUse := by
  have hSound := sound_reachable run
  have hGuarded := guarded_reachable run
  constructor
  · have hDeparture := departure_step hSound hGone hStep
    generalize hEnd : t.space = y at hDeparture
    cases hDeparture with
    | exit next =>
        rw [← inUse_exitTo run next]
        exact congrArg (fun x : Space => x.mem.frames.inUse) hEnd
    | kill hLoads hArgs hLoad next =>
        rw [hCall] at hLoads
        cases hLoads
  · rintro pfn (⟨i, hEntry⟩ | ⟨i, hEntry⟩)
    · exact hGuarded.custody.sound.marked (.stack s.runningProc i) pfn ⟨Or.inl rfl, hEntry⟩
    · exact hGuarded.custody.sound.marked (.user s.runningProc i) pfn ⟨Or.inl rfl, hEntry⟩

open Sample in
/-- A child exits, and the frame of its first page is free. -/
theorem exit_frees_exactly_child : ∃ s t : Kernel, system.Reachable s ∧ s.runningProc = 2 ∧
    s.step (call .exit [0]) = .ok t ∧ ((s.mem.ctx 2).region1Pt 0).pfn ∈ s.mem.frames.inUse ∧
    ((s.mem.ctx 2).region1Pt 0).pfn ∉ t.mem.frames.inUse := by
  obtain ⟨s, run, hRunning, hIdle, hSize, hValid, hPath⟩ := System.exists_reachable
    (P := fun s : Kernel => s.runningProc = 2 ∧ s.idleProc = 0 ∧ s.numPcbs = 3 ∧
      ((s.mem.ctx 2).region1Pt 0).valid = true ∧
      (s.step (call .exit [0])).toOption.any (fun t => decide ¬t.Live 2) = true)
    (turn ++ call .fork [] :: turn) initial_booted (by decide +kernel)
  obtain ⟨t, hStep, hExited⟩ := (Option.any_eq_true _ _).mp hPath
  have hStep : s.step (call .exit [0]) = .ok t := mem_toOption.mp hStep
  have hOutlived := outlived_step (sound_reachable run) hStep
  have hGone : t.Gone s.runningProc := by
    refine ⟨(sound_reachable run).running_lt.trans_le hOutlived.size, ?_, hRunning ▸ of_decide_eq_true hExited⟩
    rw [hRunning, hOutlived.idle, hIdle]
    decide
  obtain ⟨hFreed, hHeld⟩ := exit_frees_exactly run rfl hStep hGone
  have hFrame : ((s.mem.ctx 2).region1Pt 0).pfn ∈ s.frames s.runningProc := by
    rw [hRunning]
    exact Or.inr ⟨0, hValid, rfl⟩
  refine ⟨s, t, run, hRunning, hStep, hHeld hFrame, ?_⟩
  rw [hFreed]
  exact fun hIn => hIn.2 hFrame

/-- A lost frame is lost for the rest of the run, and nobody writes to it any more. -/
theorem lost_forever [Hardware] {s t : Kernel} {pfn : Nat} (run : system.Reachable s) (hLost : s.Lost pfn)
    (path : system.Path (fun _ _ => True) s t) : t.Lost pfn ∧ t.mem.pmem pfn = s.mem.pmem pfn := by
  have hSpared : Spared (fun q => True ∧ t.Present q) {pfn | s.Lost pfn} s.mem t.mem :=
    path.invariant (I := fun u => Spared (fun q => True ∧ u.Present q) {pfn | s.Lost pfn} s.mem u.mem) run
      (Lost.spared run) fun _ _ _ hRun hSpared _ hStep => spared_step hRun hStep trivial trivial hSpared
  exact ⟨Spared.lost hSpared hLost, hSpared.contents pfn hLost⟩

section

open Sample

/-- The stack pointer is back on the last page, and the heap is to grow below it. -/
def overStack : UserContext := { context [256] with sp := 288 }

/-- The frame is at no page of the processes that were created. -/
def Unmapped (s : Kernel) (pfn : Nat) : Prop :=
  (∀ p < s.numPcbs, ∀ i : Int, 0 ≤ i → i < 6 →
    ¬(((s.mem.ctx p).region1Pt i).valid = true ∧ ((s.mem.ctx p).region1Pt i).pfn = pfn)) ∧
  ∀ p < s.numPcbs, ∀ i : Int, 0 ≤ i → i < 2 → ¬((s.mem.ksPt p i).valid = true ∧ (s.mem.ksPt p i).pfn = pfn)

instance (s : Kernel) (pfn : Nat) : Decidable (Unmapped s pfn) := inferInstanceAs (Decidable (_ ∧ _))

/-- The heap grows over the old stack page, whose frame is lost. -/
theorem lost_forever_stack : ∃ s : Kernel, system.Reachable s ∧ s.Lost 8 ∧
    ∀ t, system.Path (fun _ _ => True) s t → t.Lost 8 := by
  obtain ⟨r, runBefore, hUser, hExists, hPage, hUsed, hUnmapped⟩ := System.exists_reachable
    (P := fun r : Kernel => r.inUser ∧ r.Exists 1 ∧
      ((r.mem.entry (.user 1 3)).valid = true ∧ (r.mem.entry (.user 1 3)).pfn = 8) ∧
      ((r.saveUc overStack).kernelBrk.leave.mem.frames.used 8 ∧ Unmapped (r.saveUc overStack).kernelBrk.leave 8))
    (turn ++ [.memory { context [] with addr := 240 }]) initial_booted (by decide +kernel)
  have hStep : system.step r (.syscall .brk overStack outcomes) = .ok (r.saveUc overStack).kernelBrk.leave :=
    if_pos hUser
  have hTable : (r.saveUc overStack).kernelBrk.leave.mem.region0Pt = r.mem.region0Pt := by
    rw [leave_mem]
    exact congrArg KernelSide.region0Pt (steps_kernelBrkImpl (r.saveUc overStack).mem _ _).kernelSide
  generalize (r.saveUc overStack).kernelBrk.leave = s at *
  have run : system.Reachable s := .step runBefore trivial hStep
  have hLost : s.Lost 8 := by
    refine ⟨hUsed, fun owner hOwner => ?_⟩
    obtain ⟨hCounts, hEntry⟩ := hOwner
    cases owner with
    | heap vpn =>
        -- the kernel has not changed its own table, and the process had the frame before
        have hCustody : Custody (fun p => ¬r.Gone p) r.mem :=
          (guarded_reachable runBefore).custody.mono fun p hp => Or.inr hp
        have hHeap : r.mem.Holds (fun p => ¬r.Gone p) (.heap vpn) 8 := by
          refine ⟨hCounts, ?_⟩
          rwa [Memory.entry, hTable] at hEntry
        have hProcess : r.mem.Holds (fun p => ¬r.Gone p) (.user 1 3) 8 :=
          ⟨fun hGone => hGone.2.2 ⟨hGone.2.1, hExists⟩, hPage⟩
        cases hCustody.sound.apart _ _ _ hHeap hProcess
    | stack p i =>
        obtain ⟨hLow, hHigh⟩ := (fits_reachable run).stack p i hEntry.1
        exact hUnmapped.2 p hCounts.1 i hLow hHigh hEntry
    | user p i =>
        obtain ⟨hLow, hHigh⟩ := (fits_reachable run).user p i hEntry.1
        exact hUnmapped.1 p hCounts.1 i hLow hHigh hEntry
  exact ⟨s, run, hLost, fun t path => (lost_forever run hLost path).1⟩

end

end KernelStart
end Yalnix
