import Yalnix.Memory.LoadOutcome
import Yalnix.Process.Accounting
import Yalnix.Process.Dispatch
import Yalnix.Process.ForkOutcome
import Yalnix.Process.UserPointers

/-! The kernel stacks of the processes. A child whose stack could not be cloned is put
on the ready queue all the same. It is the only process that the kernel cannot continue,
and the machine stops when its turn comes. -/
namespace Yalnix

open Hardware KernelMemory UserMemory Transition

namespace Kernel

variable [Hardware] {s t u : Kernel} {label : Label} {p : Proc}

/-- The pages of the kernel stack of the process are there. -/
def HasStack (s : Kernel) (p : Proc) : Prop := ∀ i : Int, 0 ≤ i → i < kStackVpns → (s.mem.ksPt p i).valid = true

/-- A process can be continued if it has a kernel stack, and whoever is in user mode can be. -/
structure Stacked (s : Kernel) : Prop where
  saved : ∀ p, s.Live p → ((s.pcb p).kc ≠ none ↔ s.HasStack p)
  running : s.mode = .user → s.Live s.runningProc → (s.pcb s.runningProc).kc ≠ none
  idle : (s.pcb s.idleProc).kc = none → s.mode = .user ∧ s.runningProc = s.idleProc

/-- The stack table of a process is written when the process is created. -/
theorem stacks_step (hSound : KernelStart.Sound s) (hOld : p < s.numPcbs) (hStep : s.step label = .ok t) :
    t.mem.ksPt p = s.mem.ksPt p :=
  (deed_step hSound.running_lt hSound.contexts.idle_lt hStep).stacks hOld

theorem hasStack_congr (h : t.mem.ksPt p = s.mem.ksPt p) : t.HasStack p ↔ s.HasStack p := by
  unfold HasStack
  rw [h]

/-- A context that is there stays there. -/
theorem context_step (hSound : KernelStart.Sound s) (hOld : p < s.numPcbs) (hSaved : (s.pcb p).kc ≠ none)
    (hStep : s.step label = .ok t) : (t.pcb p).kc ≠ none := by
  have hKeep : p < t.numPcbs ∧ (t.pcb p).kc ≠ none := by
    refine hSound.preserve (I := fun u => p < u.numPcbs ∧ (u.pcb p).kc ≠ none) ?_ ⟨hOld, hSaved⟩ hStep ?_ ?_
    · rintro u v - ⟨hLt, hKc⟩ hEffect
      refine ⟨?_, context_effect hEffect hLt hKc⟩
      rcases (size_effect hEffect).2 with hSame | ⟨o, -, -, -, hMore⟩
      · rwa [hSame]
      · rw [hMore]
        exact hLt.trans (Nat.lt_succ_self _)
    · rintro uc o id len - - - hInv
      obtain ⟨ttys, lines, trace, hEq⟩ := read_eq (s.saveUc uc) id len
      rw [hEq]
      exact hInv
    · rintro o id - - -
      obtain ⟨ttys, lines, trace, hEq⟩ := read_eq { s with mode := .user } id (s.pcb s.runningProc).ioLen
      rw [hEq]
      exact ⟨hOld, hSaved⟩
  exact hKeep.2

/-- A step that ends in user mode was taken by the process that runs there. -/
theorem user_step (hSound : KernelStart.Sound s) (hMode : t.mode = .user) (hStep : s.step label = .ok t) :
    t.runningProc = s.runningProc ∧ (s.mode = .resuming → (s.pcb s.runningProc).kc ≠ none) := by
  cases label with
  | resume o =>
      simp only [step] at hStep
      split_ifs at hStep
      unfold resume at hStep
      split at hStep
      · cases hStep
      · rename_i kc hKc
        obtain ⟨done, hDone, hStep⟩ := bind_eq_ok.mp hStep
        obtain rfl := Except.ok.inj hStep
        refine ⟨(runningProc_of_cpu (leave_cpu done)).trans ?_, fun _ => by simp [hKc]⟩
        rw [mode_of_cpu (leave_cpu done)] at hMode
        by_cases hBoot : kc = .boot
        · subst hBoot
          obtain ⟨loaded, -, hDone⟩ := bind_eq_ok.mp hDone
          split at hDone
          · obtain rfl := Except.ok.inj hDone
            rfl
          · cases hDone
        · cases handled_continueAt hBoot hDone with
          | back hDesk => exact congrArg Desk.runningProc hDesk
          | @away next kc hDesk hLeaves =>
              have hAway : (next.switchAway kc).mode = .resuming := congrArg Cpu.mode (cpu_switchAway next kc)
              rw [hAway] at hMode
              cases hMode
  | _ =>
      have hUser : t.mode = .user → s.mode = .user ∧ t.runningProc = s.runningProc := by
        refine hSound.preserve (I := fun u => u.mode = .user → s.mode = .user ∧ u.runningProc = s.runningProc)
          (fun u v _ h hEffect hUser => ?_) (fun hUser => ⟨hUser, rfl⟩) hStep ?_ ?_
        · obtain ⟨hBefore, hSame⟩ := user_effect hEffect rfl hUser
          exact ⟨(h hBefore).1, hSame.trans (h hBefore).2⟩
        · rintro uc o id len - - - hInv
          obtain ⟨ttys, lines, trace, hEq⟩ := read_eq (s.saveUc uc) id len
          rw [hEq]
          exact hInv
        · rintro o id hLabel
          cases hLabel
      refine ⟨(hUser hMode).2, fun hResuming => ?_⟩
      rw [(hUser hMode).1] at hResuming
      cases hResuming

/-- The child gets a context if its kernel stack is cloned. -/
theorem kc_forkCommit (s : Kernel) (child : Proc) (o : Outcomes) : ((s.forkCommit child o).pcb child).kc =
    if (kcCopy (heapMoves s.mem o.brk) child).2 then some .fork else (s.pcb child).kc := by
  have hMem : ((s.forkLink child o).scheduleProcess child).mem = heapMoves s.mem o.brk :=
    congrArg Space.mem ((space_scheduleProcess _ child).trans (space_forkLink s child o))
  have hKc : (((s.forkLink child o).scheduleProcess child).pcb child).kc = (s.pcb child).kc :=
    kc_of_cpu ((cpu_scheduleProcess _ child).trans (cpu_of_outside (quiet_forkLink s child o).outside)) child
  unfold forkCommit
  dsimp only
  rw [hMem]
  split_ifs
  · simp [modifyPcb]
  · exact hKc

theorem kc_copiedChild (s : Kernel) (uc : UserContext) (mem : Memory) :
    ((s.copiedChild uc mem).pcb s.numPcbs).kc = none := by
  have hCreated := cpu_createNewPcb (createNewPcb_ok s uc (o := ⟨fun _ => true, [], .missing⟩) rfl)
  have hKc : ((s.newChild uc).pcb s.numPcbs).kc = none :=
    (congrFun (congrArg Cpu.kc hCreated) s.numPcbs).trans (Function.update_self _ _ _)
  unfold copiedChild
  simpa [modifyPcb, setMem] using hKc

/-- A child of a fork has a context if its kernel stack was cloned. -/
theorem stacks_fork {uc : UserContext} {o : Outcomes} (run : KernelStart.system.Reachable s) (hPos : 0 < kStackVpns)
    (hStep : s.step (.syscall .fork uc o) = .ok t) (hLive : t.Live s.numPcbs) :
    (t.pcb s.numPcbs).kc ≠ none ↔ t.HasStack s.numPcbs := by
  have hUser : s.inUser := by
    by_contra hNot
    simp [step, hNot] at hStep
  have hRunning := (KernelStart.sound_reachable run).settled.live_running hUser
  rw [step_fork hUser] at hStep
  obtain ⟨v, hFork, hStep⟩ := bind_eq_ok.mp hStep
  obtain rfl := Except.ok.inj hStep
  have hAlloc : (o.alloc 0 && o.alloc 1 && o.alloc 2 && o.alloc 3) = true := by
    by_contra hNull
    rw [kernelFork_null hNull] at hFork
    cases hFork
  have hDone := hFork
  rw [kernelFork_saveUc s uc hAlloc] at hDone
  obtain ⟨⟨mem, ok⟩, hCopy, hDone⟩ := bind_eq_ok.mp hDone
  cases ok with
  | false =>
      obtain rfl := Except.ok.inj hDone
      have hGone := (forkUndone_facts hUser hRunning uc mem).2.2
      have hFreed : ((s.forkUndone uc mem).leave.pcb s.numPcbs).freed = false := hLive.2.2.1
      rw [leave_pcb, hGone] at hFreed
      cases hFreed
  | true =>
      obtain rfl := Except.ok.inj hDone
      obtain ⟨hMem, -, -⟩ := forkCommit_facts hUser hRunning uc mem hFork
      obtain ⟨-, hTaken⟩ := (KernelStart.copy_newChild run hUser uc).2.2 mem hCopy
      obtain ⟨hMovable, hBlank, -⟩ := heapMoves_copied (o := o) run hCopy hTaken
      obtain ⟨hValid, hNone⟩ := kcCopy_entries hMovable s.numPcbs
      have hSame : (s.copiedChild uc mem).mem = mem := rfl
      rw [leave_pcb, kc_forkCommit, kc_copiedChild, hSame]
      unfold HasStack
      rw [hMem]
      cases hCloned : (kcCopy (heapMoves mem o.brk) s.numPcbs).2 with
      | true => exact iff_of_true (by simp) (hValid hCloned)
      | false =>
          refine iff_of_false (by simp) fun hAll => ?_
          have hFirst := hAll 0 le_rfl (by omega)
          rw [hNone hCloned, hBlank] at hFirst
          cases hFirst

theorem Stacked.step (h : s.Stacked) (run : KernelStart.system.Reachable s) (hPos : 0 < kStackVpns)
    (hStep : s.step label = .ok t) : t.Stacked := by
  have hSound := KernelStart.sound_reachable run
  have hEnd := KernelStart.sound_reachable (KernelStart.reachable_step run hStep)
  have hOutlived := outlived_step hSound hStep
  constructor
  · intro p hLive
    by_cases hOld : p < s.numPcbs
    · have hBefore := hOutlived.live p hOld hLive
      rw [hasStack_congr (stacks_step hSound hOld hStep), ← h.saved p hBefore]
      refine ⟨fun hSaved => ?_, fun hSaved => context_step hSound hOld hSaved hStep⟩
      by_contra hNone
      have hParked : s.Parked p none := by
        refine ⟨hNone, fun hp => ?_⟩
        subst hp
        cases hMode : s.mode with
        | user => exact absurd hNone (h.running hMode hBefore)
        | resuming => rfl
      refine hSaved (hParked.step hSound hOld ?_ hStep).1
      rintro ⟨rfl, hResume⟩
      cases label with
      | resume o => simp [Kernel.step, resume, hNone, hParked.2 rfl] at hStep
      | _ => cases hResume
    · obtain ⟨z, hCall, hSteps⟩ :=
        trap_step hSound.running_lt hSound.contexts.idle_lt (KernelStart.fates_gone hEnd) hStep
      have hNew : p < t.numPcbs := hLive.2.1
      have hSize : t.numPcbs = z.numPcbs := hSteps.numPcbs
      rcases hCall.numPcbs with hNone | ⟨hMore, uc, o, hFork⟩
      · rw [hSize, hNone] at hNew
        exact absurd hNew hOld
      · obtain rfl : p = s.numPcbs := by
          rw [hSize, hMore] at hNew
          exact Nat.le_antisymm (Nat.lt_succ_iff.mp hNew) (Nat.not_lt.mp hOld)
        subst hFork
        exact stacks_fork run hPos hStep hLive
  · intro hMode hLive
    obtain ⟨hSame, hResumed⟩ := user_step hSound hMode hStep
    rw [hSame] at hLive ⊢
    refine context_step hSound hSound.running_lt ?_ hStep
    cases hBefore : s.mode with
    | user => exact h.running hBefore (hOutlived.live _ hSound.running_lt hLive)
    | resuming => exact hResumed hBefore
  · intro hNone
    rw [hOutlived.idle] at hNone ⊢
    have hFirst : (s.pcb s.idleProc).kc = none := by
      by_contra hSaved
      exact context_step hSound hSound.contexts.idle_lt hSaved hStep hNone
    obtain ⟨hMode, hRunning⟩ := h.idle hFirst
    have hLives : ¬t.Gone s.runningProc := fun hGone => hGone.2.1 (hRunning.trans hOutlived.idle.symm)
    cases departs_trap hSound.running_lt hMode hStep hLives with
    | back hUser hSame => exact ⟨hUser, hSame.trans hRunning⟩
    | tick hKc => simp [hRunning, hNone] at hKc
    | call _ _ hKc => simp [hRunning, hNone] at hKc

/-- The machine does not stop because a context is missing. -/
def Elsewhere (stop : Stop) : Prop := ∀ p, stop ≠ .noContext p

theorem elsewhere_store (m : Memory) (addr : Int) (bytes : List Byte) :
    StopsOnly Elsewhere (m.storeBytes addr bytes) := by
  intro stop h p
  by_cases hBuf : m.Writable addr bytes.length
  · obtain ⟨m', hOk⟩ := hBuf.exists_store le_rfl
    rw [hOk] at h
    cases h
  · obtain ⟨x, hWild⟩ := Memory.exists_wildStore hBuf
    rw [hWild] at h
    obtain rfl := Except.error.inj h
    simp

theorem elsewhere_fills {buf : Word} {len : Nat} {wrote : Bool} {r : Except Stop Kernel}
    (h : Fills s buf len wrote r) : StopsOnly Elsewhere r := by
  cases h with
  | stored hLen hMem => exact (elsewhere_store _ _ _).bind fun _ => .ok _
  | declined | away => exact .ok _

theorem elsewhere_loadProgram (m : Memory) (uc : UserContext) (file : LoadProgram.File) (args : List (List Byte))
    (argsOk : Bool) : StopsOnly Elsewhere (LoadProgram.loadProgram m uc file args argsOk) := by
  rintro stop h p rfl
  obtain ⟨addr, hFault⟩ := LoadProgram.faults_loadProgram m uc file args argsOk _ h
  cases hFault

/-- A process that has a context can be continued there. -/
theorem elsewhere_continueAt (s : Kernel) (kc : KernelContext) (o : Outcomes) :
    StopsOnly Elsewhere (s.continueAt kc o) := by
  cases kc with
  | boot =>
      refine (elsewhere_loadProgram _ _ _ _ _).bind fun loaded => ?_
      split
      · exact .ok _
      · exact fun stop h p => by obtain rfl := Except.error.inj h; simp
  | wait =>
      show StopsOnly Elsewhere s.waitReturn
      unfold waitReturn
      split_ifs
      · exact .ok _
      · exact (elsewhere_store _ _ _).bind fun _ => .ok _
  | pipeRead id buf len =>
      obtain ⟨wrote, hFills⟩ := fills_pipeReadLoop s id buf len
      exact elsewhere_fills hFills
  | ttyRead id => exact elsewhere_fills (fills_consumeIntoUser s id _ _)
  | _ => exact .ok _

end Kernel

namespace KernelStart

open Kernel

section Boot

variable [Hardware]

/-- The first user process gets its context with its kernel stack. -/
theorem kc_kernelStart (uctxt : UserContext) (early late : List Word) : ((kernelStart uctxt early late).pcb 1).kc =
    if (kcCopy (enabledMemory uctxt early late) 1).2 then some .boot else none := by
  have hNone : ((bootPcbs uctxt).pcb 1).kc = none := rfl
  have hKc := kc_of_cpu (cpu_scheduleProcess ((bootPcbs uctxt).setMem (bootMemory (bootPcbs uctxt).mem early late)) 1) 1
  have hMem := congrArg Space.mem
    (space_scheduleProcess ((bootPcbs uctxt).setMem (bootMemory (bootPcbs uctxt).mem early late)) 1)
  unfold kernelStart
  dsimp only
  generalize ((bootPcbs uctxt).setMem (bootMemory (bootPcbs uctxt).mem early late)).scheduleProcess 1 =
    ready at hKc hMem ⊢
  have hSame : ready.mem = bootMemory (bootPcbs uctxt).mem early late := hMem
  rw [hSame]
  unfold enabledMemory
  split_ifs
  · simp [modifyPcb]
  · exact hKc.trans hNone

theorem stacked_kernelStart (hPos : 0 < kStackVpns) (uctxt : UserContext) (early late : List Word) :
    (kernelStart uctxt early late).Stacked := by
  obtain ⟨first, -, hCpu⟩ := cpu_kernelStart uctxt early late
  have hIdle : (kernelStart uctxt early late).idleProc = 0 := congrArg Cpu.idleProc hCpu
  have hRunning : (kernelStart uctxt early late).runningProc = 0 := congrArg Cpu.runningProc hCpu
  refine ⟨fun p hLive => ?_, fun _ hLive => absurd (hRunning.trans hIdle.symm) hLive.1,
    fun _ => ⟨congrArg Cpu.mode hCpu, hRunning.trans hIdle.symm⟩⟩
  obtain rfl : p = 1 := by
    have hSize : (kernelStart uctxt early late).numPcbs = 2 := congrArg Cpu.numPcbs hCpu
    have hLt : p < 2 := hSize ▸ hLive.2.1
    exact Nat.le_antisymm (Nat.lt_succ_iff.mp hLt) (Nat.one_le_iff_ne_zero.mpr (hIdle ▸ hLive.1))
  have hMovable : Movable (enabledMemory uctxt early late) :=
    ⟨rfl, (custody_bootMemory uctxt early late).wf, (served_bootMemory uctxt early late).bounds.of_brk rfl⟩
  obtain ⟨hValid, hNone⟩ := kcCopy_entries hMovable 1
  have hMem : (kernelStart uctxt early late).mem = (kcCopy (enabledMemory uctxt early late) 1).1 :=
    congrArg Space.mem (space_kernelStart uctxt early late)
  rw [kc_kernelStart]
  unfold HasStack
  rw [hMem]
  cases hCloned : (kcCopy (enabledMemory uctxt early late) 1).2 with
  | true => exact iff_of_true (by simp) (hValid hCloned)
  | false =>
      refine iff_of_false (by simp) fun hAll => ?_
      have hFirst := hAll 0 le_rfl (by omega)
      obtain ⟨-, -, hBlank⟩ := @accounted_enabledMemory _ (fun _ => True) uctxt early late trivial
      rw [hNone hCloned, hBlank 1 Nat.one_ne_zero] at hFirst
      cases hFirst

end Boot

theorem stacked_reachable [Hardware] (hPos : 0 < kStackVpns) {s : Kernel} (run : system.Reachable s) : s.Stacked := by
  refine run.invariant (I := Stacked) ?_ fun s label t hRun hStacked _ hStep => hStacked.step hRun hPos hStep
  rintro s ⟨uctxt, early, late, rfl⟩
  exact stacked_kernelStart hPos uctxt early late

/-- A process that was switched to is live, or it is the idle process and can be continued. -/
theorem live_resuming [Hardware] {s : Kernel} (run : system.Reachable s) (hPos : 0 < kStackVpns)
    (hMode : s.mode = .resuming) : s.Live s.runningProc ∨ (s.pcb s.runningProc).kc ≠ none := by
  by_cases hIdle : s.runningProc = s.idleProc
  · refine Or.inr fun hNone => ?_
    rw [hIdle] at hNone
    have hUser := ((stacked_reachable hPos run).idle hNone).1
    rw [hMode] at hUser
    cases hUser
  · have hCpu : s.contents .cpu = [s.runningProc] := if_neg hIdle
    exact Or.inl ((sound_reachable run).settled.placement.live_of_mem (a := .cpu) (by simp [hCpu]))

/-- The kernel cannot continue a process exactly when the process has no kernel stack. -/
theorem no_context_iff [Hardware] {s : Kernel} {o : Outcomes} {p : Proc} (run : system.Reachable s)
    (hPos : 0 < kStackVpns) : s.step (.resume o) = .error (.noContext p) ↔
      s.mode = .resuming ∧ s.runningProc = p ∧ s.Live p ∧ ¬s.HasStack p := by
  have hStacked := stacked_reachable hPos run
  constructor
  · intro hStep
    simp only [Kernel.step] at hStep
    split_ifs at hStep with hMode
    unfold resume at hStep
    split at hStep
    · rename_i hNone
      obtain rfl : s.runningProc = p := by simpa using hStep
      have hLive := (live_resuming run hPos hMode).resolve_right (not_not.mpr hNone)
      exact ⟨hMode, rfl, hLive, fun hStack => (hStacked.saved _ hLive).mpr hStack hNone⟩
    · rename_i kc hKc
      have hOther := (elsewhere_continueAt { s with mode := .user } kc o).bind fun t => StopsOnly.ok t.leave
      exact absurd rfl (hOther _ hStep p)
    · cases Except.error.inj hStep
  · rintro ⟨hMode, rfl, hLive, hStack⟩
    have hNone : (s.pcb s.runningProc).kc = none := by
      by_contra hSaved
      exact hStack ((hStacked.saved _ hLive).mp hSaved)
    simp [Kernel.step, hMode, resume, hNone]

end KernelStart
end Yalnix
