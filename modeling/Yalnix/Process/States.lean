import Yalnix.Process.Agenda
import Yalnix.Process.Delay
import Yalnix.Process.Holders
import Yalnix.Process.Reaping

/-! Whether the state field of a process says where the process is. Three
paths of the kernel move a process without setting its state; in the runs that
never take them the field is always right. -/
namespace Yalnix

open Hardware Identifiers Fifo Synchronization Transition

/-- The condition variable and the lock of a `CvarWait`. -/
def Label.waitsOn : Label → Option (Nat × Nat)
  | .syscall .cvarWait uc _ =>
      if isCvarId (uc.regs 0) && isLockId (uc.regs 1) then some (getId (uc.regs 0), getId (uc.regs 1)) else none
  | _ => none

namespace Kernel

section Told

variable [Hardware] {s t : Kernel} {p : Proc}

/-- The state of every live process says where it is. -/
def Told (s : Kernel) : Prop := ∀ p, s.Live p → s.agenda.Tells p

/-- The log tells who is on the ready queue. -/
theorem mem_main (h : KernelStart.Sound s) (p : Proc) :
    p ∈ s.contents (.queue (.sched .main)) ↔ pending p s.agenda.log = true :=
  (h.settled.placement.served (.sched .main) rfl).mem_iff

theorem not_pending_running (h : KernelStart.Sound s) (hLive : s.Live s.runningProc) :
    pending s.runningProc s.agenda.log = false := by
  have hCpu : s.contents .cpu = [s.runningProc] := if_neg hLive.1
  have hIn : s.runningProc ∈ s.contents .cpu := by simp [hCpu]
  have hOut : s.runningProc ∉ s.contents (.queue (.sched .main)) :=
    h.settled.placement.placed.not_mem_of_ne hIn (by simp)
  rw [mem_main h] at hOut
  simpa using hOut

omit [Hardware] in
theorem Told.of_agenda (h : s.Told) (hLive : ∀ p, t.Live p → s.Live p) (hSame : t.agenda = s.agenda) :
    t.Told := fun p hp => hSame ▸ h p (hLive p hp)

/-- Processes are made ready. The one that runs cannot be among them. -/
theorem Told.readies (h : s.Told) (hSound : KernelStart.Sound t) (hLive : ∀ p, t.Live p → s.Live p)
    (hReadies : Agenda.Readies s.agenda t.agenda) : t.Told := by
  intro p hp
  obtain ⟨-, hRunning, hCases⟩ := hReadies.cases p
  have hTells := h p (hLive p hp)
  rcases hCases with ⟨hState, hLog⟩ | ⟨hState, hLog⟩
  · exact ⟨by rw [hLog, hState, hTells.ready], by rw [hState, hTells.running, hRunning]⟩
  · refine ⟨by simp [hState, hLog], ?_⟩
    have hOther : p ≠ t.agenda.runningProc := by
      rintro rfl
      have hOut := not_pending_running hSound hp
      simp [agenda] at hLog
      simp [agenda, hLog] at hOut
    simp [hState, hOther]

/-- The running process is marked as waiting and another one is dispatched. -/
theorem Told.block {n : Proc} (h : s.Told) (hRunning : s.Live s.runningProc) (hSound : KernelStart.Sound s)
    (hLive : ∀ p, t.Live p → s.Live p)
    (hAgenda : t.agenda = ((s.agenda.mark s.runningProc .waiting).dispatch n).run n) : t.Told := by
  intro p hp
  have hTells := h p (hLive p hp)
  rw [hAgenda]
  apply Agenda.Tells.run_dispatch
  · rw [Agenda.mark_log]
    by_cases he : p = s.runningProc
    · rw [he, Agenda.mark_state hRunning.1, not_pending_running hSound hRunning]
      simp
    · rw [Agenda.mark_state_of_ne he, hTells.ready]
  · intro _
    by_cases he : p = s.runningProc
    · rw [he, Agenda.mark_state hRunning.1]
      simp
    · rw [Agenda.mark_state_of_ne he]
      exact fun hState => he (hTells.running.mp hState)
  · rw [Agenda.mark_idleProc]
    exact (hLive p hp).1

omit [Hardware] in
/-- The running process goes to the back of the queue and the head of the queue
is dispatched. -/
theorem Told.preempt {n : Proc} (h : s.Told) (hLive : ∀ p, t.Live p → s.Live p)
    (hAgenda : t.agenda = ((s.agenda.ready s.runningProc).dispatch n).run n) : t.Told := by
  intro p hp
  have hIdle := (hLive p hp).1
  have hTells := h p (hLive p hp)
  rw [hAgenda]
  unfold Agenda.ready
  split_ifs with hRunning
  · refine Agenda.Tells.run_dispatch hTells.ready (fun _ hState => hIdle ?_) hIdle
    exact (hTells.running.mp hState).trans hRunning
  · by_cases he : p = s.runningProc
    · refine Agenda.Tells.run_dispatch ?_ (fun _ => ?_) hIdle
      · simp [he]
      · simp [he]
    · refine Agenda.Tells.run_dispatch ?_ (fun _ => ?_) hIdle
      · simpa [Function.update_of_ne he, Ne.symm he] using hTells.ready
      · simpa [Function.update_of_ne he] using fun hState => he (hTells.running.mp hState)

theorem Told.exit {code : Word} (h : s.Told) (hLive : ∀ p, t.Live p → p ≠ s.runningProc ∧ s.Live p)
    (hExit : s.kernelExit code = .ok t) : t.Told := by
  obtain ⟨-, marked, detached, rfl, hQuiet, rfl⟩ := kernelExit_cases hExit
  intro p hp
  obtain ⟨hNe, hLived⟩ := hLive p hp
  have hTells := h p hLived
  have hMarked : (s.getNextProcess.1.modifyPcb s.runningProc fun p =>
      { p with exitCode := code, state := .exited }).agenda =
      (s.agenda.dispatch s.getNextProcess.2).mark s.runningProc .exited := by
    rw [← agenda_getNextProcess]
    exact agenda_mark rfl
  rw [agenda_fullContextSwitch, agenda_quiet hQuiet, hMarked]
  have hDispatch : ((s.agenda.dispatch s.getNextProcess.2).run s.getNextProcess.2).Tells p :=
    Agenda.Tells.run_dispatch hTells.ready (fun _ hState => hNe (hTells.running.mp hState)) hLived.1
  refine ⟨?_, ?_⟩
  · simpa [Agenda.run, Agenda.mark_state_of_ne hNe] using hDispatch.ready
  · simpa [Agenda.run, Agenda.mark_state_of_ne hNe] using hDispatch.running

theorem agenda_createNewPcb {uc : UserContext} {o : Outcomes} {child : Proc}
    (h : s.createNewPcb uc o = (t, some child)) : t.agenda = s.agenda.mark s.numPcbs .ready := by
  obtain ⟨-, mem, pcb, rfl, -, hState, -⟩ := createNewPcb_eq h
  have hMark := agenda_mark (s := s) (p := s.numPcbs) (f := fun _ => pcb) hState
  exact hMark

theorem Told.fork {o : Outcomes} (h : s.Told) (hSound : KernelStart.Sound s)
    (hLive : ∀ p, p ≠ s.numPcbs → t.Live p → s.Live p) (hFork : s.kernelFork o = .ok t) : t.Told := by
  obtain ⟨created, copied, hCreate, hCopied, hResult⟩ := kernelFork_cases hFork
  have hNew : s.numPcbs ≠ s.agenda.idleProc := hSound.contexts.idle_lt.ne'
  have hRunning : s.numPcbs ≠ s.agenda.runningProc := hSound.running_lt.ne'
  have hStart : copied.agenda = s.agenda.mark s.numPcbs .ready :=
    (agenda_quiet hCopied).trans (agenda_createNewPcb hCreate)
  rcases hResult with rfl | ⟨cloned, hCloned, hResult⟩
  · intro p hp
    have hNe : p ≠ s.numPcbs := by
      rintro rfl
      have hFreed : ((copied.freePcb s.numPcbs).pcb s.numPcbs).freed = true := by
        simp [freePcb, modifyPcb, emit]
      rw [hp.2.2.1] at hFreed
      cases hFreed
    have hTells := h p (hLive p hNe hp)
    have hSame : (copied.freePcb s.numPcbs).agenda = copied.agenda :=
      (agenda_emit _ fun _ => rfl).trans (agenda_modifyPcb rfl)
    rw [hSame, hStart]
    refine ⟨?_, ?_⟩
    · rw [Agenda.mark_log, Agenda.mark_state_of_ne hNe, hTells.ready]
    · rw [Agenda.mark_runningProc, Agenda.mark_state_of_ne hNe, hTells.running]
  · have hAgenda : t.agenda = (s.agenda.mark s.numPcbs .ready).ready s.numPcbs := by
      have hClonedAgenda : cloned.agenda = (s.agenda.mark s.numPcbs .ready).ready s.numPcbs := by
        rw [agenda_quiet hCloned, agenda_scheduleProcess, hStart]
      rcases hResult with rfl | rfl
      · exact hClonedAgenda
      · exact (agenda_modifyPcb rfl).trans hClonedAgenda
    intro p hp
    rw [hAgenda, Agenda.ready, Agenda.mark_idleProc, if_neg hNew]
    by_cases hNe : p = s.numPcbs
    · subst hNe
      refine ⟨by simp, ?_⟩
      simpa using hRunning
    · have hTells := h p (hLive p hNe hp)
      refine ⟨?_, ?_⟩
      · simpa [Function.update_of_ne hNe, Agenda.mark_state_of_ne hNe, Ne.symm hNe] using hTells.ready
      · simpa [Function.update_of_ne hNe, Agenda.mark_state_of_ne hNe] using hTells.running

/-- The calls that block mark their caller, unless they wait for a lock or a
condition variable. -/
theorem agenda_parks {label : Label} {kc : KernelContext} {parked : Kernel} (hParks : Parks label s kc parked)
    (hLock : ∀ id, kc ≠ .acquire id ∧ kc ≠ .semDown id) (hWait : label.waitsWith = none) :
    parked.agenda = s.agenda.mark s.runningProc .waiting := by
  cases hParks with
  | sleep hSleep => exact agenda_putToSleep hSleep
  | wait => exact agenda_waitBlockProcess s _
  | lock hKc =>
      rcases hKc with rfl | rfl
      · exact absurd rfl (hLock _).1
      · exact absurd rfl (hLock _).2
  | cvar hCall => simp [hWait] at hCall
  | pipe => exact agenda_pipeBlock s _
  | ttyRead => exact agenda_ttyReadBlock s _ _ _
  | ttyWrite => exact agenda_ttyWriteBlock s _ _

theorem agenda_preempt (s : Kernel) : ∃ n, s.preempt.agenda =
    ((s.agenda.ready s.runningProc).dispatch n).run n := by
  have hChosen : (s.scheduleProcess s.runningProc).getNextProcess.1.agenda =
      (s.agenda.ready s.runningProc).dispatch (s.scheduleProcess s.runningProc).getNextProcess.2 := by
    rw [agenda_getNextProcess, agenda_scheduleProcess]
  refine ⟨(s.scheduleProcess s.runningProc).getNextProcess.2, ?_⟩
  unfold preempt
  dsimp only
  split_ifs with hSame
  · rw [agenda_fullContextSwitch, hChosen]
  · have hRunning : s.runningProc = (s.scheduleProcess s.runningProc).getNextProcess.2 := by
      simpa using hSame
    have hKept : ((s.agenda.ready s.runningProc).dispatch
        (s.scheduleProcess s.runningProc).getNextProcess.2).runningProc = s.runningProc := by
      simp only [Agenda.dispatch, Agenda.mark_runningProc, Agenda.ready]
      split_ifs <;> rfl
    exact hChosen.trans (Agenda.run_eq (hKept.trans hRunning)).symm

/-- Every effect but the three that move a process without a mark. -/
theorem Told.effect {label : Label} (h : s.Told) (hSound : KernelStart.Sound s) (hEffect : Effect label s t)
    (hLock : label.locks = none) (hWait : label.waitsWith = none) (hClock : label.isClock = false) :
    t.Told := by
  have hAfter : KernelStart.Sound t := hSound.effects hEffect.one
  obtain ⟨others, hOutcome⟩ := hSound.settled.effect hSound.contexts hEffect
  cases hOutcome.live with
  | exit _ hExit hLive => exact h.exit (fun p hp => (hLive p).mp hp) hExit
  | fork hUser hFork _ =>
      refine h.fork hSound (fun p hp hLive => ?_) hFork
      exact (Settled.live_kernelFork hFork hp).mp hLive
  | same hSame =>
      have hLive : ∀ p, t.Live p → s.Live p := fun p hp => hSame ▸ hp
      have hKeep : t.agenda = s.agenda → t.Told := h.of_agenda hLive
      have hReady : Agenda.Readies s.agenda t.agenda → t.Told := h.readies hAfter hLive
      cases hEffect with
      | quiet hQuiet => exact hKeep (agenda_quiet hQuiet.toQuiet)
      | ticked hCall => simp [hClock] at hCall
      | @block parked quiet kc hUser hParks hQuiet hCall =>
          have hRunning := hSound.settled.live_running hUser
          refine h.block (n := quiet.getNextProcess.2) hRunning hSound hLive ?_
          rw [agenda_switchAway, agenda_quiet hQuiet.toQuiet, agenda_parks hParks (fun id => ?_) hWait]
          constructor <;> rintro rfl
          · simpa [hLock] using hCall id (Or.inl rfl)
          · simpa [hLock] using hCall id (Or.inr rfl)
      | sleepless hUser hSleep =>
          have hRunning := hSound.settled.live_running hUser
          have hAgenda : t.agenda = s.agenda := by
            rw [agenda_putToSleep_fail hSleep]
            refine Agenda.mark_mark ?_
            exact (h _ hRunning).running.mpr rfl
          exact hKeep hAgenda
      | preempt hMode =>
          obtain ⟨n, hAgenda⟩ := agenda_preempt s
          exact h.preempt hLive hAgenda
      | exit hUser hExit => 
          obtain ⟨-, -, -, hDead⟩ := hSound.settled.kernelExit hUser hExit
          exact h.exit (fun p hp => (hDead p).mp hp) hExit
      | fork hUser hFork hCall => exact h.fork hSound (fun p _ => hLive p) hFork
      | reap _ _ hFound => exact hKeep (agenda_quiet (Quiet.findExitedChild hFound))
      | newLock => exact hKeep (agenda_newLock s _ _ _)
      | newCvar => exact hKeep rfl
      | newPipe => exact hKeep (agenda_newPipe s _ _)
      | deleteLock => exact hKeep (agenda_deleteLock s _ _)
      | deleteCvar => exact hKeep (agenda_deleteCvar s _ _)
      | pipeReclaim => exact hKeep (agenda_pipeReclaim s _)
      | acquire hUser hAcquire => exact hKeep (agenda_fst (agenda_acquire s _ _ _) hAcquire)
      | @release _ id hUser hCall hRelease =>
          have hSteps := readies_release s id s.runningProc false
          rw [hRelease] at hSteps
          exact hReady hSteps
      | @signal popped id waiter hPop =>
          refine hReady ?_
          rw [← agenda_fst (agenda_popCvar s id) hPop]
          exact readies_reacquire popped waiter
      | pipeRead => exact hKeep (agenda_emit _ fun _ => rfl)
      | pipeWrite hPipe hGrown =>
          refine hReady (Relation.ReflTransGen.trans (Agenda.Readies.refl_of ?_) (readies_wakeReaders _ _ _))
          exact agenda_emit _ fun _ => rfl
      | wakeWaiter hFind hCall => simp [hClock] at hCall
      | wakeSleeper hRoot hDue hRemove hCall => simp [hClock] at hCall
      | transmitted => exact hReady (readies_ttyTransmitDone s _)
      | received => exact hReady (readies_ttyReceiveDone s _ _ _)
      | resumed => exact hKeep rfl
      | written => exact hKeep (agenda_ttyWriteReturn { s with mode := .user } _)

omit [Hardware] in
theorem Told.quiet (h : s.Told) (hQuiet : Quiet s t) : t.Told :=
  h.of_agenda (fun p hp => (hQuiet.live_iff p).mp hp) (agenda_quiet hQuiet)

theorem Told.read (h : s.Told) (hSound : KernelStart.Sound s) (id len : Nat) : (s.read id len).Told := by
  refine h.of_agenda (fun p hp => ?_) (agenda_read s id len)
  obtain ⟨place, hPlace⟩ := ((hSound.read id len).settled.placement.live p).mpr hp
  rw [contents_read hSound] at hPlace
  exact hSound.settled.placement.live_of_mem hPlace

omit [Hardware] in
theorem Told.user (h : s.Told) : { s with mode := .user }.Told := h.of_agenda (fun _ hp => hp) rfl

omit [Hardware] in
/-- The lock or semaphore has no permit for the running process, which does not
hold it. -/
def Contended (s : Kernel) (id : Nat) : Prop :=
  (s.locks.entries id).inUse = true ∧ ¬s.locks.Holds (s.pcb s.runningProc).pid id ∧
    (s.locks.entries id).val ≤ 0

omit [Hardware] in
/-- The condition variable exists and the running process holds the lock. -/
def MayWait (s : Kernel) (cvarId lockId : Nat) : Prop :=
  (s.cvars.entries cvarId).inUse = true ∧ s.locks.Holds (s.pcb s.runningProc).pid lockId

/-- The step moves no process without setting its state: it asks for no lock or
semaphore that is taken, waits for no condition variable, and finds no sleeper
that is due. -/
def Marks (s : Kernel) (label : Label) : Prop :=
  (∀ id ∈ label.locks, ¬s.Contended id) ∧
    (∀ ids ∈ label.waitsOn, ¬s.MayWait ids.1 ids.2) ∧
    (label.isClock = true → ∀ p ∈ s.contents .sleeping, ¬s.ticked.Due p)

instance (locks : Table Lock) (pid id : Nat) : Decidable (locks.Holds pid id) :=
  inferInstanceAs (Decidable (_ ∧ _))

instance (s : Kernel) (id : Nat) : Decidable (s.Contended id) :=
  inferInstanceAs (Decidable (_ ∧ ¬_ ∧ _))

instance (s : Kernel) (cvarId lockId : Nat) : Decidable (s.MayWait cvarId lockId) :=
  inferInstanceAs (Decidable (_ ∧ _))

instance (s : Kernel) (label : Label) : Decidable (s.Marks label) :=
  inferInstanceAs (Decidable (_ ∧ _ ∧ (_ → _)))

theorem contended_of_need {id : Nat} (h : KernelStart.Sound s)
    (hNeed : s.acquire id s.runningProc false = (t, .need)) : s.Contended id := by
  unfold acquire at hNeed
  dsimp only at hNeed
  split at hNeed
  · cases hNeed
  rename_i hFail
  simp only [not_or, Bool.not_eq_true, Bool.not_eq_false] at hFail
  obtain ⟨-, hUse, hFree⟩ := hFail
  have hLock : LockInv (s.locks.entries id) _ _ _ := h.settled.sync.lock id hUse
  rw [hLock.find_eq, find_fst, decide_eq_false_iff_not] at hFree
  split at hNeed
  · cases hNeed
  · rename_i hVal
    exact ⟨hUse, fun hHolds => hFree hHolds.2, not_lt.mp hVal⟩

theorem mayWait_of_waitCvar {cvarId lockId : Nat} (h : KernelStart.Sound s)
    (hWait : s.waitCvar cvarId lockId s.runningProc = (t, true)) : s.MayWait cvarId lockId := by
  obtain ⟨released, hRelease, -⟩ := waitCvar_spec hWait
  obtain ⟨hUse, hFound, -⟩ := release_spec hRelease
  unfold waitCvar at hWait
  split_ifs at hWait with hFail
  · simp at hWait
  · simp only [not_or, Bool.not_eq_false] at hFail
    exact ⟨hFail.2, hUse, mem_of_find h hUse hFound⟩

/-- A call on a lock or semaphore that does not have to wait. -/
theorem Told.acquireImpl {isId : Word → Bool} {kc : Nat → KernelContext} (h : s.Told)
    (hSound : KernelStart.Sound s)
    (hFree : ¬(isId (s.reg 0) = true ∧ s.Contended (getId (s.reg 0)))) : (s.acquireImpl isId kc).Told := by
  unfold Kernel.acquireImpl
  dsimp only
  split_ifs with hId
  · exact h.quiet (.ret s _)
  · split
    · rename_i u hAcquire
      obtain rfl := eq_of_acquire_error hAcquire
      exact h.quiet (.ret u _)
    · rename_i u hAcquire
      have hLive := live_acquire s (getId (s.reg 0)) s.runningProc false
      rw [hAcquire] at hLive
      have hKept : u.Told := h.of_agenda (fun p hp => hLive ▸ hp) (agenda_fst (agenda_acquire s _ _ _) hAcquire)
      exact hKept.quiet (.ret u _)
    · rename_i u hAcquire
      exact absurd ⟨by simpa using hId, contended_of_need hSound hAcquire⟩ hFree

theorem Told.kernelCvarWait (h : s.Told) (hSound : KernelStart.Sound s)
    (hFail : ¬(isCvarId (s.reg 0) = true ∧ isLockId (s.reg 1) = true ∧
      s.MayWait (getId (s.reg 0)) (getId (s.reg 1)))) : s.kernelCvarWait.Told := by
  unfold Kernel.kernelCvarWait
  dsimp only
  split_ifs with hArgs
  · exact h.quiet (.ret s _)
  · simp only [not_or, Bool.not_eq_false] at hArgs
    split
    · rename_i u hWait
      exact absurd ⟨hArgs.1, hArgs.2, mayWait_of_waitCvar hSound hWait⟩ hFail
    · rename_i u hWait
      obtain rfl := eq_of_waitCvar_false hWait
      exact h.quiet (.ret u _)

theorem Told.wakeWaiters {label : Label} (hCall : label.isClock = true) (h : s.Told)
    (hSound : KernelStart.Sound s) (shrinkOk : Nat → Bool) (fuel : Nat) : (s.wakeWaiters shrinkOk fuel).Told := by
  induction fuel generalizing s with
  | zero => exact h
  | succ fuel ih =>
      unfold Kernel.wakeWaiters
      split
      · rename_i u hFind
        obtain rfl := eq_of_findBlockedFrom_none hFind
        exact h
      · rename_i u proc hFind
        have hWake : Effect label s (u.scheduleProcess proc) := .wakeWaiter hFind hCall
        have hNext := hSound.effects hWake.one
        obtain ⟨rest, others, -, -, hFrame, -⟩ := hSound.settled.wakeWaiter hSound.settled.hand hFind
        refine ih (h.readies hNext (fun p hp => hFrame.live ▸ hp) ?_) hNext
        rw [agenda_scheduleProcess, ← agenda_fst (agenda_findWaiter s _) hFind]
        exact .single ⟨proc, rfl⟩

omit [Hardware] in
/-- No sleeper is due, so the heap stays as it is. -/
theorem wakeSleepers_eq (hNone : ∀ p ∈ s.contents .sleeping, ¬s.Due p) (shrinkOk : Nat → Bool) (fuel : Nat) :
    s.wakeSleepers shrinkOk fuel = s := by
  cases fuel with
  | zero => rfl
  | succ fuel =>
      unfold wakeSleepers
      split
      · rfl
      · rename_i root hRoot
        have hIn : root ∈ s.contents .sleeping := Array.mem_toList_iff.mpr (Array.mem_of_getElem? hRoot)
        rw [if_neg]
        intro hDue
        apply hNone root hIn
        simpa [Due, BitVec.sle_iff_toInt_le] using hDue

/-- A clock tick at which no sleeper is due. -/
theorem Told.clock {uc : UserContext} {o : Outcomes} (h : s.Told) (hSound : KernelStart.Sound s)
    (hNone : ∀ p ∈ s.contents .sleeping, ¬s.ticked.Due p) :
    (s.trapClockHandler uc o).Told := by
  have hCall : (Label.clock uc o).isClock = true := rfl
  have hCount : Effect (.clock uc o) s s.ticked := .ticked hCall
  have hTicked := hSound.effects hCount.one
  obtain ⟨hClock, hSleepers, hAlarm⟩ := asleep_wakeWaiters hCall hTicked (fun i => o.alloc (2 * i))
    (s.ticked.queues .waitBlocking).length
  have hWaiters : (s.ticked.wakeWaiters (fun i => o.alloc (2 * i)) (s.ticked.queues .waitBlocking).length).Told := (h.quiet (Quiet.ticked s)).wakeWaiters hCall hTicked (fun i => o.alloc (2 * i))
    (s.ticked.queues .waitBlocking).length
  have hEffects := effects_wakeWaiters hCall s.ticked (fun i => o.alloc (2 * i))
    (s.ticked.queues .waitBlocking).length
  obtain ⟨woken, hWoken⟩ : ∃ woken, woken = s.ticked.wakeWaiters (fun i => o.alloc (2 * i))
      (s.ticked.queues .waitBlocking).length := ⟨_, rfl⟩
  rw [← hWoken] at hClock hSleepers hAlarm hWaiters hEffects
  have hTick : s.tick o = woken.wakeSleepers (fun i => o.alloc (2 * i + 1)) woken.sleepers.arr.size :=
    hWoken ▸ rfl
  have hStill : s.tick o = woken := by
    rw [hTick]
    apply wakeSleepers_eq
    intro p hp
    rw [contents, hSleepers] at hp
    rw [Due, hAlarm p hp, numTicks_of_clock hClock]
    exact hNone p hp
  have hAwake : (s.tick o).Told := hStill ▸ hWaiters
  have hSave := Silent.saveUc (s.tick o) uc
  have hSaved := (hStill ▸ hTicked.effects hEffects : KernelStart.Sound (s.tick o)).quiet hSave.toQuiet
  obtain ⟨others, -, hFrame⟩ := hSaved.settled.preempt
  obtain ⟨n, hAgenda⟩ := agenda_preempt ((s.tick o).saveUc uc)
  have hPreempted := (hAwake.quiet hSave.toQuiet).preempt (fun p hp => hFrame.live ▸ hp) hAgenda
  exact hPreempted.quiet (Quiet.leave _)

omit [Hardware] in
theorem contended_saveUc {uc : UserContext} {id : Nat} : (s.saveUc uc).Contended id ↔ s.Contended id := by
  simp [Contended, saveUc, modifyPcb]

omit [Hardware] in
theorem mayWait_saveUc {uc : UserContext} {cvarId lockId : Nat} :
    (s.saveUc uc).MayWait cvarId lockId ↔ s.MayWait cvarId lockId := by
  simp [MayWait, saveUc, modifyPcb]

/-- One step of a run that moves nobody without setting the state. -/
theorem Told.step {label : Label} (h : s.Told) (hSound : KernelStart.Sound s) (hMarks : s.Marks label)
    (hStep : s.step label = .ok t) : t.Told := by
  have hRest (hLock : label.locks = none) (hWait : label.waitsWith = none) (hClock : label.isClock = false) :
      t.Told := by
    refine hSound.preserve (I := Told) (fun u v hu hOld hEffect => hOld.effect hu hEffect hLock hWait hClock)
      h hStep (fun uc o id len _ _ hSaved hOld => hOld.read hSaved id len) fun o id _ _ _ => ?_
    exact h.user.read hSound.user id _
  have hSaved (uc : UserContext) : (s.saveUc uc).Told ∧ KernelStart.Sound (s.saveUc uc) :=
    ⟨h.quiet (Silent.saveUc s uc).toQuiet, hSound.quiet (Silent.saveUc s uc).toQuiet⟩
  cases label with
  | clock uc o =>
      simp only [Kernel.step] at hStep
      split_ifs at hStep
      obtain rfl := Except.ok.inj hStep
      exact h.clock hSound (hMarks.2.2 rfl)
  | syscall call uc o =>
      have hTrap {u : Kernel} (hDispatch : (s.saveUc uc).dispatch call o = .ok u) (hTold : u.Told) :
          t.Told := by
        simp only [Kernel.step] at hStep
        split_ifs at hStep
        obtain ⟨v, hSame, hLeave⟩ := bind_eq_ok.mp hStep
        obtain rfl := Except.ok.inj hLeave
        obtain rfl := Except.ok.inj (hDispatch.symm.trans hSame)
        exact hTold.quiet (Quiet.leave u)
      cases call with
      | acquire =>
          refine hTrap rfl ((hSaved uc).1.acquireImpl (hSaved uc).2 ?_)
          rw [reg_saveUc, contended_saveUc]
          exact fun hCall => hMarks.1 _ (by simp [Label.locks, hCall.1]) hCall.2
      | semDown =>
          refine hTrap rfl ((hSaved uc).1.acquireImpl (hSaved uc).2 ?_)
          rw [reg_saveUc, contended_saveUc]
          exact fun hCall => hMarks.1 _ (by simp [Label.locks, hCall.1]) hCall.2
      | cvarWait =>
          refine hTrap rfl ((hSaved uc).1.kernelCvarWait (hSaved uc).2 ?_)
          rw [reg_saveUc, reg_saveUc, mayWait_saveUc]
          intro hCall
          have hIds : (Label.syscall .cvarWait uc o).waitsOn = some (getId (uc.regs 0), getId (uc.regs 1)) :=
            if_pos (by simp [hCall.1, hCall.2.1])
          exact hMarks.2.1 _ hIds hCall.2.2
      | _ => exact hRest rfl rfl rfl
  | _ => exact hRest rfl rfl rfl

end Told

/-- The process is in the sleep heap, a queue of waiting processes, or it owns
the transmitter of a terminal. -/
def Waits (s : Kernel) (p : Proc) : Prop :=
  p ∈ s.contents .sleeping ∨ p ∈ s.contents (.queue (.sched .waitBlocking)) ∨
    (∃ id, p ∈ s.contents (.queue (.lock id)) ∨ p ∈ s.contents (.queue (.cvar id)) ∨
      p ∈ s.contents (.queue (.pipe id))) ∨
    ∃ tty, p ∈ s.contents (.queue (.reader tty)) ∨ p ∈ s.contents (.queue (.writer tty)) ∨
      p ∈ s.contents (.transmitting tty)

theorem waits_iff [Hardware] {s : Kernel} {p : Proc} (hWaiting : s.Waiting) :
    s.Waits p ↔ ∃ a : Place, a.isBlocked = true ∧ p ∈ s.contents a := by
  constructor
  · rintro (hp | hp | ⟨id, hp | hp | hp⟩ | ⟨tty, hp | hp | hp⟩)
    all_goals exact ⟨_, rfl, hp⟩
  · rintro ⟨a, hBlocked, hp⟩
    cases a with
    | sleeping => exact Or.inl hp
    | transmitting tty => exact Or.inr (Or.inr (Or.inr ⟨tty, Or.inr (Or.inr hp)⟩))
    | cpu | hand => cases hBlocked
    | queue q =>
        cases q with
        | sched type =>
            cases type with
            | main => cases hBlocked
            | waitBlocking => exact Or.inr (Or.inl hp)
            | ioBlocking =>
                obtain ⟨_, -, hAt⟩ := hWaiting _ hBlocked p hp
                cases hAt
        | lock id => exact Or.inr (Or.inr (Or.inl ⟨id, Or.inl hp⟩))
        | cvar id => exact Or.inr (Or.inr (Or.inl ⟨id, Or.inr (Or.inl hp)⟩))
        | pipe id => exact Or.inr (Or.inr (Or.inl ⟨id, Or.inr (Or.inr hp)⟩))
        | reader tty => exact Or.inr (Or.inr (Or.inr ⟨tty, Or.inl hp⟩))
        | writer tty => exact Or.inr (Or.inr (Or.inr ⟨tty, Or.inr (Or.inl hp)⟩))

end Kernel

namespace KernelStart

open Kernel

section Runs

variable [Hardware] {s : Kernel} {p : Proc}

theorem agenda_kernelStart (uctxt : UserContext) (early late : List Word) :
    (kernelStart uctxt early late).agenda = (bootPcbs uctxt).agenda.ready 1 := by
  have hReady := agenda_scheduleProcess
    ((bootPcbs uctxt).setMem (bootMemory (bootPcbs uctxt).mem early late)) 1
  unfold kernelStart
  dsimp only
  split_ifs
  · exact (agenda_modifyPcb rfl).trans hReady
  · exact hReady

theorem told_kernelStart (uctxt : UserContext) (early late : List Word) : (kernelStart uctxt early late).Told := by
  obtain ⟨kc, -, hCpu⟩ := cpu_kernelStart uctxt early late
  have hIdle : (kernelStart uctxt early late).idleProc = 0 := congrArg Cpu.idleProc hCpu
  have hSize : (kernelStart uctxt early late).numPcbs = 2 := congrArg Cpu.numPcbs hCpu
  intro p hp
  have hFirst : p = 1 := by
    have hNe := hp.1
    have hLt := hp.2.1
    rw [hIdle] at hNe
    rw [hSize] at hLt
    exact Nat.le_antisymm (Nat.le_of_lt_succ hLt) (Nat.pos_of_ne_zero hNe)
  subst hFirst
  rw [agenda_kernelStart]
  exact ⟨by simp [Agenda.ready, agenda, bootPcbs, createNewPcb, bootOutcomes, image],
    by simp [Agenda.ready, agenda, bootPcbs, createNewPcb, bootOutcomes, image]⟩

theorem told_reach (run : system.Reach (fun s label => s.Marks label) s) : s.Told := by
  refine run.invariant (I := Told) ?_ fun s label t hRun hTold hMarks hStep => ?_
  · rintro s ⟨uctxt, early, late, rfl⟩
    exact told_kernelStart uctxt early late
  · exact hTold.step (sound_reachable hRun.reachable) hMarks hStep

/-- The exit of a process is recorded exactly when its state says so. -/
theorem exited_iff (run : system.Reachable s) (hKept : s.Kept p) :
    (s.pcb p).state = .exited ↔ ∃ code, .exited p code ∈ s.trace := by
  obtain ⟨kids, -, hRegistry⟩ := lineage_reachable run
  constructor
  · intro hState
    have hGone : ¬s.Live p := fun hLive => hLive.2.2.2 hState
    exact ⟨_, mem_trace_of_log (hRegistry.exited p hKept hGone)⟩
  · rintro ⟨code, hExited⟩
    have hLog : .exited p code ∈ s.kin.log := List.mem_filter.mpr ⟨hExited, rfl⟩
    by_contra hState
    exact (hRegistry.exited_dead p code hLog).2 ⟨hKept.ne_idle, hKept.lt, hKept.freed, hState⟩

end Runs

/-- As long as no process is moved without a mark, the state field of every
process that was not freed says where it is. -/
theorem state_tells [Hardware] {s : Kernel} {p : Proc} (run : system.Reach (fun s label => s.Marks label) s)
    (hIdle : p ≠ s.idleProc) (hLt : p < s.numPcbs) (hKept : (s.pcb p).freed = false) :
    ((s.pcb p).state = .running ↔ p = s.runningProc) ∧
    ((s.pcb p).state = .ready ↔ p ∈ s.contents (.queue (.sched .main))) ∧
    ((s.pcb p).state = .exited ↔ ∃ code, .exited p code ∈ s.trace) ∧
    ((s.pcb p).state = .waiting ↔ s.Waits p) := by
  have hSound := sound_reachable run.reachable
  have hExited := exited_iff run.reachable ⟨hIdle, hLt, hKept⟩
  have hPlacement := hSound.settled.placement
  have hField : s.agenda.state p = (s.pcb p).state := if_neg hIdle
  have hWaits := waits_iff (p := p) (waiting_reachable run.reachable)
  by_cases hState : (s.pcb p).state = .exited
  · have hDead : ∀ a, p ∉ s.contents a := fun a hp => (hPlacement.live_of_mem hp).2.2.2 hState
    have hOther : p ≠ s.runningProc := by
      rintro rfl
      refine hDead .cpu ?_
      simp [contents, onCpu, hIdle]
    refine ⟨?_, ?_, hExited, ?_⟩
    · simp [hState, hOther]
    · simp [hState, hDead]
    · rw [hWaits]
      simp [hState, hDead]
  · have hLive : s.Live p := ⟨hIdle, hLt, hKept, hState⟩
    have hTells := told_reach run p hLive
    have hReady : (s.pcb p).state = .ready ↔ p ∈ s.contents (.queue (.sched .main)) := by
      rw [mem_main hSound, hTells.ready, hField]
    have hRunning : (s.pcb p).state = .running ↔ p = s.runningProc := by
      rw [← hField]
      exact hTells.running
    refine ⟨hRunning, hReady, hExited, ?_⟩
    have hCpu : p ∈ s.contents .cpu ↔ p = s.runningProc := by
      unfold contents onCpu
      split_ifs with hNone
      · simpa [hNone] using hIdle
      · exact List.mem_singleton
    rw [hWaits]
    constructor
    · intro hWaiting
      obtain ⟨a, ha⟩ := (hPlacement.live p).mpr hLive
      have hNotCpu : a ≠ .cpu := by
        rintro rfl
        rw [hRunning.mpr (hCpu.mp ha)] at hWaiting
        cases hWaiting
      have hNotMain : a ≠ .queue (.sched .main) := by
        rintro rfl
        rw [hReady.mpr ha] at hWaiting
        cases hWaiting
      refine ⟨a, ?_, ha⟩
      cases a with
      | cpu => exact absurd rfl hNotCpu
      | hand => cases ha
      | sleeping | transmitting tty => rfl
      | queue q =>
          cases q with
          | sched type =>
              cases type with
              | main => exact absurd rfl hNotMain
              | _ => rfl
          | _ => rfl
    · rintro ⟨a, hBlocked, ha⟩
      have hElsewhere {b : Place} (hb : b.isBlocked = false) : p ∉ s.contents b := by
        refine hPlacement.placed.not_mem_of_ne ha ?_
        rintro rfl
        rw [hBlocked] at hb
        cases hb
      cases hNow : (s.pcb p).state with
      | running => exact absurd (hCpu.mpr (hRunning.mp hNow)) (hElsewhere rfl)
      | ready => exact absurd (hReady.mp hNow) (hElsewhere rfl)
      | waiting => rfl
      | exited => exact absurd hNow hState

open Sample in
/-- A child that its parent has just forked. -/
theorem state_tells_child : ∃ s : Kernel, system.Reach (fun s label => s.Marks label) s ∧
    (s.pcb 2).state = .ready ∧ 2 ∈ s.contents (.queue (.sched .main)) := by
  have hRun : ∃ s : Kernel, system.Reach (fun s label => s.Marks label) s ∧
      2 ≠ s.idleProc ∧ 2 < s.numPcbs ∧ (s.pcb 2).freed = false ∧ (s.pcb 2).state = .ready :=
    Transition.System.exists_reach (turn ++ [call .fork []]) initial_booted (by decide +kernel)
  obtain ⟨s, run, hIdle, hLt, hKept, hState⟩ := hRun
  exact ⟨s, run, hState, (state_tells run hIdle hLt hKept).2.1.mp hState⟩

open Sample in
/-- A process that asked for a lock another one holds still counts as running
when the holder continues. -/
theorem state_tells_fails : ∃ s : Kernel, system.Reachable s ∧ s.mode = .user ∧ 2 ≠ s.idleProc ∧
    2 < s.numPcbs ∧ (s.pcb 2).freed = false ∧ 2 ∈ s.contents (.queue (.lock 0)) ∧ s.Waits 2 ∧
    (s.pcb 2).state = .running ∧ s.runningProc = 1 := by
  obtain ⟨s, run, hMode, hIdle, hLt, hKept, hQueue, hState, hRunning⟩ := Transition.System.exists_reachable
    (P := fun s : Kernel => s.mode = .user ∧ 2 ≠ s.idleProc ∧ 2 < s.numPcbs ∧ (s.pcb 2).freed = false ∧
      2 ∈ s.contents (.queue (.lock 0)) ∧ (s.pcb 2).state = .running ∧ s.runningProc = 1)
    (turn ++ [call .lockInit [208], call .acquire [createId lockFlag 0], call .fork []] ++ turn ++
      [call .acquire [createId lockFlag 0], .resume outcomes]) initial_booted (by decide +kernel)
  exact ⟨s, run, hMode, hIdle, hLt, hKept, hQueue, Or.inr (Or.inr (Or.inl ⟨0, Or.inl hQueue⟩)), hState, hRunning⟩

end KernelStart
end Yalnix
