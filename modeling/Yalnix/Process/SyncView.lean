import Yalnix.Process.Switch

/-! What the effects do to locks, semaphores and condition variables: only the
calls on them change them. -/
namespace Yalnix

open Hardware

/-- The tables of locks and condition variables, and the locks of waiters. -/
structure SyncView where
  locks : Table Lock
  cvars : Table Cvar
  lockIds : Proc → Nat

namespace Kernel

variable {s t : Kernel}

def syncView (s : Kernel) : SyncView := ⟨s.locks, s.cvars, fun p => (s.pcb p).cvarLockId⟩

theorem syncView_modifyPcb {p : Proc} {f : Pcb → Pcb}
    (h : (f (s.pcb p)).cvarLockId = (s.pcb p).cvarLockId) : (s.modifyPcb p f).syncView = s.syncView := by
  have hLockIds : (fun q => ((s.modifyPcb p f).pcb q).cvarLockId) = fun q => (s.pcb q).cvarLockId :=
    funext fun q => pcb_modifyPcb (v := Pcb.cvarLockId) h q
  simp only [syncView, hLockIds]
  rfl

theorem syncView_quiet (h : Quiet s t) : t.syncView = s.syncView := by
  simp only [syncView, h.locks, h.cvars, h.cvarLockId]

theorem syncView_fst {β : Type} {r : Kernel × β} {b : β} (hView : r.1.syncView = s.syncView)
    (h : r = (t, b)) : t.syncView = s.syncView := by
  rw [h] at hView
  exact hView

@[simp] theorem syncView_setState (s : Kernel) (p : Proc) (state : ProcessState) :
    (s.setState p state).syncView = s.syncView := syncView_modifyPcb rfl
@[simp] theorem syncView_emit (s : Kernel) (e : Event) : (s.emit e).syncView = s.syncView := rfl
@[simp] theorem syncView_setMem (s : Kernel) (mem : Memory) : (s.setMem mem).syncView = s.syncView := rfl
@[simp] theorem syncView_setNext (s : Kernel) (next : Proc → Option Proc) :
    (s.setNext next).syncView = s.syncView := rfl
@[simp] theorem syncView_setTty (s : Kernel) (id : Nat) (tty : Tty) :
    (s.setTty id tty).syncView = s.syncView := rfl
@[simp] theorem syncView_setPipe (s : Kernel) (id : Nat) (pipe : Pipe) :
    (s.setPipe id pipe).syncView = s.syncView := rfl
@[simp] theorem syncView_enqueProcess (s : Kernel) (type : QueueType) (p : Proc) :
    (s.enqueProcess type p).syncView = s.syncView := rfl

@[simp] theorem syncView_scheduleProcess (s : Kernel) (p : Proc) :
    (s.scheduleProcess p).syncView = s.syncView := by
  unfold scheduleProcess
  split_ifs <;> simp

@[simp] theorem syncView_waitBlockProcess (s : Kernel) (p : Proc) :
    (s.waitBlockProcess p).syncView = s.syncView := by
  simp [waitBlockProcess]

@[simp] theorem syncView_getNextProcess (s : Kernel) : s.getNextProcess.1.syncView = s.syncView := by
  have h : s.dequeProcess.1.syncView = s.syncView := by
    unfold dequeProcess
    dsimp only
    split
    · rfl
    · split <;> rfl
  unfold getNextProcess
  split <;> rename_i hDeque <;> simpa [hDeque] using h

@[simp] theorem syncView_putToSleep (s : Kernel) (p : Proc) (ticks : Word) (growOk : Bool) :
    (s.putToSleep p ticks growOk).1.syncView = s.syncView := by
  unfold putToSleep
  dsimp only
  split
  · rename_i u hAdd
    have hHeap : u.syncView = (s.modifyPcb p fun pcb =>
        { pcb with wakeUp := s.numTicks + ticks, state := .waiting }).syncView := by
      unfold addToHeap at hAdd
      dsimp only at hAdd
      split_ifs at hAdd <;> cases hAdd <;> rfl
    exact hHeap.trans (syncView_modifyPcb rfl)
  · rw [syncView_setState]
    exact syncView_modifyPcb rfl

@[simp] theorem syncView_removeFromHeap (s : Kernel) (shrinkOk : Bool) :
    (s.removeFromHeap shrinkOk).1.syncView = s.syncView := by
  unfold removeFromHeap
  split <;> rfl

theorem syncView_findWaiter (s : Kernel) (shrinkOk : Bool) :
    (s.findBlockedProcess .waitBlocking (waitUnblockCond shrinkOk)).1.syncView = s.syncView := by
  have h (fuel : Nat) (prev curr : Option Proc) :
      (s.findBlockedFrom .waitBlocking (waitUnblockCond shrinkOk) fuel prev curr).1.syncView = s.syncView := by
    induction fuel generalizing prev curr with
    | zero => cases curr <;> rfl
    | succ fuel ih =>
        cases curr with
        | none => rfl
        | some curr =>
            unfold findBlockedFrom
            split
            · exact ih _ _
            · rename_i u hFound
              have hSame := syncView_quiet (Quiet.waitUnblockCond hFound)
              exact hSame
  exact h _ _ _

theorem syncView_wakeReaders (s : Kernel) (id fuel : Nat) : (s.wakeReaders id fuel).syncView = s.syncView := by
  induction fuel generalizing s with
  | zero => rfl
  | succ fuel ih =>
      unfold wakeReaders
      split
      · rfl
      · rw [ih]
        simp

@[simp] theorem syncView_ttyReadBlock (s : Kernel) (id : Nat) (buf : Word) (len : Nat) :
    (s.ttyReadBlock id buf len).syncView = s.syncView := by
  unfold ttyReadBlock
  rw [syncView_setState]
  exact syncView_modifyPcb (s := s) (p := s.runningProc)
    (f := fun p => { p with ioUserBuf := buf, ioLen := len, ioTtyId := id }) rfl

@[simp] theorem syncView_ttyWriteReturn (s : Kernel) (id : Nat) :
    (s.ttyWriteReturn id).syncView = s.syncView := by
  unfold ttyWriteReturn
  rw [syncView_emit, syncView_quiet (.ret _ _)]
  exact syncView_modifyPcb rfl

theorem syncView_ttyDeliver (s : Kernel) (id : Nat) (line : List Byte) :
    (s.ttyDeliver id line).syncView = s.syncView := by
  have hPop : ((s.appendLine id line).rqPop id).1.syncView = s.syncView := by
    unfold rqPop
    split <;> rfl
  unfold ttyDeliver
  split <;> rename_i hReader <;> simpa [hReader] using hPop

theorem syncView_ttyReceiveDone (s : Kernel) (ttyId : Int) (line : List Byte) (lineOk : Bool)
    [Hardware] : (s.ttyReceiveDone ttyId line lineOk).syncView = s.syncView := by
  unfold ttyReceiveDone
  split_ifs
  · rfl
  · rfl
  · exact syncView_ttyDeliver s _ line

variable [Hardware]

@[simp] theorem syncView_startChunk (s : Kernel) (id : Nat) : (s.startChunk id).syncView = s.syncView := by
  unfold startChunk
  split <;> rfl

@[simp] theorem syncView_ttyWriteBlock (s : Kernel) (id : Nat) (bytes : List Byte) :
    (s.ttyWriteBlock id bytes).syncView = s.syncView := by
  have hRecord : (s.ttyRecord id bytes).syncView = s.syncView :=
    syncView_modifyPcb (s := s) (p := s.runningProc) (f := fun p =>
      { p with ioKbuf := bytes, ioTotal := bytes.length, ioSent := 0, ioTtyId := id }) rfl
  unfold ttyWriteBlock
  dsimp only
  rw [syncView_setState]
  split
  · rw [syncView_startChunk, syncView_setTty, hRecord]
  · exact hRecord

theorem syncView_ttyTransmitDone (s : Kernel) (ttyId : Int) :
    (s.ttyTransmitDone ttyId).syncView = s.syncView := by
  have hHandOver (u : Kernel) (id : Nat) : (u.ttyHandOver id).syncView = u.syncView := by
    have hPop : (u.wqPop id).1.syncView = u.syncView := by
      unfold wqPop
      split <;> rfl
    unfold ttyHandOver
    split <;> rename_i hWriter <;> simpa [hWriter] using hPop
  unfold ttyTransmitDone
  dsimp only
  split_ifs
  · rfl
  split
  · rfl
  rename_i owner hOwner
  have hDone : ((s.emit (.ttyTransmitTrap ttyId.toNat)).ttyChunkDone ttyId.toNat owner).syncView =
      s.syncView :=
    syncView_modifyPcb (s := s) (p := owner) (f := fun p =>
      { p with ioSent := p.ioSent + (s.ttys ttyId.toNat).txLastChunk }) rfl
  split_ifs
  · rw [syncView_startChunk, hDone]
  · rw [ttyFinish, hHandOver, syncView_scheduleProcess]
    exact hDone

theorem syncView_fullContextSwitch (s : Kernel) (curr : Option (Proc × KernelContext)) (next : Proc) :
    (s.fullContextSwitch curr next).syncView = s.syncView := by
  cases curr with
  | none => rfl
  | some saved =>
      exact syncView_modifyPcb (s := s) (p := saved.1) (f := fun p => { p with kc := some saved.2 }) rfl

@[simp] theorem syncView_switchAway (s : Kernel) (kc : KernelContext) :
    (s.switchAway kc).syncView = s.syncView := by
  rw [switchAway, syncView_fullContextSwitch, syncView_getNextProcess]

theorem syncView_preempt (s : Kernel) : s.preempt.syncView = s.syncView := by
  unfold preempt
  dsimp only
  split_ifs
  · rw [syncView_fullContextSwitch, syncView_getNextProcess, syncView_scheduleProcess]
  · rw [syncView_getNextProcess, syncView_scheduleProcess]

theorem syncView_kernelExit {code : Word} (h : s.kernelExit code = .ok t) : t.syncView = s.syncView := by
  obtain ⟨-, marked, detached, rfl, hQuiet, rfl⟩ := kernelExit_cases h
  rw [syncView_fullContextSwitch, syncView_quiet hQuiet, syncView_modifyPcb rfl, syncView_getNextProcess]

/-- A fork concerns the new process only. -/
theorem syncView_kernelFork {o : Outcomes} (h : s.kernelFork o = .ok t) : t.locks = s.locks ∧
    t.cvars = s.cvars ∧ ∀ p, p ≠ s.numPcbs → (t.pcb p).cvarLockId = (s.pcb p).cvarLockId := by
  obtain ⟨created, copied, hCreate, hCopied, hResult⟩ := kernelFork_cases h
  obtain ⟨-, mem, pcb, rfl, -⟩ := createNewPcb_eq hCreate
  have hView : t.syncView = copied.syncView := by
    rcases hResult with rfl | ⟨cloned, hCloned, rfl | rfl⟩
    · rw [freePcb, syncView_emit]
      exact syncView_modifyPcb rfl
    · rw [syncView_quiet hCloned, syncView_scheduleProcess]
    · rw [syncView_modifyPcb rfl, syncView_quiet hCloned, syncView_scheduleProcess]
  rw [syncView_quiet hCopied] at hView
  refine ⟨congrArg SyncView.locks hView, congrArg SyncView.cvars hView, fun p hp => ?_⟩
  refine (congrFun (congrArg SyncView.lockIds hView) p).trans ?_
  exact congrArg Pcb.cvarLockId (Function.update_of_ne hp _ _)

/-- The calls on locks, semaphores and condition variables. -/
inductive SyncStep (label : Label) (s : Kernel) : SyncView → Prop where
  | newLock {capacity : Nat} {growOk pidsOk : Bool} (hCall : label.capacity = some capacity) :
      SyncStep label s (s.newLock capacity growOk pidsOk).1.syncView
  | newCvar {growOk : Bool} (hCall : label.creates = some .cvar) : SyncStep label s (s.newCvar growOk).1.syncView
  | deleteLock {id : Nat} {shrinkOk : Bool} : SyncStep label s (s.deleteLock id shrinkOk).1.syncView
  | deleteCvar {id : Nat} {shrinkOk : Bool} : SyncStep label s (s.deleteCvar id shrinkOk).1.syncView
  | acquire {t : Kernel} {id : Nat} {result : Synchronization.Acquired} (hUser : s.inUser)
      (h : s.acquire id s.runningProc false = (t, result)) (hResult : result ≠ .error) :
      SyncStep label s t.syncView
  | release {t : Kernel} {id : Nat} (hUser : s.inUser) (hCall : label.releases = some id)
      (h : s.release id s.runningProc false = (t, true)) : SyncStep label s t.syncView
  | wait {t : Kernel} {cvarId lockId : Nat} (hUser : s.inUser) (hCall : label.waitsWith = some lockId)
      (h : s.waitCvar cvarId lockId s.runningProc = (t, true)) : SyncStep label s t.syncView
  | signal {t : Kernel} {id : Nat} {waiter : Proc} (h : s.popCvar id = (t, some waiter)) :
      SyncStep label s (t.reacquire waiter).syncView

/-- Nothing happens to locks and condition variables. -/
structure SameSync (s t : Kernel) : Prop where
  locks : t.locks = s.locks
  cvars : t.cvars = s.cvars
  lockId : ∀ p < s.numPcbs, (t.pcb p).cvarLockId = (s.pcb p).cvarLockId

omit [Hardware] in
theorem SameSync.of_view (h : t.syncView = s.syncView) : SameSync s t :=
  ⟨congrArg SyncView.locks h, congrArg SyncView.cvars h,
    fun p _ => congrFun (congrArg SyncView.lockIds h) p⟩

theorem sync_effect {label : Label} (h : Effect label s t) :
    SyncStep label s t.syncView ∨ SameSync s t := by
  cases h with
  | quiet hQuiet => exact Or.inr (.of_view (syncView_quiet hQuiet.toQuiet))
  | ticked => exact Or.inr (.of_view (syncView_quiet (.ticked s)))
  | reap _ _ hFound => exact Or.inr (.of_view (syncView_quiet (.findExitedChild hFound)))
  | @block parked u kc hUser hParks hQuiet =>
      have hSwitch : (u.switchAway kc).syncView = parked.syncView :=
        (syncView_switchAway u kc).trans (syncView_quiet hQuiet.toQuiet)
      cases hParks with
      | sleep h => exact Or.inr (.of_view (hSwitch.trans (syncView_fst (syncView_putToSleep s _ _ _) h)))
      | wait => exact Or.inr (.of_view (hSwitch.trans (syncView_waitBlockProcess s _)))
      | lock _ h =>
          rw [hSwitch]
          exact Or.inl (.acquire hUser h (by simp))
      | cvar hCall h =>
          rw [hSwitch]
          exact Or.inl (.wait hUser hCall h)
      | pipe => exact Or.inr (.of_view (hSwitch.trans (syncView_setState _ _ _)))
      | ttyRead => exact Or.inr (.of_view (hSwitch.trans (syncView_ttyReadBlock s _ _ _)))
      | ttyWrite => exact Or.inr (.of_view (hSwitch.trans (syncView_ttyWriteBlock s _ _)))
  | sleepless _ h => exact Or.inr (.of_view (syncView_fst (syncView_putToSleep s _ _ _) h))
  | preempt => exact Or.inr (.of_view (syncView_preempt s))
  | exit _ h => exact Or.inr (.of_view (syncView_kernelExit h))
  | fork _ h =>
      obtain ⟨hLocks, hCvars, hLockId⟩ := syncView_kernelFork h
      exact Or.inr ⟨hLocks, hCvars, fun p hp => hLockId p (Nat.ne_of_lt hp)⟩
  | newLock _ hCall => exact Or.inl (.newLock hCall)
  | newCvar hCall => exact Or.inl (.newCvar hCall)
  | newPipe =>
      refine Or.inr (.of_view ?_)
      unfold newPipe
      dsimp only
      split <;> rfl
  | deleteLock => exact Or.inl .deleteLock
  | deleteCvar => exact Or.inl .deleteCvar
  | pipeReclaim =>
      refine Or.inr (.of_view ?_)
      unfold pipeReclaim
      split
      · rfl
      · split_ifs <;> rfl
  | acquire hUser h => exact Or.inl (.acquire hUser h (by simp))
  | release hUser hCall h => exact Or.inl (.release hUser hCall h)
  | signal h => exact Or.inl (.signal h)
  | pipeRead => exact Or.inr (.of_view rfl)
  | pipeWrite => exact Or.inr (.of_view (syncView_wakeReaders _ _ _))
  | wakeWaiter h =>
      exact Or.inr (.of_view ((syncView_scheduleProcess _ _).trans
        (syncView_fst (syncView_findWaiter s _) h)))
  | wakeSleeper _ _ h =>
      have hSame := syncView_fst (syncView_removeFromHeap s _) h
      exact Or.inr (.of_view hSame)
  | transmitted => exact Or.inr (.of_view (syncView_ttyTransmitDone s _))
  | received => exact Or.inr (.of_view (syncView_ttyReceiveDone s _ _ _))
  | resumed => exact Or.inr (.of_view rfl)
  | written => exact Or.inr (.of_view (syncView_ttyWriteReturn { s with mode := .user } _))

end Kernel
end Yalnix
