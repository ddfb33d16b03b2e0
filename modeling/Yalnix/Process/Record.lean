import Yalnix.Process.Waiting

/-! The records of a process that its moves between containers leave alone: its
place in the family tree, its saved registers and its wake-up time. Few effects
change them, and these are listed here. -/
namespace Yalnix

open Hardware

/-- What a process finds again when it continues. -/
def Pcb.saved (p : Pcb) : UserContext × Word := (p.uc, p.wakeUp)

namespace Kernel

variable {s t : Kernel}

theorem record_of_records (h : t.records = s.records) (p : Proc) : (t.pcb p).record = (s.pcb p).record :=
  congrFun (congrArg Records.pcb h) p

theorem uc_of_records (h : t.records = s.records) (p : Proc) : (t.pcb p).uc = (s.pcb p).uc :=
  (congrArg Pcb.uc (record_of_records h p) :)

theorem wakeUp_of_records (h : t.records = s.records) (p : Proc) : (t.pcb p).wakeUp = (s.pcb p).wakeUp :=
  (congrArg Pcb.wakeUp (record_of_records h p) :)

theorem clock_of_records (h : t.records = s.records) : t.clock = s.clock := congrArg Records.clock h

theorem numTicks_of_clock (h : t.clock = s.clock) : t.numTicks = s.numTicks := congrArg Prod.fst h

theorem kin_of_records (h : t.records = s.records) : t.kin = s.kin := by
  have hPcb (p : Proc) := record_of_records h p
  have hLog : t.trace.filter Event.isKin = s.trace.filter Event.isKin := congrArg Records.log h
  have hRelations (p : Proc) : (t.pcb p).relations = (s.pcb p).relations := (congrArg Pcb.relations (hPcb p) :)
  have hCode (p : Proc) : (t.pcb p).exitCode = (s.pcb p).exitCode := (congrArg Pcb.exitCode (hPcb p) :)
  have hFreed (p : Proc) : (t.pcb p).freed = (s.pcb p).freed := (congrArg Pcb.freed (hPcb p) :)
  simp [kin, hLog, hRelations, hCode, hFreed]

section Scheduling

theorem records_modifyPcb {p : Proc} {f : Pcb → Pcb} (h : (f (s.pcb p)).record = (s.pcb p).record) :
    (s.modifyPcb p f).records = s.records := by
  simp only [records, pcb_modifyPcb h]
  rfl

@[simp] theorem records_setState (s : Kernel) (p : Proc) (state : ProcessState) :
    (s.setState p state).records = s.records := records_modifyPcb rfl

@[simp] theorem clock_emit (s : Kernel) {e : Event} (he : e ≠ .tick) : (s.emit e).clock = s.clock := by
  simp [clock, emit, List.count_append, he]

@[simp] theorem records_emit (s : Kernel) {e : Event} (he : e.isRecorded = false) :
    (s.emit e).records = s.records := by
  have hTick : e ≠ .tick := by
    rintro rfl
    cases he
  have hKin : e.isKin = false := by cases e <;> first | rfl | cases he
  have hClock := clock_emit s hTick
  simp only [records, hClock]
  simp [emit, dormant, hKin]

@[simp] theorem records_setMem (s : Kernel) (mem : Memory) : (s.setMem mem).records = s.records := rfl
@[simp] theorem records_setNext (s : Kernel) (next : Proc → Option Proc) :
    (s.setNext next).records = s.records := rfl
@[simp] theorem records_setLock (s : Kernel) (id : Nat) (lock : Lock) :
    (s.setLock id lock).records = s.records := rfl
@[simp] theorem records_setCvar (s : Kernel) (id : Nat) (cvar : Cvar) :
    (s.setCvar id cvar).records = s.records := rfl
@[simp] theorem records_setPipe (s : Kernel) (id : Nat) (pipe : Pipe) :
    (s.setPipe id pipe).records = s.records := rfl
@[simp] theorem records_setTty (s : Kernel) (id : Nat) (tty : Tty) :
    (s.setTty id tty).records = s.records := rfl
@[simp] theorem records_enqueProcess (s : Kernel) (p : Proc) :
    (s.enqueProcess .main p).records = s.records := rfl

@[simp] theorem records_scheduleProcess (s : Kernel) (p : Proc) :
    (s.scheduleProcess p).records = s.records := by
  unfold scheduleProcess
  split_ifs
  · rfl
  · rw [records_emit _ rfl, records_enqueProcess, records_setState]

@[simp] theorem records_dequeProcess (s : Kernel) : s.dequeProcess.1.records = s.records := by
  unfold dequeProcess
  dsimp only
  split
  · rfl
  · split <;> rfl

@[simp] theorem records_getNextProcess (s : Kernel) : s.getNextProcess.1.records = s.records := by
  have h := records_dequeProcess s
  unfold getNextProcess
  split <;> rename_i hDeque <;> rw [hDeque] at h
  · rw [records_emit _ rfl]
    exact h
  · rw [records_emit _ rfl, records_setState]
    exact h

@[simp] theorem records_fullContextSwitch [Hardware] (s : Kernel) (curr : Option (Proc × KernelContext))
    (next : Proc) : (s.fullContextSwitch curr next).records = s.records := by
  cases curr with
  | none => rfl
  | some curr =>
      exact records_modifyPcb (s := { s.setMem (UserMemory.ucSwitch s.mem next) with runningProc := next })
        (p := curr.1) (f := fun p => { p with kc := some curr.2 }) rfl

@[simp] theorem records_switchAway [Hardware] (s : Kernel) (kc : KernelContext) :
    (s.switchAway kc).records = s.records := by
  simp [switchAway]

@[simp] theorem records_preempt [Hardware] (s : Kernel) : s.preempt.records = s.records := by
  unfold preempt
  dsimp only
  split_ifs <;> simp

theorem removeFromHeap_eq {shrinkOk : Bool} {p : Option Proc} (h : s.removeFromHeap shrinkOk = (t, p)) :
    t = { s with sleepers := t.sleepers } := by
  unfold removeFromHeap at h
  split at h <;> obtain ⟨rfl, -⟩ := Prod.mk.inj h <;> rfl

theorem addToHeap_eq {p : Proc} {growOk : Bool} (h : s.addToHeap p growOk = some t) :
    t = { s with sleepers := t.sleepers } := by
  unfold addToHeap at h
  dsimp only at h
  split_ifs at h <;> cases h <;> rfl

/-- The state a function returns beside its result. -/
theorem records_fst {β : Type} {r : Kernel × β} {b : β} (hRecords : r.1.records = s.records)
    (h : r = (t, b)) : t.records = s.records := by
  subst h
  exact hRecords

end Scheduling

section Objects

@[simp] theorem records_newLock (s : Kernel) (capacity : Nat) (growOk pidsOk : Bool) :
    (s.newLock capacity growOk pidsOk).1.records = s.records := by
  unfold newLock
  dsimp only
  split
  · rfl
  · exact records_emit _ rfl

@[simp] theorem records_deleteLock (s : Kernel) (id : Nat) (shrinkOk : Bool) :
    (s.deleteLock id shrinkOk).1.records = s.records := by
  unfold deleteLock
  dsimp only
  split_ifs
  · rfl
  · exact records_emit _ rfl

@[simp] theorem records_deleteCvar (s : Kernel) (id : Nat) (shrinkOk : Bool) :
    (s.deleteCvar id shrinkOk).1.records = s.records := by
  unfold deleteCvar
  dsimp only
  split_ifs <;> rfl

@[simp] theorem records_newPipe [Hardware] (s : Kernel) (growOk bufOk : Bool) :
    (s.newPipe growOk bufOk).1.records = s.records := by
  unfold newPipe
  dsimp only
  split
  · rfl
  · exact records_emit _ rfl

@[simp] theorem records_pipeReclaim (s : Kernel) (id : Nat) : (s.pipeReclaim id).1.records = s.records := by
  unfold pipeReclaim
  split
  · rfl
  · split_ifs
    · rfl
    · exact records_emit _ rfl

@[simp] theorem records_acquire (s : Kernel) (id : Nat) (p : Proc) (cvarUse : Bool) :
    (s.acquire id p cvarUse).1.records = s.records := by
  unfold acquire
  dsimp only
  split
  · rfl
  · split
    · rw [records_emit _ rfl, records_setLock, records_emit _ rfl]
    · rw [records_setLock, records_setNext, records_emit _ rfl]

@[simp] theorem records_release (s : Kernel) (id : Nat) (p : Proc) (cvarUse : Bool) :
    (s.release id p cvarUse).1.records = s.records := by
  unfold release
  dsimp only
  split
  · rfl
  · split
    · rw [records_setLock, records_emit _ rfl]
    · rw [records_scheduleProcess, records_emit _ rfl, records_setLock, records_setNext, records_emit _ rfl]

@[simp] theorem records_waitCvar (s : Kernel) (cvarId lockId : Nat) (p : Proc) :
    (s.waitCvar cvarId lockId p).1.records = s.records := by
  have h := records_release s lockId p true
  unfold waitCvar
  split
  · rfl
  · split <;> rename_i u hRelease <;> rw [hRelease] at h
    · exact h
    · have hBound : (u.modifyPcb p fun pcb => { pcb with cvarLockId := lockId }).records = u.records :=
        records_modifyPcb rfl
      exact hBound.trans h

@[simp] theorem records_popCvar (s : Kernel) (id : Nat) : (s.popCvar id).1.records = s.records := by
  unfold popCvar
  dsimp only
  split <;> rfl

@[simp] theorem records_reacquire (s : Kernel) (p : Proc) : (s.reacquire p).records = s.records := by
  have h := records_acquire s (s.pcb p).cvarLockId p true
  unfold reacquire
  split <;> rename_i hAcquire <;> rw [hAcquire] at h
  · rw [records_scheduleProcess]
    exact h
  · exact h

@[simp] theorem records_wakeReaders (s : Kernel) (id fuel : Nat) :
    (s.wakeReaders id fuel).records = s.records := by
  induction fuel generalizing s with
  | zero => rfl
  | succ fuel ih =>
      unfold wakeReaders
      split
      · rfl
      · rw [ih, records_scheduleProcess, records_setPipe, records_setNext]

end Objects

section Terminals

@[simp] theorem records_startChunk [Hardware] (s : Kernel) (id : Nat) :
    (s.startChunk id).records = s.records := by
  unfold startChunk
  split
  · rfl
  · exact records_emit _ rfl

@[simp] theorem records_appendLine (s : Kernel) (id : Nat) (line : List Byte) :
    (s.appendLine id line).records = s.records := records_emit _ rfl

@[simp] theorem records_consume (s : Kernel) (id len : Nat) : (s.consume id len).1.records = s.records := by
  unfold consume
  split
  · rfl
  · dsimp only
    split_ifs <;> rfl

@[simp] theorem records_read (s : Kernel) (id len : Nat) : (s.read id len).records = s.records := by
  rw [Kernel.read, records_emit _ rfl, records_consume]

@[simp] theorem records_ttyDeliver (s : Kernel) (id : Nat) (line : List Byte) :
    (s.ttyDeliver id line).records = s.records := by
  have hPop : ((s.appendLine id line).rqPop id).1.records = s.records := by
    unfold rqPop
    split <;> exact records_appendLine s id line
  unfold ttyDeliver
  split <;> rename_i hResult <;> rw [hResult] at hPop
  · exact hPop
  · rw [records_scheduleProcess]
    exact hPop

@[simp] theorem records_ttyReceiveDone [Hardware] (s : Kernel) (ttyId : Int) (line : List Byte)
    (lineOk : Bool) : (s.ttyReceiveDone ttyId line lineOk).records = s.records := by
  unfold ttyReceiveDone
  split_ifs
  · rfl
  · rfl
  · exact records_ttyDeliver s _ line

@[simp] theorem records_ttyHandOver [Hardware] (s : Kernel) (id : Nat) :
    (s.ttyHandOver id).records = s.records := by
  have hPop : (s.wqPop id).1.records = s.records := by
    unfold wqPop
    split <;> rfl
  unfold ttyHandOver
  split <;> rename_i hResult <;> rw [hResult] at hPop
  · exact hPop
  · rw [records_startChunk, records_setTty]
    exact hPop

@[simp] theorem records_ttyChunkDone (s : Kernel) (id : Nat) (owner : Proc) :
    (s.ttyChunkDone id owner).records = s.records :=
  records_modifyPcb (s := s) (p := owner) (f := fun p =>
    { p with ioSent := p.ioSent + (s.ttys id).txLastChunk }) rfl

@[simp] theorem records_ttyTransmitDone [Hardware] (s : Kernel) (ttyId : Int) :
    (s.ttyTransmitDone ttyId).records = s.records := by
  unfold ttyTransmitDone
  dsimp only
  split
  · rfl
  · split
    · exact records_emit _ rfl
    · split
      · rw [records_startChunk, records_ttyChunkDone, records_emit _ rfl]
      · rw [ttyFinish, records_ttyHandOver, records_scheduleProcess, records_emit _ rfl, records_setTty,
          records_ttyChunkDone, records_emit _ rfl]

@[simp] theorem records_ttyWriteBlock [Hardware] (s : Kernel) (id : Nat) (bytes : List Byte) :
    (s.ttyWriteBlock id bytes).records = s.records := by
  have hRecord : (s.ttyRecord id bytes).records = s.records := by
    rw [ttyRecord, records_emit _ rfl]
    exact records_modifyPcb rfl
  unfold ttyWriteBlock
  dsimp only
  rw [records_setState]
  split
  · rw [records_startChunk, records_setTty, hRecord]
  · exact hRecord

theorem records_ttyReadBlock (s : Kernel) (id : Nat) (buf : Word) (len : Nat) :
    (s.ttyReadBlock id buf len).records = s.records := by
  have hRequest : (s.modifyPcb s.runningProc fun p =>
      { p with ioUserBuf := buf, ioLen := len, ioTtyId := id }).records = s.records := records_modifyPcb rfl
  rw [ttyReadBlock, records_setState]
  exact hRequest

end Terminals

end Kernel

/-- Only the running process gets other registers or another wake-up time. -/
structure Steady (s t : Kernel) : Prop where
  kin : t.kin = s.kin
  clock : t.clock = s.clock
  uc : ∀ p, p ≠ s.runningProc → (t.pcb p).uc = (s.pcb p).uc
  wakeUp : ∀ p, p ≠ s.runningProc → (t.pcb p).wakeUp = (s.pcb p).wakeUp

namespace Steady

variable {s t u : Kernel}

theorem of_records (h : t.records = s.records) : Steady s t :=
  ⟨Kernel.kin_of_records h, Kernel.clock_of_records h, fun p _ => Kernel.uc_of_records h p,
    fun p _ => Kernel.wakeUp_of_records h p⟩

theorem of_silent (h : Silent s t) : Steady s t := ⟨h.kin, h.clock, h.uc, h.wakeUp⟩

theorem trans (h : Steady s t) (hRunning : t.runningProc = s.runningProc) (h' : Steady t u) :
    Steady s u where
  kin := h'.kin.trans h.kin
  clock := h'.clock.trans h.clock
  uc p hp := (h'.uc p (by rwa [hRunning])).trans (h.uc p hp)
  wakeUp p hp := (h'.wakeUp p (by rwa [hRunning])).trans (h.wakeUp p hp)

theorem modifyPcb {f : Pcb → Pcb} (hKin : (s.modifyPcb s.runningProc f).kin = s.kin) :
    Steady s (s.modifyPcb s.runningProc f) where
  kin := hKin
  clock := rfl
  uc p hp := by simp [Kernel.modifyPcb, Function.update_of_ne hp]
  wakeUp p hp := by simp [Kernel.modifyPcb, Function.update_of_ne hp]

/-- Going to sleep sets the wake-up time. -/
theorem putToSleep {ticks : Word} {growOk ok : Bool} (h : s.putToSleep s.runningProc ticks growOk = (t, ok)) :
    Steady s t := by
  have hSet : Steady s (s.modifyPcb s.runningProc fun p =>
      { p with wakeUp := s.numTicks + ticks, state := .waiting }) := modifyPcb (Kernel.kin_modifyPcb rfl rfl rfl)
  unfold Kernel.putToSleep at h
  dsimp only at h
  split at h
  · rename_i u hAdd
    obtain ⟨rfl, -⟩ := Prod.mk.inj h
    refine hSet.trans rfl ?_
    rw [Kernel.addToHeap_eq hAdd]
    exact ⟨rfl, rfl, fun _ _ => rfl, fun _ _ => rfl⟩
  · obtain ⟨rfl, -⟩ := Prod.mk.inj h
    exact hSet.trans rfl (of_records (Kernel.records_setState _ _ _))

theorem parks [Hardware] {label : Label} {kc : KernelContext} (h : Parks label s kc t) : Steady s t := by
  cases h with
  | sleep hSleep => exact putToSleep hSleep
  | wait =>
      have hState := of_records (Kernel.records_setState s s.runningProc .waiting)
      exact ⟨hState.kin, hState.clock, hState.uc, hState.wakeUp⟩
  | lock _ hAcquire => exact of_records (Kernel.records_fst (Kernel.records_acquire s _ _ _) hAcquire)
  | cvar _ hWait => exact of_records (Kernel.records_fst (Kernel.records_waitCvar s _ _ _) hWait)
  | pipe =>
      apply of_records
      rw [Kernel.pipeBlock, Kernel.records_setState, Kernel.records_setPipe, Kernel.records_setNext]
  | ttyRead => exact of_records (Kernel.records_ttyReadBlock s _ _ _)
  | ttyWrite => exact of_records (Kernel.records_ttyWriteBlock s _ _)

end Steady

namespace Kernel

variable [Hardware] {label : Label} {s t : Kernel}

omit [Hardware] in
/-- The state of a clock trap when the tick is counted. -/
def ticked (s : Kernel) : Kernel := { s with numTicks := s.numTicks + 1 }.emit .tick

/-- The effects that change the records of other processes, or the clock. -/
inductive RecordStep (label : Label) (s : Kernel) : Kernel → Prop where
  | ticked (hCall : label.isClock = true) :
      RecordStep label s ({ s with numTicks := s.numTicks + 1 }.emit .tick)
  | exit {t : Kernel} {code : Word} (hUser : s.inUser) (hExit : s.kernelExit code = .ok t) : RecordStep label s t
  | fork {t : Kernel} {o : Outcomes} (hUser : s.inUser) (hFork : s.kernelFork o = .ok t)
      (hCall : label.forks = some o) : RecordStep label s t
  | reap {t : Kernel} {shrinkOk : Bool} {code : Word} (hUser : s.inUser) (hCall : label.waits ≠ none)
      (hFound : s.findExitedChild s.runningProc shrinkOk = some (t, code)) : RecordStep label s t
  | wakeWaiter {t : Kernel} {proc : Proc} {shrinkOk : Bool}
      (hFind : s.findBlockedProcess .waitBlocking (waitUnblockCond shrinkOk) = (t, some proc))
      (hCall : label.isClock = true) : RecordStep label s (t.scheduleProcess proc)
  | wakeSleeper {t : Kernel} {root proc : Proc} {shrinkOk : Bool} (hRoot : s.sleepers.arr[0]? = some root)
      (hDue : (s.pcb root).wakeUp.sle s.numTicks) (hRemove : s.removeFromHeap shrinkOk = (t, some proc))
      (hCall : label.isClock = true) : RecordStep label s ((t.enqueProcess .main proc).emit (.ready proc))

theorem runningProc_parks {kc : KernelContext} (h : Parks label s kc t) : t.runningProc = s.runningProc := by
  rcases cpu_parks h with ⟨hSame, -⟩ | ⟨_, _, _, _, _, _, hSame⟩
  · exact runningProc_of_cpu hSame
  · exact congrArg Cpu.runningProc hSame

omit [Hardware] in
theorem dormant_of_records (h : t.records = s.records) : t.dormant = s.dormant := congrArg Records.dormant h

omit [Hardware] in
theorem dormant_of_quiet (h : Quiet s t) : t.dormant = s.dormant := by rw [dormant, dormant, h.queues, h.sleepers]

omit [Hardware] in
/-- A process that does not get a place in the heap does not sleep. -/
theorem dormant_putToSleep {ticks : Word} {growOk : Bool}
    (h : s.putToSleep s.runningProc ticks growOk = (t, false)) : t.dormant = s.dormant := by
  unfold putToSleep at h
  dsimp only at h
  split at h
  · simp at h
  · obtain ⟨rfl, -⟩ := Prod.mk.inj h
    rfl

theorem dormant_kernelExit {code : Word} (h : s.kernelExit code = .ok t) : t.dormant = s.dormant := by
  obtain ⟨-, marked, detached, hMarked, hQuiet, rfl⟩ := kernelExit_cases h
  calc (detached.fullContextSwitch none s.getNextProcess.2).dormant
    _ = detached.dormant := dormant_of_records (records_fullContextSwitch _ _ _)
    _ = marked.dormant := dormant_of_quiet hQuiet
    _ = s.getNextProcess.1.dormant := by rw [hMarked]; rfl
    _ = s.dormant := dormant_of_records (records_getNextProcess s)

theorem dormant_kernelFork {o : Outcomes} (h : s.kernelFork o = .ok t) : t.dormant = s.dormant := by
  obtain ⟨created, copied, hCreate, hCopied, hResult⟩ := kernelFork_cases h
  have hFirst : copied.dormant = s.dormant := by
    obtain ⟨-, mem, pcb, rfl, -⟩ := createNewPcb_eq hCreate
    exact (dormant_of_quiet hCopied :)
  rcases hResult with rfl | ⟨cloned, hCloned, hResult⟩
  · exact hFirst
  · have hLast : cloned.dormant = s.dormant := by
      rw [dormant_of_quiet hCloned, dormant_of_records (records_scheduleProcess _ _), hFirst]
    rcases hResult with rfl | rfl
    · exact hLast
    · exact hLast

/-- The effects that fill or empty the containers that the clock empties. -/
inductive DormantStep (label : Label) (s : Kernel) : Kernel → Prop where
  | wait {t : Kernel} (hUser : s.inUser) (hQuiet : Silent (s.waitBlockProcess s.runningProc) t) :
      DormantStep label s (t.switchAway .wait)
  | sleep {parked t : Kernel} {ticks : Word} {growOk : Bool} (hUser : s.inUser)
      (hSleep : s.putToSleep s.runningProc ticks growOk = (parked, true)) (hQuiet : Silent parked t) :
      DormantStep label s (t.switchAway .delay)
  | wakeWaiter {t : Kernel} {proc : Proc} {shrinkOk : Bool}
      (hFind : s.findBlockedProcess .waitBlocking (waitUnblockCond shrinkOk) = (t, some proc))
      (hCall : label.isClock = true) : DormantStep label s (t.scheduleProcess proc)
  | wakeSleeper {t : Kernel} {root proc : Proc} {shrinkOk : Bool} (hRoot : s.sleepers.arr[0]? = some root)
      (hDue : (s.pcb root).wakeUp.sle s.numTicks) (hRemove : s.removeFromHeap shrinkOk = (t, some proc))
      (hCall : label.isClock = true) : DormantStep label s ((t.enqueProcess .main proc).emit (.ready proc))

theorem dormant_parks {parked u : Kernel} {kc : KernelContext} (hUser : s.inUser) (h : Parks label s kc parked)
    (hQuiet : Silent parked u) :
    (u.switchAway kc).dormant = s.dormant ∨ DormantStep label s (u.switchAway kc) := by
  have hSwitch : (u.switchAway kc).dormant = parked.dormant :=
    (dormant_of_records (records_switchAway u kc)).trans (dormant_of_quiet hQuiet.toQuiet)
  cases h with
  | sleep hSleep => exact Or.inr (.sleep hUser hSleep hQuiet)
  | wait => exact Or.inr (.wait hUser hQuiet)
  | lock _ hAcquire =>
      exact Or.inl (hSwitch.trans (dormant_of_records (records_fst (records_acquire s _ _ _) hAcquire)))
  | cvar _ hWait =>
      exact Or.inl (hSwitch.trans (dormant_of_records (records_fst (records_waitCvar s _ _ _) hWait)))
  | pipe =>
      refine Or.inl (hSwitch.trans (dormant_of_records ?_))
      rw [pipeBlock, records_setState, records_setPipe, records_setNext]
  | ttyRead => exact Or.inl (hSwitch.trans (dormant_of_records (records_ttyReadBlock s _ _ _)))
  | ttyWrite => exact Or.inl (hSwitch.trans (dormant_of_records (records_ttyWriteBlock s _ _)))

/-- Every other effect keeps all records, but for those of a running process
that is not about to continue a call. -/
theorem records_effect (h : Effect label s t) : t.records = s.records ∨
    Steady s t ∧ (s.mode = .user ∨ label.isResume = true) ∧
      (t.dormant = s.dormant ∨ DormantStep label s t) ∨ RecordStep label s t := by
  cases h with
  | quiet hQuiet hMode =>
      exact hMode.symm.imp id fun hUser =>
        Or.inl ⟨.of_silent hQuiet, Or.inl hUser, Or.inl (dormant_of_quiet hQuiet.toQuiet)⟩
  | ticked hCall => exact Or.inr (Or.inr (.ticked hCall))
  | @block parked u kc hUser hParks hQuiet =>
      have hParked := runningProc_parks hParks
      exact Or.inr (Or.inl ⟨((Steady.parks hParks).trans hParked (.of_silent hQuiet)).trans
        (hQuiet.runningProc.trans hParked) (.of_records (records_switchAway u kc)), Or.inl hUser.1,
        dormant_parks hUser hParks hQuiet⟩)
  | sleepless hUser hSleep =>
      exact Or.inr (Or.inl ⟨.putToSleep hSleep, Or.inl hUser.1, Or.inl (dormant_putToSleep hSleep)⟩)
  | preempt => exact Or.inl (records_preempt s)
  | exit hUser hExit => exact Or.inr (Or.inr (.exit hUser hExit))
  | fork hUser hFork hCall => exact Or.inr (Or.inr (.fork hUser hFork hCall))
  | reap hUser hCall hFound => exact Or.inr (Or.inr (.reap hUser hCall hFound))
  | newLock => exact Or.inl (records_newLock s _ _ _)
  | newCvar => exact Or.inl rfl
  | newPipe => exact Or.inl (records_newPipe s _ _)
  | deleteLock => exact Or.inl (records_deleteLock s _ _)
  | deleteCvar => exact Or.inl (records_deleteCvar s _ _)
  | pipeReclaim => exact Or.inl (records_pipeReclaim s _)
  | acquire _ hAcquire => exact Or.inl (records_fst (records_acquire s _ _ _) hAcquire)
  | release _ _ hRelease => exact Or.inl (records_fst (records_release s _ _ _) hRelease)
  | signal hPop =>
      exact Or.inl ((records_reacquire _ _).trans (records_fst (records_popCvar s _) hPop))
  | pipeRead => exact Or.inl (records_emit _ rfl)
  | pipeWrite =>
      exact Or.inl ((records_wakeReaders _ _ _).trans (records_emit _ rfl))
  | wakeWaiter hFind hCall => exact Or.inr (Or.inr (.wakeWaiter hFind hCall))
  | wakeSleeper hRoot hDue hRemove hCall => exact Or.inr (Or.inr (.wakeSleeper hRoot hDue hRemove hCall))
  | transmitted => exact Or.inl (records_ttyTransmitDone s _)
  | received => exact Or.inl (records_ttyReceiveDone s _ _ _)
  | resumed => exact Or.inl rfl
  | @written id _ _ hCall =>
      refine Or.inr (Or.inl ⟨?_, Or.inr hCall, Or.inl rfl⟩)
      have hCleared : Steady s ({ s with mode := .user }.modifyPcb s.runningProc fun p => { p with ioKbuf := [] }) :=
        .of_records (records_modifyPcb (s := { s with mode := .user }) rfl)
      have hReturn := (Silent.ret ({ s with mode := .user }.modifyPcb s.runningProc fun p =>
        { p with ioKbuf := [] }) (BitVec.ofNat 32 (s.pcb s.runningProc).ioTotal))
      exact (hCleared.trans rfl (.of_silent hReturn)).trans rfl (.of_records (records_emit _ rfl))

theorem steady_effect (h : Effect label s t) : Steady s t ∨ RecordStep label s t := by
  rcases records_effect h with hSame | ⟨hSteady, -⟩ | hStep
  · exact Or.inl (.of_records hSame)
  · exact Or.inl hSteady
  · exact Or.inr hStep

theorem dormant_effect (h : Effect label s t) : t.dormant = s.dormant ∨ DormantStep label s t := by
  rcases records_effect h with hSame | ⟨-, -, hStep⟩ | hStep
  · exact Or.inl (dormant_of_records hSame)
  · exact hStep
  · cases hStep with
    | ticked => exact Or.inl rfl
    | exit _ hExit => exact Or.inl (dormant_kernelExit hExit)
    | fork _ hFork => exact Or.inl (dormant_kernelFork hFork)
    | reap _ _ hFound => exact Or.inl (dormant_of_quiet (Quiet.findExitedChild hFound))
    | wakeWaiter hFind hCall => exact Or.inr (.wakeWaiter hFind hCall)
    | wakeSleeper hRoot hDue hRemove hCall => exact Or.inr (.wakeSleeper hRoot hDue hRemove hCall)

section Saved

variable {p q : Proc}

omit [Hardware] in
theorem saved_of_records (h : t.records = s.records) (p : Proc) : (t.pcb p).saved = (s.pcb p).saved := by
  rw [Pcb.saved, Pcb.saved, uc_of_records h, wakeUp_of_records h]

omit [Hardware] in
theorem saved_of_steady (h : Steady s t) (hp : p ≠ s.runningProc) : (t.pcb p).saved = (s.pcb p).saved := by
  rw [Pcb.saved, Pcb.saved, h.uc p hp, h.wakeUp p hp]

omit [Hardware] in
theorem saved_modifyPcb {f : Pcb → Pcb} (h : (f (s.pcb p)).saved = (s.pcb p).saved) (q : Proc) :
    ((s.modifyPcb p f).pcb q).saved = (s.pcb q).saved := pcb_modifyPcb h q

omit [Hardware] in
theorem saved_modifyPcb_of_ne {f : Pcb → Pcb} (hq : q ≠ p) :
    ((s.modifyPcb p f).pcb q).saved = (s.pcb q).saved := by
  simp [modifyPcb, Function.update_of_ne hq]

omit [Hardware] in
theorem saved_setResult {value : Word} (hq : q ≠ p) :
    ((s.setResult p value).pcb q).saved = (s.pcb q).saved := saved_modifyPcb_of_ne hq

omit [Hardware] in
theorem saved_freePcb (s : Kernel) (p q : Proc) : ((s.freePcb p).pcb q).saved = (s.pcb q).saved :=
  saved_modifyPcb (f := fun p => { p with freed := true }) rfl q

omit [Hardware] in
theorem saved_setRelations (s : Kernel) (p : Proc) (r : Relations) (q : Proc) :
    ((s.setRelations p r).pcb q).saved = (s.pcb q).saved :=
  saved_modifyPcb (f := fun p => { p with relations := r }) rfl q

omit [Hardware] in
theorem saved_retirePcb (s : Kernel) (p q : Proc) : ((s.retirePcb p).pcb q).saved = (s.pcb q).saved := by
  have hOrphan (s : Kernel) (slot : Option Proc) : ((s.orphan slot).pcb q).saved = (s.pcb q).saved := by
    unfold orphan
    split
    · rfl
    · split_ifs
      · exact saved_freePcb s _ q
      · exact saved_modifyPcb (f := fun p => { p with relations := { p.relations with hasParent := false } }) rfl q
  have hFold (s : Kernel) (r : Relations) (l : List Nat) :
      ((l.foldl (fun s i => s.orphan (r.children i)) s).pcb q).saved = (s.pcb q).saved := by
    induction l generalizing s with
    | nil => rfl
    | cons i l ih => exact (ih _).trans (hOrphan s _)
  unfold retirePcb
  dsimp only
  split_ifs
  · exact hFold _ _ _
  · exact (saved_freePcb _ _ q).trans (hFold _ _ _)

/-- An exit changes neither registers nor wake-up times. -/
theorem saved_kernelExit {code : Word} (h : s.kernelExit code = .ok t) (q : Proc) :
    (t.pcb q).saved = (s.pcb q).saved := by
  unfold kernelExit at h
  dsimp only at h
  split_ifs at h
  obtain rfl := Except.ok.inj h
  refine (saved_of_records (records_fullContextSwitch _ _ _) q).trans ((saved_retirePcb _ _ q).trans ?_)
  exact (saved_modifyPcb (s := s.getNextProcess.1) (f := fun p => { p with exitCode := code, state := .exited })
    rfl q).trans (saved_of_records (records_getNextProcess s) q)

omit [Hardware] in
theorem saved_addChildProc (s : Kernel) (parent child : Proc) (growOk : Bool) (q : Proc) :
    (((s.addChildProc parent child growOk).1).pcb q).saved = (s.pcb q).saved := by
  unfold addChildProc
  split
  · rfl
  · exact saved_setRelations s parent _ q

/-- A fork changes the registers of the two processes it returns to. -/
theorem saved_kernelFork {o : Outcomes} (h : s.kernelFork o = .ok t) (hq : q ≠ s.runningProc)
    (hNew : q ≠ s.numPcbs) : (t.pcb q).saved = (s.pcb q).saved := by
  unfold kernelFork at h
  dsimp only at h
  split at h
  · cases h
  · rename_i created child hCreate
    obtain ⟨rfl, mem, pcb, hCreated, -⟩ := createNewPcb_eq hCreate
    have hRunning : q ≠ created.runningProc := by rwa [hCreated]
    have hFirst : (created.pcb q).saved = (s.pcb q).saved := by
      rw [hCreated]
      exact congrArg Pcb.saved (Function.update_of_ne hNew _ _)
    obtain ⟨copied, -, h⟩ := Transition.bind_eq_ok.mp h
    split_ifs at h
    · obtain rfl := Except.ok.inj h
      have hLink (u : Kernel) (hu : q ≠ u.runningProc) :
          (((u.forkLink s.numPcbs o).scheduleProcess s.numPcbs).pcb q).saved = (u.pcb q).saved := by
        rw [saved_of_records (records_scheduleProcess _ _)]
        exact (saved_addChildProc _ _ _ _ q).trans ((saved_setResult hNew).trans (saved_setResult hu))
      have hUc : ((((created.setMem copied.1).modifyPcb s.numPcbs fun p =>
          { p with uc := (s.pcb s.runningProc).uc })).pcb q).saved = (s.pcb q).saved :=
        (saved_modifyPcb_of_ne hNew).trans hFirst
      unfold forkCommit
      dsimp only
      split_ifs
      · refine (saved_modifyPcb_of_ne hNew).trans ((hLink _ ?_).trans hUc)
        exact hRunning
      · refine (hLink _ ?_).trans hUc
        exact hRunning
    · obtain rfl := Except.ok.inj h
      rw [saved_freePcb, saved_retirePcb]
      exact (saved_setResult (s := created.setMem copied.1) hRunning).trans hFirst

omit [Hardware] in
theorem saved_findExitedChild {parent : Proc} {shrinkOk : Bool} {code : Word}
    (h : s.findExitedChild parent shrinkOk = some (t, code)) (q : Proc) : (t.pcb q).saved = (s.pcb q).saved := by
  simp only [findExitedChild, Option.bind_eq_bind, Option.bind_eq_some_iff, Option.some.injEq,
    Prod.mk.injEq] at h
  obtain ⟨i, -, child, -, rfl, -⟩ := h
  exact (saved_setRelations _ _ _ q).trans (saved_freePcb s child q)

omit [Hardware] in
/-- The clock reports a child to a process that waits, and wakes it. -/
def Woken (s t : Kernel) (p : Proc) : Prop := ∃ shrinkOk u,
  s.findBlockedProcess .waitBlocking (waitUnblockCond shrinkOk) = (u, some p) ∧ t = u.scheduleProcess p

/-- Registers and wake-up times of a process that does not run are changed by
the clock only, when it reports a child to a process. -/
theorem saved_effect (h : Effect label s t) (hAside : s.Aside label p) (hLt : p < s.numPcbs) :
    (t.pcb p).saved = (s.pcb p).saved ∨ ∃ proc, s.Woken t proc := by
  have hOther (hUser : s.inUser) : p ≠ s.runningProc := by
    intro hp
    have hMode := (hAside hp).1
    rw [hUser.1] at hMode
    cases hMode
  rcases records_effect h with hSame | ⟨hSteady, hUser, -⟩ | hStep
  · exact Or.inl (saved_of_records hSame p)
  · refine Or.inl (saved_of_steady hSteady fun hp => ?_)
    obtain ⟨hMode, hCall⟩ := hAside hp
    rcases hUser with hUser | hResume
    · rw [hUser] at hMode
      cases hMode
    · rw [hCall] at hResume
      cases hResume
  · cases hStep with
    | ticked => exact Or.inl rfl
    | exit _ hExit => exact Or.inl (saved_kernelExit hExit p)
    | fork hUser hFork => exact Or.inl (saved_kernelFork hFork (hOther hUser) (Nat.ne_of_lt hLt))
    | reap _ _ hFound => exact Or.inl (saved_findExitedChild hFound p)
    | wakeWaiter hFind => exact Or.inr ⟨_, _, _, hFind, rfl⟩
    | wakeSleeper _ _ hRemove =>
        rw [removeFromHeap_eq hRemove]
        exact Or.inl rfl

end Saved

section Clock

variable {p : Proc}

omit [Hardware] in
theorem clock_freePcb (s : Kernel) (p : Proc) : (s.freePcb p).clock = s.clock := clock_emit _ (by simp)

omit [Hardware] in
theorem clock_retirePcb (s : Kernel) (p : Proc) : (s.retirePcb p).clock = s.clock := by
  have hOrphan (s : Kernel) (slot : Option Proc) : (s.orphan slot).clock = s.clock := by
    unfold orphan
    split
    · rfl
    · split_ifs
      · exact clock_freePcb s _
      · rfl
  have hFold (s : Kernel) (r : Relations) (l : List Nat) :
      (l.foldl (fun s i => s.orphan (r.children i)) s).clock = s.clock := by
    induction l generalizing s with
    | nil => rfl
    | cons i l ih => exact (ih _).trans (hOrphan s _)
  unfold retirePcb
  dsimp only
  split_ifs
  · exact hFold _ _ _
  · exact (clock_freePcb _ _).trans (hFold _ _ _)

theorem clock_kernelExit {code : Word} (h : s.kernelExit code = .ok t) : t.clock = s.clock := by
  unfold kernelExit at h
  dsimp only at h
  split_ifs at h
  obtain rfl := Except.ok.inj h
  rw [clock_of_records (records_fullContextSwitch _ _ _), clock_retirePcb]
  exact (clock_emit _ (by simp)).trans (clock_of_records (records_getNextProcess s))

theorem clock_forkLink (s : Kernel) (child : Proc) (o : Outcomes) : (s.forkLink child o).clock = s.clock := by
  have hLink (u : Kernel) (parent : Proc) (growOk : Bool) :
      ((u.addChildProc parent child growOk).1.emit (.forked parent child)).clock = u.clock := by
    rw [clock_emit _ (by simp)]
    unfold addChildProc
    split <;> rfl
  exact hLink _ _ _

theorem clock_kernelFork {o : Outcomes} (h : s.kernelFork o = .ok t) : t.clock = s.clock := by
  unfold kernelFork at h
  dsimp only at h
  split at h
  · cases h
  · rename_i created child hCreate
    obtain ⟨rfl, mem, pcb, hCreated, -⟩ := createNewPcb_eq hCreate
    have hFirst : created.clock = s.clock := by
      rw [hCreated]
      rfl
    obtain ⟨copied, -, h⟩ := Transition.bind_eq_ok.mp h
    split_ifs at h
    · obtain rfl := Except.ok.inj h
      have hLink (u : Kernel) : ((u.forkLink s.numPcbs o).scheduleProcess s.numPcbs).clock = u.clock :=
        (clock_of_records (records_scheduleProcess _ _)).trans (clock_forkLink u s.numPcbs o)
      unfold forkCommit
      dsimp only
      split_ifs
      · exact (hLink _).trans hFirst
      · exact (hLink _).trans hFirst
    · obtain rfl := Except.ok.inj h
      rw [clock_freePcb, clock_retirePcb]
      exact hFirst

omit [Hardware] in
theorem clock_findExitedChild {parent : Proc} {shrinkOk : Bool} {code : Word}
    (h : s.findExitedChild parent shrinkOk = some (t, code)) : t.clock = s.clock := by
  simp only [findExitedChild, Option.bind_eq_bind, Option.bind_eq_some_iff, Option.some.injEq,
    Prod.mk.injEq] at h
  obtain ⟨i, -, child, -, rfl, -⟩ := h
  exact (clock_emit _ (by simp)).trans (clock_freePcb s child)

omit [Hardware] in
/-- Waking a process that waits for a child concerns nobody who sleeps. -/
theorem Woken.asleep {l : List Proc} (h : s.Woken t p)
    (hLinked : IntrusiveQueue.Chain s.next (s.queues .waitBlocking).ends.first l) :
    t.clock = s.clock ∧ t.sleepers = s.sleepers ∧
      ∀ q, q ≠ s.runningProc → (t.pcb q).wakeUp = (s.pcb q).wakeUp := by
  obtain ⟨shrinkOk, u, hFind, rfl⟩ := h
  obtain ⟨front, back, found, -, hCond, rfl⟩ := findBlockedFrom_some hLinked hFind
  have hQuiet := Quiet.waitUnblockCond hCond
  refine ⟨(clock_of_records (records_scheduleProcess _ p)).trans ?_,
    (congrArg Dormant.sleepers (dormant_of_records (records_scheduleProcess _ p))).trans hQuiet.sleepers, fun q hq =>
      (wakeUp_of_records (records_scheduleProcess _ p) q).trans (hQuiet.wakeUp q hq)⟩
  simp only [waitUnblockCond, Option.map_eq_some_iff] at hCond
  obtain ⟨⟨v, code⟩, hFound, rfl⟩ := hCond
  exact (clock_findExitedChild hFound :)

/-- Only a clock trap moves the clock, by one tick. -/
theorem clock_effect (hSound : KernelStart.Sound s) (h : Effect label s t) :
    t.clock = s.clock ∨ label.isClock = true ∧ t.clock = s.ticked.clock := by
  rcases records_effect h with hSame | ⟨hSteady, -⟩ | hStep
  · exact Or.inl (clock_of_records hSame)
  · exact Or.inl hSteady.clock
  · cases hStep with
    | ticked hCall => exact Or.inr ⟨hCall, rfl⟩
    | exit _ hExit => exact Or.inl (clock_kernelExit hExit)
    | fork _ hFork => exact Or.inl (clock_kernelFork hFork)
    | reap _ _ hFound => exact Or.inl (clock_findExitedChild hFound)
    | wakeWaiter hFind =>
        have hWoken : s.Woken _ _ := ⟨_, _, hFind, rfl⟩
        exact Or.inl (hWoken.asleep (hSound.settled.placement.linked (.sched .waitBlocking)).1).1
    | wakeSleeper _ _ hRemove =>
        refine Or.inl ((clock_emit _ (by simp)).trans ?_)
        rw [removeFromHeap_eq hRemove]
        rfl

end Clock

end Kernel

namespace KernelStart

open Kernel

theorem records_kernelStart [Hardware] (uctxt : UserContext) (early late : List Word) :
    (kernelStart uctxt early late).records = (bootPcbs uctxt).records := by
  have hReady := records_scheduleProcess
    ((bootPcbs uctxt).setMem (bootMemory (bootPcbs uctxt).mem early late)) 1
  unfold kernelStart
  dsimp only
  generalize ((bootPcbs uctxt).setMem (bootMemory (bootPcbs uctxt).mem early late)).scheduleProcess 1 =
    ready at hReady ⊢
  split_ifs
  · exact (records_modifyPcb (s := { ready.setMem _ with uc := _ }) (p := 1) rfl).trans hReady
  · exact hReady

end KernelStart
end Yalnix
