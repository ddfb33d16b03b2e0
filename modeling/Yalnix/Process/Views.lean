import Yalnix.Process.Quiet

/-! Two views of the kernel state that most operations leave alone: the
processor with the saved contexts, and the devices. The scheduler's queues
and the synchronization tables are in neither of them. -/
namespace Yalnix

open IntrusiveQueue

/-- Who runs, how, and where everybody else was switched away, with the buffer
a blocked terminal read will fill. -/
structure Cpu where
  mode : Mode
  runningProc : Proc
  idleProc : Proc
  numPcbs : Nat
  kc : Proc → Option KernelContext
  request : Proc → Word × Nat

/-- `io_user_buf` and `io_len`. -/
def Pcb.request (p : Pcb) : Word × Nat := (p.ioUserBuf, p.ioLen)

/-- The fields of a terminal write in progress. -/
structure Transfer where
  kbuf : List Byte
  total : Nat
  sent : Nat

def Pcb.transfer (p : Pcb) : Transfer := ⟨p.ioKbuf, p.ioTotal, p.ioSent⟩

/-- Events of pipes and terminals. -/
def Event.isDevice : Event → Bool
  | .tick | .ready _ | .dispatched _ => false
  | .forked _ _ | .exited _ _ | .reaped _ _ | .freed _ => false
  | .lockCreated _ | .lockReclaimed _ => false
  | .lockRequested _ _ | .lockGranted _ _ | .lockReleased _ _ => false
  | .pipeCreated _ | .pipeReclaimed _ | .pipeWritten _ _ | .pipeRead _ _ _ => true
  | .ttyWritten _ _ _ | .ttyTransmit _ _ | .ttyTransmitTrap _ | .ttyWriteDone _ _ => true
  | .ttyWriteReturned _ _ _ | .ttyReceived _ _ | .ttyRead _ _ _ _ => true

@[simp] theorem Event.isDevice_ready (p : Proc) : isDevice (.ready p) = false := rfl
@[simp] theorem Event.isDevice_dispatched (p : Proc) : isDevice (.dispatched p) = false := rfl
@[simp] theorem Event.isDevice_lockCreated (id : Nat) : isDevice (.lockCreated id) = false := rfl
@[simp] theorem Event.isDevice_lockReclaimed (id : Nat) : isDevice (.lockReclaimed id) = false := rfl
@[simp] theorem Event.isDevice_tick : isDevice .tick = false := rfl
@[simp] theorem Event.isDevice_reaped (parent child : Proc) :
    isDevice (.reaped parent child) = false := rfl
@[simp] theorem Event.isDevice_freed (p : Proc) : isDevice (.freed p) = false := rfl
@[simp] theorem Event.isDevice_lockRequested (id : Nat) (p : Proc) :
    isDevice (.lockRequested id p) = false := rfl
@[simp] theorem Event.isDevice_lockGranted (id : Nat) (p : Proc) :
    isDevice (.lockGranted id p) = false := rfl
@[simp] theorem Event.isDevice_lockReleased (id : Nat) (p : Proc) :
    isDevice (.lockReleased id p) = false := rfl

/-- Pipes and terminals with the transfers in progress and their history. -/
structure Devices where
  pipes : Table Pipe
  ttys : Nat → Tty
  lines : Nat → RxLine
  lineNext : Nat → Option Nat
  numLines : Nat
  transfer : Proc → Transfer
  log : List Event

/-- What the scheduler and the synchronization objects do not touch. -/
structure Outside where
  cpu : Cpu
  devices : Devices

namespace Kernel

def cpu (s : Kernel) : Cpu :=
  ⟨s.mode, s.runningProc, s.idleProc, s.numPcbs, fun p => (s.pcb p).kc,
    fun p => (s.pcb p).request⟩

def devices (s : Kernel) : Devices :=
  ⟨s.pipes, s.ttys, s.lines, s.lineNext, s.numLines, fun p => (s.pcb p).transfer,
    s.trace.filter Event.isDevice⟩

def outside (s : Kernel) : Outside := ⟨s.cpu, s.devices⟩

variable {s t : Kernel}

theorem mode_of_cpu (h : t.cpu = s.cpu) : t.mode = s.mode := congrArg Cpu.mode h
theorem runningProc_of_cpu (h : t.cpu = s.cpu) : t.runningProc = s.runningProc :=
  congrArg Cpu.runningProc h
theorem idleProc_of_cpu (h : t.cpu = s.cpu) : t.idleProc = s.idleProc := congrArg Cpu.idleProc h
theorem numPcbs_of_cpu (h : t.cpu = s.cpu) : t.numPcbs = s.numPcbs := congrArg Cpu.numPcbs h
theorem kc_of_cpu (h : t.cpu = s.cpu) (p : Proc) : (t.pcb p).kc = (s.pcb p).kc :=
  congrFun (congrArg Cpu.kc h) p

theorem request_of_cpu (h : t.cpu = s.cpu) (p : Proc) : (t.pcb p).request = (s.pcb p).request :=
  congrFun (congrArg Cpu.request h) p

theorem cpu_of_outside (h : t.outside = s.outside) : t.cpu = s.cpu := congrArg Outside.cpu h
theorem devices_of_outside (h : t.outside = s.outside) : t.devices = s.devices :=
  congrArg Outside.devices h

/-- The state a function returns beside its result. -/
theorem outside_fst {β : Type} {r : Kernel × β} {b : β} (hOutside : r.1.outside = s.outside)
    (h : r = (t, b)) : t.outside = s.outside := by
  subst h
  exact hOutside

/-- A projection that a change of one control block keeps is kept everywhere. -/
theorem pcb_modifyPcb {α : Type} {p : Proc} {f : Pcb → Pcb} {v : Pcb → α}
    (hView : v (f (s.pcb p)) = v (s.pcb p)) (q : Proc) :
    v ((s.modifyPcb p f).pcb q) = v (s.pcb q) := by
  by_cases hq : q = p
  · subst hq
    simpa [modifyPcb] using hView
  · simp [modifyPcb, Function.update_of_ne hq]

theorem cpu_modifyPcb {p : Proc} {f : Pcb → Pcb} (hKc : (f (s.pcb p)).kc = (s.pcb p).kc)
    (hRequest : (f (s.pcb p)).request = (s.pcb p).request) : (s.modifyPcb p f).cpu = s.cpu := by
  simp only [cpu, pcb_modifyPcb hKc, pcb_modifyPcb hRequest]
  rfl

theorem outside_modifyPcb {p : Proc} {f : Pcb → Pcb} (hKc : (f (s.pcb p)).kc = (s.pcb p).kc)
    (hRequest : (f (s.pcb p)).request = (s.pcb p).request)
    (hTransfer : (f (s.pcb p)).transfer = (s.pcb p).transfer) :
    (s.modifyPcb p f).outside = s.outside := by
  simp only [outside, cpu_modifyPcb hKc hRequest, devices, pcb_modifyPcb hTransfer]
  rfl

@[simp] theorem outside_setState (s : Kernel) (p : Proc) (state : ProcessState) :
    (s.setState p state).outside = s.outside := outside_modifyPcb rfl rfl rfl

@[simp] theorem outside_emit (s : Kernel) {e : Event} (he : ¬e.isDevice) :
    (s.emit e).outside = s.outside := by
  simp [outside, cpu, devices, emit, he]

@[simp] theorem outside_freePcb (s : Kernel) (p : Proc) : (s.freePcb p).outside = s.outside :=
  (outside_emit _ (by simp)).trans (outside_modifyPcb rfl rfl rfl)

@[simp] theorem outside_setMem (s : Kernel) (mem : Memory) : (s.setMem mem).outside = s.outside := rfl
@[simp] theorem outside_setNext (s : Kernel) (next : Proc → Option Proc) :
    (s.setNext next).outside = s.outside := rfl
@[simp] theorem outside_setLock (s : Kernel) (id : Nat) (lock : Lock) :
    (s.setLock id lock).outside = s.outside := rfl
@[simp] theorem outside_setCvar (s : Kernel) (id : Nat) (cvar : Cvar) :
    (s.setCvar id cvar).outside = s.outside := rfl
@[simp] theorem outside_enqueProcess (s : Kernel) (type : QueueType) (p : Proc) :
    (s.enqueProcess type p).outside = s.outside := rfl

@[simp] theorem outside_scheduleProcess (s : Kernel) (p : Proc) :
    (s.scheduleProcess p).outside = s.outside := by
  unfold scheduleProcess
  split_ifs <;> simp

@[simp] theorem outside_waitBlockProcess (s : Kernel) (p : Proc) :
    (s.waitBlockProcess p).outside = s.outside := by
  simp [waitBlockProcess]

@[simp] theorem outside_dequeProcess (s : Kernel) : s.dequeProcess.1.outside = s.outside := by
  unfold dequeProcess
  dsimp only
  split
  · rfl
  · split <;> rfl

@[simp] theorem outside_getNextProcess (s : Kernel) : s.getNextProcess.1.outside = s.outside := by
  have h := outside_dequeProcess s
  unfold getNextProcess
  split <;> rename_i hDeque <;> simpa [hDeque] using h

@[simp] theorem outside_newLock (s : Kernel) (capacity : Nat) (growOk pidsOk : Bool) :
    (s.newLock capacity growOk pidsOk).1.outside = s.outside := by
  unfold newLock
  dsimp only
  split
  · rfl
  · rw [outside_emit _ (by simp)]
    rfl

@[simp] theorem outside_newCvar (s : Kernel) (growOk : Bool) :
    (s.newCvar growOk).1.outside = s.outside := rfl

@[simp] theorem outside_deleteLock (s : Kernel) (id : Nat) (shrinkOk : Bool) :
    (s.deleteLock id shrinkOk).1.outside = s.outside := by
  unfold deleteLock
  dsimp only
  split_ifs
  · rfl
  · rw [outside_emit _ (by simp)]
    rfl

@[simp] theorem outside_deleteCvar (s : Kernel) (id : Nat) (shrinkOk : Bool) :
    (s.deleteCvar id shrinkOk).1.outside = s.outside := by
  unfold deleteCvar
  dsimp only
  split_ifs <;> rfl

@[simp] theorem outside_acquire (s : Kernel) (id : Nat) (p : Proc) (cvarUse : Bool) :
    (s.acquire id p cvarUse).1.outside = s.outside := by
  unfold acquire
  dsimp only
  split_ifs <;> simp

@[simp] theorem outside_release (s : Kernel) (id : Nat) (p : Proc) (cvarUse : Bool) :
    (s.release id p cvarUse).1.outside = s.outside := by
  unfold release
  dsimp only
  split
  · rfl
  · split <;> simp

@[simp] theorem outside_waitCvar (s : Kernel) (cvarId lockId : Nat) (p : Proc) :
    (s.waitCvar cvarId lockId p).1.outside = s.outside := by
  have h := outside_release s lockId p true
  unfold waitCvar
  split
  · rfl
  · split <;> rename_i u hRelease <;> simp only [hRelease] at h
    · exact h
    · have hBound : (u.modifyPcb p fun pcb => { pcb with cvarLockId := lockId }).outside = u.outside :=
        outside_modifyPcb rfl rfl rfl
      exact hBound.trans h

@[simp] theorem outside_popCvar (s : Kernel) (id : Nat) : (s.popCvar id).1.outside = s.outside := by
  unfold popCvar
  dsimp only
  split <;> rfl

@[simp] theorem outside_reacquire (s : Kernel) (p : Proc) : (s.reacquire p).outside = s.outside := by
  have h := outside_acquire s (s.pcb p).cvarLockId p true
  unfold reacquire
  split <;> rename_i hAcquire <;> simpa [hAcquire] using h

@[simp] theorem outside_removeFromHeap (s : Kernel) (shrinkOk : Bool) :
    (s.removeFromHeap shrinkOk).1.outside = s.outside := by
  unfold removeFromHeap
  split <;> rfl

theorem outside_addToHeap {p : Proc} {growOk : Bool} (h : s.addToHeap p growOk = some t) :
    t.outside = s.outside := by
  unfold addToHeap at h
  dsimp only at h
  split_ifs at h <;> cases h <;> rfl

@[simp] theorem outside_putToSleep (s : Kernel) (p : Proc) (ticks : Word) (growOk : Bool) :
    (s.putToSleep p ticks growOk).1.outside = s.outside := by
  unfold putToSleep
  dsimp only
  split
  · rename_i u hAdd
    rw [outside_addToHeap hAdd]
    exact outside_modifyPcb rfl rfl rfl
  · rw [outside_setState]
    exact outside_modifyPcb rfl rfl rfl

theorem outside_findBlockedFrom {type : QueueType} {cond : Kernel → Proc → Option Kernel}
    (hCond : ∀ p u, cond s p = some u → u.outside = s.outside) (fuel : Nat)
    (prev curr : Option Proc) :
    (s.findBlockedFrom type cond fuel prev curr).1.outside = s.outside := by
  induction fuel generalizing prev curr with
  | zero => cases curr <;> rfl
  | succ fuel ih =>
      cases curr with
      | none => rfl
      | some curr =>
          unfold findBlockedFrom
          split
          · exact ih _ _
          · rename_i u hFound
            exact hCond curr u hFound

end Kernel

theorem Event.Quiet.not_device {e : Event} (h : e.Quiet) : e.isDevice = false := by
  cases e with
  | tick | forked | exited | reaped | freed => rfl
  | _ => exact h.elim

theorem Quiet.outside {s t : Kernel} (h : Quiet s t) : t.outside = s.outside := by
  obtain ⟨events, hTrace, hQuiet⟩ := h.trace
  have hLog : t.trace.filter Event.isDevice = s.trace.filter Event.isDevice := by
    have hNone : events.filter Event.isDevice = [] := by
      rw [List.filter_eq_nil_iff]
      intro e he
      simp [(hQuiet e he).not_device]
    rw [hTrace, List.filter_append, hNone, List.append_nil]
  have hTransfer : (fun p => (t.pcb p).transfer) = fun p => (s.pcb p).transfer :=
    funext fun p => (congrArg Pcb.transfer (h.core p) :)
  have hRequest : (fun p => (t.pcb p).request) = fun p => (s.pcb p).request :=
    funext fun p => (congrArg Pcb.request (h.core p) :)
  simp [Kernel.outside, Kernel.cpu, Kernel.devices, h.mode, h.runningProc, h.idleProc, h.numPcbs,
    h.kc, hRequest, h.pipes, h.ttys, h.lines, h.lineNext, h.numLines, hLog, hTransfer]

namespace Kernel

@[simp] theorem outside_findWaiter (s : Kernel) (shrinkOk : Bool) :
    (s.findBlockedProcess .waitBlocking (waitUnblockCond shrinkOk)).1.outside = s.outside :=
  outside_findBlockedFrom (fun _ _ h => (Quiet.waitUnblockCond h).outside) _ _ _

@[simp] theorem outside_wakeWaiters (s : Kernel) (shrinkOk : Nat → Bool) (fuel : Nat) :
    (s.wakeWaiters shrinkOk fuel).outside = s.outside := by
  induction fuel generalizing s with
  | zero => rfl
  | succ fuel ih =>
      have h := outside_findWaiter s (shrinkOk fuel)
      unfold wakeWaiters
      split
      · rename_i u hFind
        simpa [hFind] using h
      · rename_i u proc hFind
        rw [ih]
        simpa [hFind] using h

@[simp] theorem outside_wakeSleepers (s : Kernel) (shrinkOk : Nat → Bool) (fuel : Nat) :
    (s.wakeSleepers shrinkOk fuel).outside = s.outside := by
  induction fuel generalizing s with
  | zero => rfl
  | succ fuel ih =>
      have h := outside_removeFromHeap s (shrinkOk fuel)
      unfold wakeSleepers
      split
      · rfl
      · split_ifs
        · split
          · rename_i u hRemove
            simpa [hRemove] using h
          · rename_i u proc hRemove
            rw [ih]
            simpa [hRemove] using h
        · rfl

@[simp] theorem outside_tick (s : Kernel) (o : Outcomes) : (s.tick o).outside = s.outside := by
  unfold tick
  dsimp only
  rw [outside_wakeSleepers, outside_wakeWaiters, outside_emit _ (by simp)]
  rfl

@[simp] theorem cpu_emit (s : Kernel) (e : Event) : (s.emit e).cpu = s.cpu := rfl

@[simp] theorem cpu_setState (s : Kernel) (p : Proc) (state : ProcessState) :
    (s.setState p state).cpu = s.cpu := cpu_modifyPcb rfl rfl
@[simp] theorem cpu_setMem (s : Kernel) (mem : Memory) : (s.setMem mem).cpu = s.cpu := rfl
@[simp] theorem cpu_setNext (s : Kernel) (next : Proc → Option Proc) :
    (s.setNext next).cpu = s.cpu := rfl
@[simp] theorem cpu_setPipe (s : Kernel) (id : Nat) (pipe : Pipe) :
    (s.setPipe id pipe).cpu = s.cpu := rfl
@[simp] theorem cpu_setTty (s : Kernel) (id : Nat) (tty : Tty) : (s.setTty id tty).cpu = s.cpu := rfl
@[simp] theorem cpu_scheduleProcess (s : Kernel) (p : Proc) : (s.scheduleProcess p).cpu = s.cpu :=
  cpu_of_outside (outside_scheduleProcess s p)
@[simp] theorem cpu_getNextProcess (s : Kernel) : s.getNextProcess.1.cpu = s.cpu :=
  cpu_of_outside (outside_getNextProcess s)

@[simp] theorem cpu_wakeReaders (s : Kernel) (id fuel : Nat) :
    (s.wakeReaders id fuel).cpu = s.cpu := by
  induction fuel generalizing s with
  | zero => rfl
  | succ fuel ih =>
      unfold wakeReaders
      split
      · rfl
      · rw [ih]
        simp

@[simp] theorem cpu_newPipe [Hardware] (s : Kernel) (growOk bufOk : Bool) :
    (s.newPipe growOk bufOk).1.cpu = s.cpu := by
  unfold newPipe
  dsimp only
  split <;> rfl

@[simp] theorem cpu_pipeReclaim (s : Kernel) (id : Nat) : (s.pipeReclaim id).1.cpu = s.cpu := by
  unfold pipeReclaim
  split
  · rfl
  · split_ifs <;> rfl

@[simp] theorem cpu_wqPop (s : Kernel) (id : Nat) : (s.wqPop id).1.cpu = s.cpu := by
  unfold wqPop
  split <;> rfl

@[simp] theorem cpu_rqPop (s : Kernel) (id : Nat) : (s.rqPop id).1.cpu = s.cpu := by
  unfold rqPop
  split <;> rfl

@[simp] theorem cpu_startChunk [Hardware] (s : Kernel) (id : Nat) : (s.startChunk id).cpu = s.cpu := by
  unfold startChunk
  split <;> rfl

@[simp] theorem cpu_appendLine (s : Kernel) (id : Nat) (line : List Byte) :
    (s.appendLine id line).cpu = s.cpu := rfl

@[simp] theorem cpu_consume (s : Kernel) (id len : Nat) : (s.consume id len).1.cpu = s.cpu := by
  unfold consume
  split
  · rfl
  · dsimp only
    split_ifs <;> rfl

@[simp] theorem cpu_ttyDeliver (s : Kernel) (id : Nat) (line : List Byte) :
    (s.ttyDeliver id line).cpu = s.cpu := by
  have h := cpu_rqPop (s.appendLine id line) id
  unfold ttyDeliver
  split <;> rename_i hPop <;> simpa [hPop] using h

@[simp] theorem cpu_ttyReceiveDone [Hardware] (s : Kernel) (ttyId : Int) (line : List Byte)
    (lineOk : Bool) : (s.ttyReceiveDone ttyId line lineOk).cpu = s.cpu := by
  unfold ttyReceiveDone
  split_ifs <;> simp

@[simp] theorem cpu_ttyChunkDone (s : Kernel) (id : Nat) (owner : Proc) :
    (s.ttyChunkDone id owner).cpu = s.cpu :=
  cpu_modifyPcb (s := s) (p := owner) (f := fun p =>
    { p with ioSent := p.ioSent + (s.ttys id).txLastChunk }) rfl rfl

@[simp] theorem cpu_ttyHandOver [Hardware] (s : Kernel) (id : Nat) :
    (s.ttyHandOver id).cpu = s.cpu := by
  have h := cpu_wqPop s id
  unfold ttyHandOver
  split <;> rename_i hPop <;> simpa [hPop] using h

@[simp] theorem cpu_ttyFinish [Hardware] (s : Kernel) (id : Nat) (owner : Proc) :
    (s.ttyFinish id owner).cpu = s.cpu := by
  simp [ttyFinish]

@[simp] theorem cpu_ttyTransmitDone [Hardware] (s : Kernel) (ttyId : Int) :
    (s.ttyTransmitDone ttyId).cpu = s.cpu := by
  unfold ttyTransmitDone
  dsimp only
  split
  · rfl
  · split
    · rfl
    · split <;> simp

@[simp] theorem leave_pcb (s : Kernel) : s.leave.pcb = s.pcb := by
  unfold leave
  split <;> rfl

@[simp] theorem leave_mem (s : Kernel) : s.leave.mem = s.mem := by
  unfold leave
  split <;> rfl

@[simp] theorem leave_cpu (s : Kernel) : s.leave.cpu = s.cpu := by
  unfold leave
  split <;> rfl

@[simp] theorem leave_trace (s : Kernel) : s.leave.trace = s.trace := by
  unfold leave
  split <;> rfl

@[simp] theorem leave_pipes (s : Kernel) : s.leave.pipes = s.pipes := by
  unfold leave
  split <;> rfl

@[simp] theorem ret_result (s : Kernel) (value : Word) :
    ((s.ret value).pcb s.runningProc).uc.regs 0 = value := by
  simp [ret, setResult, modifyPcb]

@[simp] theorem reg_saveUc (s : Kernel) (uc : UserContext) (i : Nat) :
    (s.saveUc uc).reg i = uc.regs i := by
  simp [reg, saveUc, modifyPcb]

end Kernel
end Yalnix
