import Yalnix.Device.PipeBuffer
import Yalnix.Process.Conservation

/-! What has been written to a pipe is what has been read from it followed by
what it still holds. -/
namespace Yalnix

open Hardware Identifiers

/-- The events of pipes. -/
def Event.isPipe : Event → Bool
  | .pipeCreated _ | .pipeReclaimed _ | .pipeWritten _ _ | .pipeRead _ _ _ => true
  | _ => false

/-- The bytes written to and read from pipe `id` since its creation. -/
def Event.record (id : Nat) (history : List Byte × List Byte) : Event → List Byte × List Byte
  | .pipeCreated k => if k = id then ([], []) else history
  | .pipeWritten k bytes => if k = id then (history.1 ++ bytes, history.2) else history
  | .pipeRead k _ bytes => if k = id then (history.1, history.2 ++ bytes) else history
  | _ => history

def pipeHistory (id : Nat) (trace : List Event) : List Byte × List Byte :=
  trace.foldl (Event.record id) ([], [])

@[simp] theorem pipeHistory_append (id : Nat) (trace : List Event) (e : Event) :
    pipeHistory id (trace ++ [e]) = e.record id (pipeHistory id trace) := by
  simp [pipeHistory]

theorem pipeHistory_filter (id : Nat) (trace : List Event) :
    pipeHistory id (trace.filter Event.isPipe) = pipeHistory id trace := by
  have hOther : (fun history (e : Event) => if e.isPipe = true then e.record id history else history) =
      Event.record id := by
    funext history e
    cases e <;> rfl
  rw [pipeHistory, List.foldl_filter, hOther, pipeHistory]

/-- A pipe without its queue of readers. -/
def Pipe.data (pipe : Pipe) : Pipe := { pipe with readers := .empty }

@[simp] theorem Pipe.wf_data (pipe : Pipe) : pipe.data.Wf ↔ pipe.Wf :=
  ⟨fun h => ⟨h.cap_pos, h.head_lt, h.len_le⟩, fun h => ⟨h.cap_pos, h.head_lt, h.len_le⟩⟩

@[simp] theorem Pipe.contents_data (pipe : Pipe) : pipe.data.contents = pipe.contents := rfl

/-- The buffers of all pipes with their history. -/
structure PipeView where
  data : Nat → Pipe
  log : List Event

namespace Kernel

variable {s t : Kernel}

def pipeView (s : Kernel) : PipeView :=
  ⟨fun id => (s.pipes.entries id).data, s.trace.filter Event.isPipe⟩

theorem pipeView_of_devices (hPipes : t.devices.pipes = s.devices.pipes)
    (hLog : t.devices.log = s.devices.log) : t.pipeView = s.pipeView := by
  have hFilter (trace : List Event) :
      trace.filter Event.isPipe = (trace.filter Event.isDevice).filter Event.isPipe := by
    rw [List.filter_filter]
    refine List.filter_congr fun e _ => ?_
    cases e <;> rfl
  simp only [devices] at hPipes hLog
  simp only [pipeView, PipeView.mk.injEq]
  exact ⟨by rw [hPipes], by rw [hFilter t.trace, hLog, ← hFilter]⟩

theorem pipeView_of_outside (h : t.outside = s.outside) : t.pipeView = s.pipeView :=
  pipeView_of_devices (congrArg Devices.pipes (devices_of_outside h))
    (congrArg Devices.log (devices_of_outside h))

@[simp] theorem pipeView_emit (s : Kernel) {e : Event} (he : e.isPipe = false) :
    (s.emit e).pipeView = s.pipeView := by
  simp [pipeView, emit, he]

theorem pipeView_emit_pipe (s : Kernel) {e : Event} (he : e.isPipe = true) :
    (s.emit e).pipeView = { s.pipeView with log := s.pipeView.log ++ [e] } := by
  simp [pipeView, emit, he]

@[simp] theorem pipeView_setTty (s : Kernel) (id : Nat) (tty : Tty) :
    (s.setTty id tty).pipeView = s.pipeView := rfl

@[simp] theorem pipeView_modifyPcb (s : Kernel) (p : Proc) (f : Pcb → Pcb) :
    (s.modifyPcb p f).pipeView = s.pipeView := rfl

@[simp] theorem pipeView_setState (s : Kernel) (p : Proc) (state : ProcessState) :
    (s.setState p state).pipeView = s.pipeView := rfl

@[simp] theorem pipeView_scheduleProcess (s : Kernel) (p : Proc) :
    (s.scheduleProcess p).pipeView = s.pipeView := pipeView_of_outside (outside_scheduleProcess s p)

theorem pipeView_setPipe (s : Kernel) (id : Nat) (pipe : Pipe) :
    (s.setPipe id pipe).pipeView =
      { s.pipeView with data := Function.update s.pipeView.data id pipe.data } := by
  simp only [pipeView, setPipe, Table.set, PipeView.mk.injEq, and_true]
  funext k
  by_cases hk : k = id
  · subst hk
    simp
  · simp [Function.update_of_ne hk]

/-- Only the queue of readers changes. -/
theorem pipeView_setReaders (s : Kernel) (id : Nat) (readers : IntrusiveQueue.Ends Proc) :
    (s.setPipe id { s.pipes.entries id with readers := readers }).pipeView = s.pipeView := by
  rw [pipeView_setPipe]
  have hSame : ({ s.pipes.entries id with readers := readers } : Pipe).data = s.pipeView.data id := rfl
  rw [hSame, Function.update_eq_self]

@[simp] theorem pipeView_wakeReaders (s : Kernel) (id fuel : Nat) :
    (s.wakeReaders id fuel).pipeView = s.pipeView := by
  induction fuel generalizing s with
  | zero => rfl
  | succ fuel ih =>
      unfold wakeReaders
      split
      · rfl
      · rw [ih, pipeView_scheduleProcess]
        exact pipeView_setReaders s id _

@[simp] theorem pipeView_startChunk [Hardware] (s : Kernel) (id : Nat) :
    (s.startChunk id).pipeView = s.pipeView := by
  unfold startChunk
  split
  · rfl
  · rw [pipeView_emit _ rfl, pipeView_setTty]

@[simp] theorem pipeView_consume (s : Kernel) (id len : Nat) :
    (s.consume id len).1.pipeView = s.pipeView := by
  unfold consume
  split
  · rfl
  · dsimp only
    split <;> split <;> rfl

@[simp] theorem pipeView_read (s : Kernel) (id len : Nat) : (s.read id len).pipeView = s.pipeView := by
  rw [read, pipeView_emit _ rfl, pipeView_consume]

@[simp] theorem pipeView_wqPop (s : Kernel) (id : Nat) : (s.wqPop id).1.pipeView = s.pipeView := by
  unfold wqPop
  split <;> rfl

@[simp] theorem pipeView_rqPop (s : Kernel) (id : Nat) : (s.rqPop id).1.pipeView = s.pipeView := by
  unfold rqPop
  split <;> rfl

@[simp] theorem pipeView_ttyDeliver (s : Kernel) (id : Nat) (line : List Byte) :
    (s.ttyDeliver id line).pipeView = s.pipeView := by
  have hLine : (s.appendLine id line).pipeView = s.pipeView := by
    rw [appendLine, pipeView_emit _ rfl, pipeView_setTty]
    rfl
  have hPop := pipeView_rqPop (s.appendLine id line) id
  rw [hLine] at hPop
  unfold ttyDeliver
  split <;> rename_i hResult <;> simpa [hResult] using hPop

@[simp] theorem pipeView_ttyReceiveDone [Hardware] (s : Kernel) (ttyId : Int) (line : List Byte)
    (lineOk : Bool) : (s.ttyReceiveDone ttyId line lineOk).pipeView = s.pipeView := by
  unfold ttyReceiveDone
  split_ifs <;> simp

@[simp] theorem pipeView_ttyHandOver [Hardware] (s : Kernel) (id : Nat) :
    (s.ttyHandOver id).pipeView = s.pipeView := by
  have hPop := pipeView_wqPop s id
  unfold ttyHandOver
  split <;> rename_i hResult <;> simpa [hResult] using hPop

@[simp] theorem pipeView_ttyTransmitDone [Hardware] (s : Kernel) (ttyId : Int) :
    (s.ttyTransmitDone ttyId).pipeView = s.pipeView := by
  unfold ttyTransmitDone
  dsimp only
  split
  · rfl
  · split
    · rw [pipeView_emit _ rfl]
    · split
      · rw [pipeView_startChunk, ttyChunkDone, pipeView_setTty, pipeView_modifyPcb, pipeView_emit _ rfl]
      · rw [ttyFinish, pipeView_ttyHandOver, pipeView_scheduleProcess, pipeView_emit _ rfl,
          pipeView_setTty, ttyChunkDone, pipeView_setTty, pipeView_modifyPcb, pipeView_emit _ rfl]

/-- No process changes a buffer by blocking. -/
theorem pipeView_parks {label : Label} [Hardware] {kc : KernelContext} (h : Parks label s kc t) : t.pipeView = s.pipeView := by
  cases h with
  | sleep h => exact pipeView_of_outside (outside_fst (outside_putToSleep s _ _ _) h)
  | wait => exact pipeView_of_outside (outside_waitBlockProcess s _)
  | lock _ h => exact pipeView_of_outside (outside_fst (outside_acquire s _ _ _) h)
  | cvar _ h => exact pipeView_of_outside (outside_fst (outside_waitCvar s _ _ _) h)
  | pipe =>
      rw [pipeBlock, pipeView_setState]
      exact pipeView_setReaders s _ _
  | ttyRead => rfl
  | @ttyWrite id bytes =>
      have hRecord : (s.ttyRecord id bytes).pipeView = s.pipeView :=
        pipeView_emit (s.modifyPcb s.runningProc _) rfl
      unfold ttyWriteBlock
      dsimp only
      rw [pipeView_setState]
      split
      · rw [pipeView_startChunk, pipeView_setTty, hRecord]
      · exact hRecord

end Kernel

/-- Every pipe in use has a well formed buffer that holds what was written and
not yet read. -/
def PipeView.Fifo (v : PipeView) : Prop :=
  ∀ id, (v.data id).inUse = true → (v.data id).Wf ∧
    (pipeHistory id v.log).1 = (pipeHistory id v.log).2 ++ (v.data id).contents

namespace PipeView.Fifo

variable {v : PipeView} {id : Nat} {pipe : Pipe} {e : Event}

/-- One pipe changes and an event of it is recorded. -/
theorem update (h : v.Fifo) (hOther : ∀ k ≠ id, ∀ history, e.record k history = history)
    (hPipe : pipe.inUse = true → pipe.Wf ∧ (e.record id (pipeHistory id v.log)).1 =
      (e.record id (pipeHistory id v.log)).2 ++ pipe.contents) :
    Fifo ⟨Function.update v.data id pipe, v.log ++ [e]⟩ := by
  intro k hk
  dsimp only at hk ⊢
  rw [pipeHistory_append]
  by_cases he : k = id
  · subst he
    rw [Function.update_self] at hk ⊢
    exact hPipe hk
  · rw [Function.update_of_ne he] at hk ⊢
    rw [hOther k he]
    exact h k hk

/-- A slot that is not in use is overwritten. -/
theorem clear (h : v.Fifo) (hUnused : pipe.inUse = false) :
    Fifo ⟨Function.update v.data id pipe, v.log⟩ := by
  intro k hk
  dsimp only at hk ⊢
  by_cases he : k = id
  · subst he
    rw [Function.update_self, hUnused] at hk
    cases hk
  · rw [Function.update_of_ne he] at hk ⊢
    exact h k hk

end PipeView.Fifo

namespace Kernel

theorem contents_wakeReaders (s : Kernel) (id fuel k : Nat) :
    ((s.wakeReaders id fuel).pipes.entries k).contents = (s.pipes.entries k).contents := by
  have hData := congrFun (congrArg PipeView.data (pipeView_wakeReaders s id fuel)) k
  exact (congrArg Pipe.contents hData :)

theorem runningProc_wakeReaders (s : Kernel) (id fuel : Nat) :
    (s.wakeReaders id fuel).runningProc = s.runningProc :=
  runningProc_of_cpu (cpu_wakeReaders s id fuel)

variable [Hardware] {s t : Kernel}

/-- A creation either fills a slot that was not in use or leaves no pipe
there. -/
theorem fifo_newPipe (h : s.pipeView.Fifo) (hPipes : s.pipes.Wf Pipe.inUse .blank) (growOk bufOk : Bool) :
    (s.newPipe growOk bufOk).1.pipeView.Fifo := by
  obtain ⟨-, hSome, hNone⟩ := hPipes.create .fresh rfl (Or.inr rfl) growOk bufOk
  have hView {entries : Nat → Pipe} {id : Nat} {pipe : Pipe}
      (hEntries : entries = Function.update s.pipes.entries id pipe) :
      (fun k => (entries k).data) = Function.update s.pipeView.data id pipe.data := by
    funext k
    rw [hEntries]
    by_cases hk : k = id
    · subst hk
      simp
    · simp [Function.update_of_ne hk, pipeView]
  unfold newPipe
  dsimp only
  split
  · rename_i hResult
    rcases hNone hResult with hSame | hClear
    · have hData : (fun k => ((s.pipes.create Pipe.inUse .blank .fresh s.pipes.size growOk
          bufOk).1.entries k).data) = s.pipeView.data := by
        rw [hSame]
        rfl
      rw [pipeView]
      dsimp only
      rw [hData]
      exact h
    · rw [pipeView]
      dsimp only
      rw [hView hClear]
      exact h.clear rfl
  · rename_i id hResult
    obtain ⟨-, hFill⟩ := hSome id hResult
    rw [pipeView_emit_pipe _ rfl, pipeView]
    dsimp only
    rw [hView hFill]
    refine h.update (fun k hk history => by simp [Event.record, Ne.symm hk]) fun _ => ⟨?_, ?_⟩
    · exact (Pipe.wf_data _).mpr Pipe.wf_fresh
    · simp [Event.record]

/-- The calls on pipes. -/
inductive PipeStep (label : Label) (s : Kernel) : Kernel → Prop where
  | new {growOk bufOk : Bool} (hCall : label.creates = some .pipe) :
      PipeStep label s (s.newPipe growOk bufOk).1
  | reclaim {id : Nat} : PipeStep label s (s.pipeReclaim id).1
  | read {id len : Nat} {pipe : Pipe} (hPipe : s.getPipe id = some pipe) (hSome : pipe.len ≠ 0)
      (hLen : 0 < len) : PipeStep label s
        ((s.setPipe id (pipe.readBytes len).1).emit (.pipeRead id len (pipe.readBytes len).2))
  | write {id : Nat} {pipe grown : Pipe} {bytes : List Byte} {growOk : Bool} (hPipe : s.getPipe id = some pipe)
      (hGrown : pipe.ensureCapacity (pipe.len + bytes.length) growOk = some grown)
      (hCall : label.isPipeWrite = true) : PipeStep label s
        (((s.setPipe id (grown.appendBytes bytes)).emit (.pipeWritten id bytes)).wakeReaders id s.numPcbs)

theorem pipe_effect {label : Label} (h : Effect label s t) :
    PipeStep label s t ∨ t.pipeView = s.pipeView := by
  have hDevices (hSame : t.devices = s.devices) : t.pipeView = s.pipeView :=
    pipeView_of_devices (congrArg Devices.pipes hSame) (congrArg Devices.log hSame)
  cases h with
  | quiet hQuiet => exact Or.inr (pipeView_of_outside hQuiet.outside)
  | ticked => exact Or.inr (pipeView_of_outside (Quiet.ticked s).outside)
  | reap _ _ hFound => exact Or.inr (pipeView_of_outside (Quiet.findExitedChild hFound).outside)
  | block hUser hParks hQuiet =>
      refine Or.inr ?_
      rw [pipeView_of_devices (congrArg Devices.pipes (devices_switchAway _ _))
        (congrArg Devices.log (devices_switchAway _ _)), pipeView_of_outside hQuiet.outside,
        pipeView_parks hParks]
  | sleepless _ h' => exact Or.inr (pipeView_of_outside (outside_fst (outside_putToSleep s _ _ _) h'))
  | preempt => exact Or.inr (hDevices (devices_preempt s))
  | exit hUser hExit => exact Or.inr (hDevices (devices_kernelExit hExit))
  | fork hUser hFork =>
      have hFrame := devices_kernelFork hFork
      exact Or.inr (pipeView_of_devices (by rw [hFrame]) (by rw [hFrame]))
  | newLock => exact Or.inr (pipeView_of_outside (outside_newLock s _ _ _))
  | newCvar => exact Or.inr (pipeView_of_outside (outside_newCvar s _))
  | newPipe hCall => exact Or.inl (.new hCall)
  | deleteLock => exact Or.inr (pipeView_of_outside (outside_deleteLock s _ _))
  | deleteCvar => exact Or.inr (pipeView_of_outside (outside_deleteCvar s _ _))
  | pipeReclaim => exact Or.inl .reclaim
  | acquire _ h' => exact Or.inr (pipeView_of_outside (outside_fst (outside_acquire s _ _ _) h'))
  | release _ _ h' => exact Or.inr (pipeView_of_outside (outside_fst (outside_release s _ _ _) h'))
  | signal hPop =>
      exact Or.inr ((pipeView_of_outside (outside_reacquire _ _)).trans
        (pipeView_of_outside (outside_fst (outside_popCvar s _) hPop)))
  | pipeRead hPipe hSome hLen => exact Or.inl (.read hPipe hSome hLen)
  | pipeWrite hPipe hGrown hCall => exact Or.inl (.write hPipe hGrown hCall)
  | wakeWaiter hFind =>
      exact Or.inr ((pipeView_scheduleProcess _ _).trans
        (pipeView_of_outside (outside_fst (outside_findWaiter s _) hFind)))
  | wakeSleeper _ _ hRemove =>
      refine Or.inr ?_
      rw [pipeView_emit _ rfl, pipeView_of_outside (outside_enqueProcess _ _ _),
        pipeView_of_outside (outside_fst (outside_removeFromHeap s _) hRemove)]
  | transmitted => exact Or.inr (pipeView_ttyTransmitDone _ _)
  | received => exact Or.inr (pipeView_ttyReceiveDone _ _ _ _)
  | resumed => exact Or.inr rfl
  | written =>
      refine Or.inr ?_
      rw [ttyWriteReturn, pipeView_emit _ rfl, pipeView_of_outside (Quiet.ret _ _).outside,
        pipeView_modifyPcb]
      rfl

/-- Every call keeps the pipes first-in first-out. -/
theorem fifo_pipeStep {label : Label} (h : s.pipeView.Fifo) (hSound : KernelStart.Sound s)
    (hStep : PipeStep label s t) : t.pipeView.Fifo := by
  cases hStep with
  | new => exact fifo_newPipe h hSound.settled.pipes _ _
  | @reclaim id =>
      unfold Kernel.pipeReclaim
      split
      · exact h
      split_ifs
      · exact h
      · rw [pipeView_emit_pipe _ rfl]
        have hData : ({ s with pipes := s.pipes.lower .blank id } : Kernel).pipeView =
            (s.setPipe id .blank).pipeView := rfl
        rw [hData, pipeView_setPipe]
        exact h.update (fun _ _ _ => rfl) fun hUse => by cases hUse
  | @read id len pipe hPipe hSome hLen =>
      obtain ⟨-, hUse, rfl⟩ := getPipe_eq_some.mp hPipe
      obtain ⟨hWf, hHistory⟩ := h id hUse
      rw [show s.pipeView.data id = (s.pipes.entries id).data from rfl, Pipe.wf_data] at hWf
      obtain ⟨hRead, hBytes, hLeft⟩ := Pipe.readBytes_spec hWf len
      rw [pipeView_emit_pipe _ rfl, pipeView_setPipe]
      refine h.update (fun k hk history => by simp [Event.record, Ne.symm hk]) fun _ =>
        ⟨(Pipe.wf_data _).mpr hRead, ?_⟩
      simp only [Event.record, if_true, Pipe.contents_data, hBytes, hLeft, List.append_assoc,
        List.take_append_drop]
      exact hHistory
  | @write id pipe grown bytes growOk hPipe hGrown =>
      obtain ⟨-, hUse, rfl⟩ := getPipe_eq_some.mp hPipe
      obtain ⟨hWf, hHistory⟩ := h id hUse
      rw [show s.pipeView.data id = (s.pipes.entries id).data from rfl, Pipe.wf_data] at hWf
      obtain ⟨hGrownWf, hSame, hCap, hLen⟩ := Pipe.ensureCapacity_spec hWf hGrown
      obtain ⟨hWritten, hContents⟩ := Pipe.appendBytes_spec hGrownWf bytes (by omega)
      rw [pipeView_wakeReaders, pipeView_emit_pipe _ rfl, pipeView_setPipe]
      refine h.update (fun k hk history => by simp [Event.record, Ne.symm hk]) fun _ =>
        ⟨(Pipe.wf_data _).mpr hWritten, ?_⟩
      simp only [Event.record, if_true, Pipe.contents_data, hContents, hSame]
      rw [hHistory, List.append_assoc]
      rfl

theorem fifo_effect {label : Label} (h : s.pipeView.Fifo) (hSound : KernelStart.Sound s)
    (hEffect : Effect label s t) : t.pipeView.Fifo := by
  rcases pipe_effect hEffect with hStep | hSame
  · exact fifo_pipeStep h hSound hStep
  · rwa [hSame]

section Calls

/-- What a write of at least one byte does to the pipe: it appends the caller's
bytes and returns their number, or it fails and does nothing. -/
def PipeWrites (s t : Kernel) (id : Nat) (buf : Word) (len : Nat) : Prop :=
  (∃ bytes, s.mem.loadBytes buf.toInt len = .ok bytes ∧ bytes.length = len ∧
    ((t.pcb s.runningProc).uc.regs 0).toInt = len ∧
    (t.pipes.entries id).contents = (s.pipes.entries id).contents ++ bytes) ∨
  ((t.pcb s.runningProc).uc.regs 0 = errorCode ∧
    (t.pipes.entries id).contents = (s.pipes.entries id).contents)

theorem kernelPipeWrite_spec {o : Outcomes} (id : Nat) (hWf : (s.pipes.entries id).Wf)
    (hName : getId (s.reg 0) = id) (hLen : 0 < (s.reg 2).toInt) (h : s.kernelPipeWrite o = .ok t) :
    PipeWrites s t id (s.reg 1) (s.reg 2).toInt.toNat := by
  have hError (hErr : (.ok (s.ret errorCode) : Except Stop Kernel) = .ok t) :
      (t.pcb s.runningProc).uc.regs 0 = errorCode ∧
        (t.pipes.entries id).contents = (s.pipes.entries id).contents := by
    obtain rfl := Except.ok.inj hErr
    exact ⟨ret_result s errorCode, rfl⟩
  unfold kernelPipeWrite guardBuf pipeWriteImpl at h
  dsimp only at h
  split_ifs at h
  · exact Or.inr (hError h)
  · omega
  · split at h
    · exact Or.inr (hError h)
    · rename_i grown hPipe
      obtain ⟨bytes, hBytes, hReturn⟩ := Transition.bind_eq_ok.mp h
      obtain rfl := Except.ok.inj hReturn
      obtain ⟨old, hOld, hGrown⟩ := Option.bind_eq_some_iff.mp hPipe
      obtain ⟨-, -, rfl⟩ := getPipe_eq_some.mp hOld
      rw [hName] at hGrown ⊢
      obtain ⟨hGrownWf, hSame, hCap, hSameLen⟩ := Pipe.ensureCapacity_spec hWf hGrown
      have hLength := Memory.length_loadBytes hBytes
      refine Or.inl ⟨bytes, hBytes, hLength, ?_, ?_⟩
      · have hResult := ret_result (((s.setPipe id (grown.appendBytes bytes)).emit
          (.pipeWritten id bytes)).wakeReaders id s.numPcbs) (BitVec.ofInt 32 (s.reg 2).toInt)
        rw [runningProc_wakeReaders] at hResult
        have hToInt := congrArg BitVec.toInt (hResult.trans BitVec.ofInt_toInt)
        rw [Int.toNat_of_nonneg (by omega)]
        exact hToInt
      · rw [← hSame, ← (Pipe.appendBytes_spec hGrownWf bytes (by omega)).2]
        refine (contents_wakeReaders _ id s.numPcbs id).trans ?_
        simp [setPipe, Table.set, emit]
  · exact Or.inr (hError h)

/-- What a read of `len > 0` bytes does to the pipe, when it is called and each
time it is resumed: it waits while the pipe is empty, and otherwise moves the
oldest bytes to the caller's buffer. -/
def PipeReads (s t : Kernel) (id : Nat) (buf : Word) (len : Nat) : Prop :=
  (t.mode = .resuming ∧ (t.pcb s.runningProc).kc = some (.pipeRead id buf len) ∧
    (s.pipes.entries id).contents = [] ∧ (t.pipes.entries id).contents = []) ∨
  (∃ bytes, bytes = (s.pipes.entries id).contents.take len ∧
    1 ≤ bytes.length ∧ bytes.length = min len (s.pipes.entries id).len ∧
    s.mem.storeBytes buf.toInt bytes = .ok t.mem ∧
    (t.pcb s.runningProc).uc.regs 0 = BitVec.ofNat 32 bytes.length ∧
    (t.pipes.entries id).contents = (s.pipes.entries id).contents.drop len) ∨
  ((t.pcb s.runningProc).uc.regs 0 = errorCode ∧
    (t.pipes.entries id).contents = (s.pipes.entries id).contents)

theorem pipeReadLoop_spec {id len : Nat} {buf : Word} (hWf : (s.pipes.entries id).Wf) (hLen : 0 < len)
    (h : s.pipeReadLoop id buf len = .ok t) : PipeReads s t id buf len := by
  unfold pipeReadLoop at h
  split at h
  · obtain rfl := Except.ok.inj h
    exact Or.inr (Or.inr ⟨ret_result s errorCode, rfl⟩)
  · rename_i pipe hPipe
    obtain ⟨-, -, rfl⟩ := getPipe_eq_some.mp hPipe
    split_ifs at h with hEmpty
    · obtain rfl := Except.ok.inj h
      have hNil : (s.pipes.entries id).contents = [] := by
        rw [← List.length_eq_zero_iff, Pipe.length_contents, hEmpty]
      have hCpu := cpu_switchAway (s.pipeBlock id) (.pipeRead id buf len)
      have hView : ((s.pipeBlock id).switchAway (.pipeRead id buf len)).pipeView = s.pipeView := by
        rw [pipeView_of_devices (congrArg Devices.pipes (devices_switchAway _ _))
          (congrArg Devices.log (devices_switchAway _ _))]
        exact pipeView_parks (@Parks.pipe _ .math s _ _ buf _ hPipe hEmpty hLen)
      refine Or.inl ⟨congrArg Cpu.mode hCpu, ?_, hNil, ?_⟩
      · have hKc := congrFun (congrArg Cpu.kc hCpu) s.runningProc
        have hRunning : (s.pipeBlock id).runningProc = s.runningProc := rfl
        rw [hRunning] at hKc
        exact hKc.trans (Function.update_self _ _ _)
      · rw [← hNil]
        exact (congrArg Pipe.contents (congrFun (congrArg PipeView.data hView) id) :)
    · obtain ⟨mem, hStore, h⟩ := Transition.bind_eq_ok.mp h
      obtain rfl := Except.ok.inj h
      obtain ⟨-, hBytes, hLeft⟩ := Pipe.readBytes_spec hWf len
      have hCount : ((s.pipes.entries id).readBytes len).2.length = min len (s.pipes.entries id).len := by
        rw [hBytes, List.length_take, Pipe.length_contents]
      refine Or.inr (Or.inl ⟨_, hBytes, by omega, hCount, hStore, ?_, ?_⟩)
      · exact ret_result (((s.setPipe id _).setMem mem).emit _) _
      · rw [← hLeft]
        simp [setPipe, Table.set, emit, setMem, ret, setResult, modifyPcb]

theorem kernelPipeRead_spec (id : Nat) {len : Nat} (hWf : (s.pipes.entries id).Wf)
    (hName : getId (s.reg 0) = id) (hReg : (s.reg 2).toInt = len) (hLen : 0 < len)
    (h : s.kernelPipeRead = .ok t) : PipeReads s t id (s.reg 1) len := by
  have hError (hErr : (.ok (s.ret errorCode) : Except Stop Kernel) = .ok t) :
      PipeReads s t id (s.reg 1) len := by
    obtain rfl := Except.ok.inj hErr
    exact Or.inr (Or.inr ⟨ret_result s errorCode, rfl⟩)
  unfold kernelPipeRead guardBuf pipeReadImpl at h
  dsimp only at h
  split_ifs at h
  · exact hError h
  · omega
  · rw [hName, hReg, Int.toNat_natCast] at h
    exact pipeReadLoop_spec hWf hLen h
  · exact hError h

/-- A call of `PipeRead` on pipe `id`, or the continuation of one that had
waited. -/
def ReadsPipe (s : Kernel) (label : Label) (id : Nat) (buf : Word) (len : Nat) : Prop :=
  (∃ uc o, label = .syscall .pipeRead uc o ∧ getId (uc.regs 0) = id ∧ uc.regs 1 = buf ∧
    (uc.regs 2).toInt = len) ∨
  (∃ o, label = .resume o ∧ (s.pcb s.runningProc).kc = some (.pipeRead id buf len))

theorem pipeWrites_step {uc : UserContext} {o : Outcomes} {id len : Nat}
    (hWf : (s.pipes.entries id).Wf) (hName : getId (uc.regs 0) = id) (hReg : (uc.regs 2).toInt = len)
    (hLen : 0 < len) (hStep : s.step (.syscall .pipeWrite uc o) = .ok t) :
    PipeWrites s t id (uc.regs 1) len := by
  simp only [step] at hStep
  split_ifs at hStep with hUser
  obtain ⟨u, hCall, hLeave⟩ := Transition.bind_eq_ok.mp hStep
  obtain rfl := Except.ok.inj hLeave
  have hSpec := kernelPipeWrite_spec (s := s.saveUc uc) (o := o) id hWf
    (by rwa [reg_saveUc]) (by rw [reg_saveUc]; omega) hCall
  simp only [reg_saveUc, hReg, Int.toNat_natCast] at hSpec
  unfold PipeWrites
  rw [leave_pcb, leave_pipes]
  exact hSpec

theorem pipeReads_step {label : Label} {id len : Nat} {buf : Word} (hWf : (s.pipes.entries id).Wf)
    (hReads : ReadsPipe s label id buf len) (hLen : 0 < len) (hStep : s.step label = .ok t) :
    PipeReads s t id buf len := by
  have hLeave (u : Kernel) (h : PipeReads s u id buf len) : PipeReads s u.leave id buf len := by
    unfold PipeReads
    rw [leave_pcb, leave_pipes]
    have hMode : u.leave.mode = u.mode := (Quiet.leave u).mode
    have hMem : u.leave.mem = u.mem := by
      unfold leave
      split <;> rfl
    rw [hMode, hMem]
    exact h
  rcases hReads with ⟨uc, o, rfl, hName, rfl, hReg⟩ | ⟨o, rfl, hKc⟩
  · simp only [step] at hStep
    split_ifs at hStep with hUser
    obtain ⟨u, hCall, hStop⟩ := Transition.bind_eq_ok.mp hStep
    obtain rfl := Except.ok.inj hStop
    have hSpec := kernelPipeRead_spec (s := s.saveUc uc) id hWf (by rwa [reg_saveUc])
      (by rwa [reg_saveUc]) hLen hCall
    rw [reg_saveUc] at hSpec
    exact hLeave u hSpec
  · simp only [step] at hStep
    split_ifs at hStep with hMode
    simp only [resume, hKc] at hStep
    obtain ⟨u, hCall, hStop⟩ := Transition.bind_eq_ok.mp hStep
    obtain rfl := Except.ok.inj hStop
    exact hLeave u (pipeReadLoop_spec (s := { s with mode := .user }) hWf hLen hCall)

end Calls

end Kernel

namespace KernelStart

theorem fifo_reachable [Hardware] {s : Kernel} (run : system.Reachable s) : s.pipeView.Fifo := by
  refine invariant (I := fun s => s.pipeView.Fifo) ?_
    (fun _ s t hSound hFifo hEffect => Kernel.fifo_effect hFifo hSound hEffect)
    (fun s id len _ hFifo => ?_) (fun _ _ _ hFifo _ _ => hFifo) run
  · intro uctxt early late id hUse
    have hDevices := devices_kernelStart uctxt early late
    rw [Kernel.pipeView_of_devices (congrArg Devices.pipes hDevices) (congrArg Devices.log hDevices)] at hUse
    cases hUse
  · rw [Kernel.pipeView_read]
    exact hFifo

/-- A pipe is a queue of bytes. What it holds is what was written and not yet
read; a write appends and a read takes from the front. -/
theorem pipe_fifo [Hardware] {s : Kernel} (run : system.Reachable s) {id : Nat}
    (hUse : (s.pipes.entries id).inUse = true) :
    let pipe := s.pipes.entries id
    (0 < pipe.cap ∧ pipe.head < pipe.cap ∧ pipe.len ≤ pipe.cap) ∧
    (pipeHistory id s.trace).1 = (pipeHistory id s.trace).2 ++ pipe.contents ∧
    (pipeHistory id s.trace).2 <+: (pipeHistory id s.trace).1 ∧
    (∀ uc o t (len : Nat), getId (uc.regs 0) = id → (uc.regs 2).toInt = (len : Int) → 0 < len →
      s.step (.syscall .pipeWrite uc o) = .ok t → s.PipeWrites t id (uc.regs 1) len) ∧
    (∀ label buf t len, s.ReadsPipe label id buf len → 0 < len → s.step label = .ok t →
      s.PipeReads t id buf len) := by
  intro pipe
  obtain ⟨hWf, hHistory⟩ := fifo_reachable run id hUse
  rw [show s.pipeView.data id = pipe.data from rfl, Pipe.wf_data] at hWf
  have hHistory : (pipeHistory id s.trace).1 = (pipeHistory id s.trace).2 ++ pipe.contents := by
    rw [← pipeHistory_filter]
    exact hHistory
  refine ⟨⟨hWf.cap_pos, hWf.head_lt, hWf.len_le⟩, hHistory, ⟨pipe.contents, hHistory.symm⟩, ?_, ?_⟩
  · intro uc o t len hName hReg hLen hStep
    exact Kernel.pipeWrites_step hWf hName hReg hLen hStep
  · intro label buf t len hReads hLen hStep
    exact Kernel.pipeReads_step hWf hReads hLen hStep

open Sample in
/-- Three bytes written to a new pipe, two of them read. -/
theorem pipe_fifo_partial : ∃ s : Kernel, system.Reachable s ∧ (s.pipes.entries 0).inUse = true ∧
    (pipeHistory 0 s.trace).1.length = 3 ∧ (pipeHistory 0 s.trace).2.length = 2 ∧
    (pipeHistory 0 s.trace).1 = (pipeHistory 0 s.trace).2 ++ (s.pipes.entries 0).contents := by
  obtain ⟨s, run, hUse, hWritten, hRead⟩ := Transition.System.exists_reachable
    (P := fun s : Kernel => (s.pipes.entries 0).inUse = true ∧
      (pipeHistory 0 s.trace).1.length = 3 ∧ (pipeHistory 0 s.trace).2.length = 2)
    (turn ++ [call .pipeInit [208], call .pipeWrite [createId pipeFlag 0, 208, 3],
      call .pipeRead [createId pipeFlag 0, 208, 2]]) initial_booted (by decide +kernel)
  exact ⟨s, run, hUse, hWritten, hRead, (pipe_fifo run hUse).2.1⟩

end KernelStart
end Yalnix
