import Yalnix.Process.Waiting

/-! The state fields of the control blocks beside the log of the ready queue.
The scheduler's two calls change both together; the other operations of the
kernel are silent about either. -/
namespace Yalnix

open Hardware Identifiers Fifo Relation

/-- Who runs, the state fields, and the log of the ready queue. The state of the
idle process means nothing and is left out. -/
structure Agenda where
  idleProc : Proc
  runningProc : Proc
  state : Proc → ProcessState
  log : List (Entry Proc)

namespace Agenda

/-- `proc->state = state`. -/
def mark (g : Agenda) (p : Proc) (state : ProcessState) : Agenda :=
  if p = g.idleProc then g else { g with state := Function.update g.state p state }

/-- `schedule_process`. -/
def ready (g : Agenda) (p : Proc) : Agenda :=
  if p = g.idleProc then g
  else { g with state := Function.update g.state p .ready, log := g.log ++ [.join p] }

/-- `get_next_process` with this result. -/
def dispatch (g : Agenda) (n : Proc) : Agenda :=
  { g.mark n .running with log := g.log ++ [if n = g.idleProc then .idle else .serve n] }

/-- A switch to another process. -/
def run (g : Agenda) (n : Proc) : Agenda := { g with runningProc := n }

theorem run_eq {g : Agenda} {n : Proc} (h : g.runningProc = n) : g.run n = g := by
  rw [← h]
  rfl

/-- Processes are made ready, and nothing else. -/
abbrev Readies : Agenda → Agenda → Prop := ReflTransGen fun g h => ∃ p, h = g.ready p

/-- The state field of a process says where it is. -/
structure Tells (g : Agenda) (p : Proc) : Prop where
  ready : pending p g.log = true ↔ g.state p = .ready
  running : g.state p = .running ↔ p = g.runningProc

variable {g h : Agenda} {p : Proc}

theorem mark_state_of_ne {q : Proc} (hp : p ≠ q) (state : ProcessState) :
    (g.mark q state).state p = g.state p := by
  unfold mark
  split_ifs
  · rfl
  · exact Function.update_of_ne hp _ _

theorem mark_state {q : Proc} (hq : q ≠ g.idleProc) (state : ProcessState) :
    (g.mark q state).state q = state := by
  rw [mark, if_neg hq]
  exact Function.update_self _ _ _

@[simp] theorem mark_log (g : Agenda) (p : Proc) (state : ProcessState) : (g.mark p state).log = g.log := by
  unfold mark
  split_ifs <;> rfl

@[simp] theorem mark_idleProc (g : Agenda) (p : Proc) (state : ProcessState) :
    (g.mark p state).idleProc = g.idleProc := by
  unfold mark
  split_ifs <;> rfl

@[simp] theorem mark_runningProc (g : Agenda) (p : Proc) (state : ProcessState) :
    (g.mark p state).runningProc = g.runningProc := by
  unfold mark
  split_ifs <;> rfl

theorem Readies.refl_of (hSame : h = g) : Readies g h := hSame ▸ .refl

/-- A mark that is taken back. -/
theorem mark_mark {state : ProcessState} {other : ProcessState} (hState : g.state p = state) :
    (g.mark p other).mark p state = g := by
  unfold mark
  by_cases hp : p = g.idleProc
  · simp [hp]
  · simp [hp, ← hState]

/-- Being made ready again is the only thing that happened to a process. -/
theorem Readies.cases (hReadies : Readies g h) (p : Proc) : h.idleProc = g.idleProc ∧
    h.runningProc = g.runningProc ∧ (h.state p = g.state p ∧ pending p h.log = pending p g.log ∨
      h.state p = .ready ∧ pending p h.log = true) := by
  induction hReadies with
  | refl => exact ⟨rfl, rfl, Or.inl ⟨rfl, rfl⟩⟩
  | @tail next last _ hLast ih =>
      obtain ⟨q, rfl⟩ := hLast
      unfold ready
      split_ifs
      · exact ih
      · refine ⟨ih.1, ih.2.1, ?_⟩
        by_cases hq : q = p
        · subst hq
          exact Or.inr ⟨Function.update_self _ _ _, by simp⟩
        · simpa [Function.update_of_ne (Ne.symm hq), hq] using ih.2.2

/-- A dispatched process runs, and nobody else does. -/
theorem Tells.run_dispatch {n : Proc} (hReady : pending p g.log = true ↔ g.state p = .ready)
    (hRunning : p ≠ n → g.state p ≠ .running) (hp : p ≠ g.idleProc) : ((g.dispatch n).run n).Tells p := by
  by_cases hn : p = n
  · subst hn
    refine ⟨?_, ?_⟩
    · simp [run, dispatch, hp, mark_state hp]
    · simp [run, dispatch, mark_state hp]
  · have hLog : pending p (g.dispatch n).log = pending p g.log := by
      unfold dispatch
      split_ifs
      · simp
      · simp [Ne.symm hn]
    have hState : (g.dispatch n).state p = g.state p := mark_state_of_ne hn .running
    refine ⟨?_, ?_⟩
    · simp only [run, hLog, hState, hReady]
    · simp only [run, hState, hRunning hn, hn]

end Agenda

namespace Kernel

/-- The state fields and the log of the ready queue. -/
def agenda (s : Kernel) : Agenda where
  idleProc := s.idleProc
  runningProc := s.runningProc
  state p := if p = s.idleProc then .running else (s.pcb p).state
  log := s.log (.sched .main)

variable {s t : Kernel}

theorem agenda_fst {β : Type} {r : Kernel × β} {b : β} (hAgenda : r.1.agenda = s.agenda) (h : r = (t, b)) :
    t.agenda = s.agenda := by
  rw [h] at hAgenda
  exact hAgenda

theorem agenda_emit (s : Kernel) {e : Event} (he : ∀ log, e.enter s.idleProc (.sched .main) log = log) :
    (s.emit e).agenda = s.agenda := by
  simp only [agenda, log_emit, he]
  rfl

theorem agenda_modifyPcb {p : Proc} {f : Pcb → Pcb} (hState : (f (s.pcb p)).state = (s.pcb p).state) :
    (s.modifyPcb p f).agenda = s.agenda := by
  simp only [agenda, pcb_modifyPcb (v := Pcb.state) hState]
  rfl

/-- A change of one control block that sets its state. -/
theorem agenda_mark {p : Proc} {f : Pcb → Pcb} {state : ProcessState} (hState : (f (s.pcb p)).state = state) :
    (s.modifyPcb p f).agenda = s.agenda.mark p state := by
  have hField (q : Proc) : (if q = s.idleProc then .running else ((s.modifyPcb p f).pcb q).state) =
      (s.agenda.mark p state).state q := by
    by_cases hq : q = p
    · subst hq
      by_cases hIdle : q = s.idleProc
      · simp [Agenda.mark, agenda, hIdle]
      · rw [Agenda.mark_state (g := s.agenda) hIdle, if_neg hIdle]
        simpa [modifyPcb] using hState
    · rw [Agenda.mark_state_of_ne hq]
      simp [agenda, modifyPcb, Function.update_of_ne hq]
  have hMark : s.agenda.mark p state = { s.agenda with state := (s.agenda.mark p state).state } := by
    unfold Agenda.mark
    split_ifs <;> rfl
  rw [hMark, ← funext hField]
  rfl

theorem agenda_setState (s : Kernel) (p : Proc) (state : ProcessState) :
    (s.setState p state).agenda = s.agenda.mark p state := agenda_mark rfl

theorem agenda_quiet (h : Quiet s t) : t.agenda = s.agenda := by
  simp only [agenda, h.idleProc, h.runningProc, h.state, h.log]

theorem agenda_setTty (s : Kernel) (id : Nat) (tty : Tty) : (s.setTty id tty).agenda = s.agenda := rfl
theorem agenda_setPipe (s : Kernel) (id : Nat) (pipe : Pipe) : (s.setPipe id pipe).agenda = s.agenda := rfl

/-- The two changes that `schedule_process` makes. -/
theorem agenda_scheduleProcess (s : Kernel) (p : Proc) :
    (s.scheduleProcess p).agenda = s.agenda.ready p := by
  unfold scheduleProcess Agenda.ready
  have hIdle : s.agenda.idleProc = s.idleProc := rfl
  rw [hIdle]
  split_ifs with hp
  · rfl
  · have hState : ((s.setState p .ready).enqueProcess .main p).agenda = s.agenda.mark p .ready :=
      agenda_setState s p .ready
    have hMark : s.agenda.mark p .ready =
        { s.agenda with state := Function.update s.agenda.state p .ready } := if_neg hp
    have hLog : (((s.setState p .ready).enqueProcess .main p).emit (.ready p)).log (.sched .main) =
        s.log (.sched .main) ++ [.join p] := log_emit _ _ _
    rw [hMark] at hState
    have hEmit : (((s.setState p .ready).enqueProcess .main p).emit (.ready p)).agenda =
        { ((s.setState p .ready).enqueProcess .main p).agenda with
          log := s.log (.sched .main) ++ [.join p] } := by
      rw [← hLog]
      rfl
    rw [hEmit, hState]
    rfl

theorem agenda_dequeProcess (s : Kernel) : s.dequeProcess.1.agenda = s.agenda := by
  unfold dequeProcess
  dsimp only
  split
  · rfl
  · split <;> rfl

theorem agenda_dispatched (s : Kernel) (n : Proc) : (s.emit (.dispatched n)).agenda =
    { s.agenda with log := s.agenda.log ++ [if n = s.idleProc then .idle else .serve n] } := by
  have hLog : (s.emit (.dispatched n)).log (.sched .main) =
      s.log (.sched .main) ++ [if n = s.idleProc then .idle else .serve n] := log_emit s _ _
  have hEmit : (s.emit (.dispatched n)).agenda =
      { s.agenda with log := (s.emit (.dispatched n)).log (.sched .main) } := rfl
  rw [hEmit, hLog]
  rfl

/-- The two changes that `get_next_process` makes. -/
theorem agenda_getNextProcess (s : Kernel) :
    s.getNextProcess.1.agenda = s.agenda.dispatch s.getNextProcess.2 := by
  have hDeque := agenda_dequeProcess s
  unfold getNextProcess
  split
  · rename_i next hNone
    rw [hNone] at hDeque
    have hNext : next.agenda = s.agenda := hDeque
    have hIdle : next.idleProc = s.agenda.idleProc := congrArg Agenda.idleProc hNext
    rw [agenda_dispatched, hNext, hIdle]
    simp [Agenda.dispatch, Agenda.mark]
  · rename_i next n hSome
    rw [hSome] at hDeque
    have hNext : next.agenda = s.agenda := hDeque
    have hIdle : (next.setState n .running).idleProc = s.agenda.idleProc := congrArg Agenda.idleProc hNext
    rw [agenda_dispatched, agenda_setState, hNext, hIdle]
    simp [Agenda.dispatch]

theorem agenda_newLock (s : Kernel) (capacity : Nat) (growOk pidsOk : Bool) :
    (s.newLock capacity growOk pidsOk).1.agenda = s.agenda := by
  unfold newLock
  dsimp only
  split
  · rfl
  · exact agenda_emit _ fun _ => rfl

theorem agenda_deleteLock (s : Kernel) (id : Nat) (shrinkOk : Bool) :
    (s.deleteLock id shrinkOk).1.agenda = s.agenda := by
  unfold deleteLock
  dsimp only
  split_ifs
  · rfl
  · exact agenda_emit _ fun _ => rfl

theorem agenda_deleteCvar (s : Kernel) (id : Nat) (shrinkOk : Bool) :
    (s.deleteCvar id shrinkOk).1.agenda = s.agenda := by
  unfold deleteCvar
  dsimp only
  split_ifs <;> rfl

theorem agenda_pipeReclaim (s : Kernel) (id : Nat) : (s.pipeReclaim id).1.agenda = s.agenda := by
  unfold pipeReclaim
  split
  · rfl
  · split_ifs
    · rfl
    · exact agenda_emit _ fun _ => rfl

theorem agenda_acquire (s : Kernel) (id : Nat) (p : Proc) (cvarUse : Bool) :
    (s.acquire id p cvarUse).1.agenda = s.agenda := by
  have hRequested : (s.emit (.lockRequested id p)).agenda = s.agenda := agenda_emit s fun _ => rfl
  unfold acquire
  dsimp only
  split
  · rfl
  · split
    · exact (agenda_emit _ fun _ => rfl).trans hRequested
    · exact hRequested

/-- A release makes at most one process ready. -/
theorem readies_release (s : Kernel) (id : Nat) (p : Proc) (cvarUse : Bool) :
    Agenda.Readies s.agenda (s.release id p cvarUse).1.agenda := by
  unfold release
  dsimp only
  split
  · exact .refl
  · split
    · have hSame : (s.emit (.lockReleased id p)).agenda = s.agenda := agenda_emit s fun _ => rfl
      exact hSame ▸ .refl
    · rename_i waiter next ends _
      refine .single ⟨waiter, ?_⟩
      rw [agenda_scheduleProcess]
      congr 1
      exact (agenda_emit _ fun _ => rfl).trans (agenda_emit s fun _ => rfl)

theorem agenda_popCvar (s : Kernel) (id : Nat) : (s.popCvar id).1.agenda = s.agenda := by
  unfold popCvar
  dsimp only
  split <;> rfl

theorem readies_reacquire (s : Kernel) (p : Proc) : Agenda.Readies s.agenda (s.reacquire p).agenda := by
  unfold reacquire
  split
  · rename_i next hAcquire
    rw [agenda_scheduleProcess, agenda_fst (agenda_acquire s _ _ _) hAcquire]
    exact .single ⟨p, rfl⟩
  · rename_i next result _ hAcquire
    rw [agenda_fst (agenda_acquire s _ _ _) hAcquire]

theorem readies_wakeReaders (s : Kernel) (id fuel : Nat) :
    Agenda.Readies s.agenda (s.wakeReaders id fuel).agenda := by
  induction fuel generalizing s with
  | zero => exact .refl
  | succ fuel ih =>
      unfold wakeReaders
      split
      · exact .refl
      · rename_i proc next ends _
        refine .trans (.single ⟨proc, ?_⟩) (ih _)
        exact agenda_scheduleProcess _ proc

theorem agenda_addToHeap {p : Proc} {growOk : Bool} (h : s.addToHeap p growOk = some t) :
    t.agenda = s.agenda := by
  unfold addToHeap at h
  dsimp only at h
  split at h
  · cases h
  · obtain rfl := Option.some.inj h
    rfl

theorem agenda_putToSleep {p : Proc} {ticks : Word} {growOk : Bool}
    (h : s.putToSleep p ticks growOk = (t, true)) : t.agenda = s.agenda.mark p .waiting := by
  unfold putToSleep at h
  dsimp only at h
  split at h
  · rename_i asleep hAdd
    obtain ⟨rfl, -⟩ := Prod.mk.inj h
    rw [agenda_addToHeap hAdd]
    exact agenda_mark rfl
  · cases h

/-- When the heap cannot grow, the caller is marked twice. -/
theorem agenda_putToSleep_fail {p : Proc} {ticks : Word} {growOk : Bool}
    (h : s.putToSleep p ticks growOk = (t, false)) :
    t.agenda = (s.agenda.mark p .waiting).mark p .running := by
  unfold putToSleep at h
  dsimp only at h
  split at h
  · cases h
  · obtain ⟨rfl, -⟩ := Prod.mk.inj h
    rw [agenda_setState]
    congr 1
    exact agenda_mark rfl

theorem agenda_waitBlockProcess (s : Kernel) (p : Proc) :
    (s.waitBlockProcess p).agenda = s.agenda.mark p .waiting := agenda_setState s p .waiting

theorem agenda_pipeBlock (s : Kernel) (id : Nat) :
    (s.pipeBlock id).agenda = s.agenda.mark s.runningProc .waiting := by
  unfold pipeBlock
  exact agenda_setState _ _ _

theorem agenda_ttyReadBlock (s : Kernel) (id len : Nat) (buf : Word) :
    (s.ttyReadBlock id buf len).agenda = s.agenda.mark s.runningProc .waiting := by
  have hRequest : (s.modifyPcb s.runningProc fun p =>
      { p with ioUserBuf := buf, ioLen := len, ioTtyId := id }).agenda = s.agenda := agenda_modifyPcb rfl
  unfold ttyReadBlock
  dsimp only
  rw [agenda_setState]
  exact congrArg (fun g => g.mark s.runningProc .waiting) hRequest

theorem agenda_ttyWriteReturn (s : Kernel) (id : Nat) : (s.ttyWriteReturn id).agenda = s.agenda := by
  have hFreed : (s.modifyPcb s.runningProc fun p => { p with ioKbuf := [] }).agenda = s.agenda :=
    agenda_modifyPcb rfl
  exact (agenda_emit _ fun _ => rfl).trans ((agenda_quiet (Quiet.ret _ _)).trans hFreed)

theorem agenda_findBlockedFrom {type : QueueType} {cond : Kernel → Proc → Option Kernel}
    (hCond : ∀ p u, cond s p = some u → Quiet s u) (fuel : Nat) (prev curr : Option Proc) :
    (s.findBlockedFrom type cond fuel prev curr).1.agenda = s.agenda := by
  induction fuel generalizing prev curr with
  | zero => cases curr <;> rfl
  | succ fuel ih =>
      cases curr with
      | none => rfl
      | some curr =>
          unfold findBlockedFrom
          split
          · exact ih _ _
          · rename_i u hFound
            have hSame : u.agenda = s.agenda := agenda_quiet (hCond curr u hFound)
            exact hSame

theorem agenda_findWaiter (s : Kernel) (shrinkOk : Bool) :
    (s.findBlockedProcess .waitBlocking (waitUnblockCond shrinkOk)).1.agenda = s.agenda :=
  agenda_findBlockedFrom (fun _ _ h => Quiet.waitUnblockCond h) _ _ _

theorem agenda_consume (s : Kernel) (id len : Nat) : (s.consume id len).1.agenda = s.agenda := by
  unfold consume
  split
  · rfl
  · dsimp only
    split_ifs <;> rfl

theorem agenda_read (s : Kernel) (id len : Nat) : (s.read id len).agenda = s.agenda :=
  (agenda_emit _ fun _ => rfl).trans (agenda_consume s id len)

theorem agenda_wqPop (s : Kernel) (id : Nat) : (s.wqPop id).1.agenda = s.agenda := by
  unfold wqPop
  split <;> rfl

theorem agenda_rqPop (s : Kernel) (id : Nat) : (s.rqPop id).1.agenda = s.agenda := by
  unfold rqPop
  split <;> rfl

variable [Hardware]

theorem agenda_newPipe (s : Kernel) (growOk bufOk : Bool) :
    (s.newPipe growOk bufOk).1.agenda = s.agenda := by
  unfold newPipe
  dsimp only
  split
  · rfl
  · exact agenda_emit _ fun _ => rfl

theorem agenda_startChunk (s : Kernel) (id : Nat) : (s.startChunk id).agenda = s.agenda := by
  unfold startChunk
  split
  · rfl
  · exact agenda_emit _ fun _ => rfl

theorem agenda_ttyWriteBlock (s : Kernel) (id : Nat) (bytes : List Byte) :
    (s.ttyWriteBlock id bytes).agenda = s.agenda.mark s.runningProc .waiting := by
  have hRecord : (s.ttyRecord id bytes).agenda = s.agenda :=
    (agenda_emit _ fun _ => rfl).trans (agenda_modifyPcb rfl)
  unfold ttyWriteBlock
  dsimp only
  rw [agenda_setState]
  congr 1
  split
  · exact (agenda_startChunk _ id).trans hRecord
  · exact hRecord

theorem agenda_ttyHandOver (s : Kernel) (id : Nat) : (s.ttyHandOver id).agenda = s.agenda := by
  unfold ttyHandOver
  split
  · rename_i next hPop
    exact (agenda_fst (agenda_wqPop s id) hPop :)
  · rename_i next proc hPop
    rw [agenda_startChunk, agenda_setTty]
    exact agenda_fst (agenda_wqPop s id) hPop

theorem readies_ttyTransmitDone (s : Kernel) (ttyId : Int) :
    Agenda.Readies s.agenda (s.ttyTransmitDone ttyId).agenda := by
  unfold ttyTransmitDone
  split_ifs
  · exact .refl
  · dsimp only
    have hTrap : (s.emit (.ttyTransmitTrap ttyId.toNat)).agenda = s.agenda := agenda_emit s fun _ => rfl
    split
    · rw [hTrap]
    · rename_i owner _
      have hDone : ((s.emit (.ttyTransmitTrap ttyId.toNat)).ttyChunkDone ttyId.toNat owner).agenda =
          s.agenda := by
        refine Eq.trans ?_ hTrap
        have hSent := agenda_modifyPcb (s := s.emit (.ttyTransmitTrap ttyId.toNat)) (p := owner)
          (f := fun p => { p with ioSent := p.ioSent + (s.ttys ttyId.toNat).txLastChunk }) rfl
        exact hSent
      split_ifs
      · rw [agenda_startChunk, hDone]
      · refine .single ⟨owner, ?_⟩
        unfold ttyFinish
        rw [agenda_ttyHandOver, agenda_scheduleProcess]
        congr 1
        exact (agenda_emit _ fun _ => rfl).trans hDone

theorem readies_ttyReceiveDone (s : Kernel) (ttyId : Int) (line : List Byte) (lineOk : Bool) :
    Agenda.Readies s.agenda (s.ttyReceiveDone ttyId line lineOk).agenda := by
  unfold ttyReceiveDone
  split_ifs
  · exact .refl
  · exact .refl
  · have hLine : (s.appendLine ttyId.toNat line).agenda = s.agenda := agenda_emit _ fun _ => rfl
    unfold ttyDeliver
    split
    · rename_i next hPop
      rw [agenda_fst (agenda_rqPop (s.appendLine ttyId.toNat line) ttyId.toNat) hPop, hLine]
    · rename_i next reader hPop
      rw [agenda_scheduleProcess,
        agenda_fst (agenda_rqPop (s.appendLine ttyId.toNat line) ttyId.toNat) hPop, hLine]
      exact .single ⟨reader, rfl⟩

theorem agenda_fullContextSwitch (s : Kernel) (curr : Option (Proc × KernelContext)) (n : Proc) :
    (s.fullContextSwitch curr n).agenda = s.agenda.run n := by
  cases curr with
  | none => rfl
  | some saved =>
      have hSaved := agenda_modifyPcb (s := { s.setMem (UserMemory.ucSwitch s.mem n) with runningProc := n })
        (p := saved.1) (f := fun p => { p with kc := some saved.2 }) rfl
      exact hSaved

theorem agenda_switchAway (s : Kernel) (kc : KernelContext) : (s.switchAway kc).agenda =
    (s.agenda.dispatch s.getNextProcess.2).run s.getNextProcess.2 := by
  unfold switchAway
  dsimp only
  rw [agenda_fullContextSwitch, agenda_getNextProcess]

end Kernel
end Yalnix
