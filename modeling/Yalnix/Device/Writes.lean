import Yalnix.Device.Terminal
import Yalnix.Device.Output

/-! The kernel's terminals behave as their output sides say, so the bytes of
terminal writes go out in order and each writer waits for its last chunk. -/
namespace Yalnix

open Hardware

/-- What an event adds to the ledger of terminal `id`. -/
def Event.recordOutput (id : Nat) (l : Ledger) : Event → Ledger
  | .ttyWritten k p bytes => if k = id then l.accept (p, bytes) else l
  | .ttyTransmit k chunk => if k = id then l.transmit chunk else l
  | .ttyTransmitTrap k => if k = id then l.trap else l
  | .ttyWriteDone k p => if k = id then l.finish p else l
  | _ => l

/-- The ledger of terminal `id` after a run. -/
def outputLedger (id : Nat) (trace : List Event) : Ledger :=
  trace.foldl (Event.recordOutput id) .empty

theorem outputLedger_filter (id : Nat) (trace : List Event) :
    outputLedger id (trace.filter Event.isTty) = outputLedger id trace := by
  have hOther : (fun l (e : Event) => if e.isTty = true then e.recordOutput id l else l) =
      Event.recordOutput id := by
    funext l e
    cases e <;> rfl
  rw [outputLedger, List.foldl_filter, hOther, outputLedger]

namespace Kernel

/-- The output side of terminal `id`, when `writers` wait for it. -/
def outputOf (s : Kernel) (id : Nat) (writers : List Proc) : Output where
  owner := (s.ttys id).txOwner
  chunk := (s.ttys id).txLastChunk
  writers := writers
  writing p := s.Inside p (.ttyWrite id)
  transfer p := if s.Inside p (.ttyWrite id) then (s.pcb p).transfer else ⟨[], 0, 0⟩
  ledger := outputLedger id s.trace

/-- The output side of terminal `id`. -/
def output (s : Kernel) (id : Nat) : Output := s.outputOf id (s.contents (.queue (.writer id)))

variable {s t : Kernel} {id k : Nat} {p : Proc} {writers : List Proc}

@[simp] theorem outputLedger_emit (s : Kernel) (e : Event) :
    outputLedger id (s.emit e).trace = e.recordOutput id (outputLedger id s.trace) := by
  simp [outputLedger, emit]

theorem outputLedger_congr (id : Nat) (h : t.ttyView.log = s.ttyView.log) :
    outputLedger id t.trace = outputLedger id s.trace := by
  rw [← outputLedger_filter, ← outputLedger_filter id s.trace]
  exact congrArg (outputLedger id) h

theorem transfer_outputOf (writers : List Proc) (hInside : s.Inside p (.ttyWrite id)) :
    (s.outputOf id writers).transfer p = (s.pcb p).transfer := if_pos hInside

/-- The output side of a terminal depends on the calls on it only. -/
theorem outputOf_congr (hOwner : (t.ttys id).txOwner = (s.ttys id).txOwner)
    (hChunk : (t.ttys id).txLastChunk = (s.ttys id).txLastChunk)
    (hInside : ∀ p, t.Inside p (.ttyWrite id) ↔ s.Inside p (.ttyWrite id))
    (hTransfer : ∀ p, s.Inside p (.ttyWrite id) → (t.pcb p).transfer = (s.pcb p).transfer)
    (hLedger : outputLedger id t.trace = outputLedger id s.trace) :
    t.outputOf id writers = s.outputOf id writers := by
  simp only [outputOf, hOwner, hChunk, hInside, hLedger, Output.mk.injEq, true_and, and_true]
  funext p
  split_ifs with hp
  · exact hTransfer p hp
  · rfl

theorem outputOf_of_outside (h : t.outside = s.outside) (hLive : t.Live = s.Live) :
    t.outputOf id writers = s.outputOf id writers := by
  have hDevices := devices_of_outside h
  have hTtys : t.ttys = s.ttys := congrArg Devices.ttys hDevices
  refine outputOf_congr (by rw [hTtys]) (by rw [hTtys])
    (fun p => inside_iff_of_cpu (cpu_of_outside h) hLive)
    (fun p _ => congrFun (congrArg Devices.transfer hDevices) p) (outputLedger_congr id ?_)
  exact congrArg TtyView.log (ttyView_of_outside h)

/-- An effect elsewhere leaves the output side as it is. -/
theorem output_bystander (h : Bystander s t) : t.output id = s.output id := by
  have hTtys : t.ttys = s.ttys := congrArg TtyView.ttys h.same.1
  rw [output, h.queues (.queue (.writer id)) rfl]
  exact outputOf_congr (by rw [hTtys]) (by rw [hTtys]) (fun p => h.inside p _ rfl)
    (fun p hp => h.same.2 p hp.1) (outputLedger_congr id (congrArg TtyView.log h.same.1))

variable [Hardware]

section Operations

theorem startChunk_eq (hOwner : (s.ttys id).txOwner = some p) :
    s.startChunk id = (s.setTty id { s.ttys id with
      txLastChunk := if (s.pcb p).ioTotal - (s.pcb p).ioSent < terminalMaxLine then
        (s.pcb p).ioTotal - (s.pcb p).ioSent else terminalMaxLine
      transmitting := true }).emit (.ttyTransmit id (((s.pcb p).ioKbuf.drop (s.pcb p).ioSent).take
        (if (s.pcb p).ioTotal - (s.pcb p).ioSent < terminalMaxLine then
          (s.pcb p).ioTotal - (s.pcb p).ioSent else terminalMaxLine))) := by
  rw [startChunk, hOwner]

/-- A terminal other than the one that starts. -/
theorem outputOf_startChunk_of_ne (hk : id ≠ k) :
    (s.startChunk k).outputOf id writers = s.outputOf id writers := by
  unfold startChunk
  split
  · rfl
  · refine outputOf_congr ?_ ?_ (fun _ => Iff.rfl) (fun _ _ => rfl) ?_
    · simp [setTty, emit, Function.update_of_ne hk]
    · simp [setTty, emit, Function.update_of_ne hk]
    · rw [outputLedger_emit, Event.recordOutput, if_neg (Ne.symm hk)]
      rfl

/-- The next owner of a terminal starts. -/
theorem outputOf_own (hInside : s.Inside p (.ttyWrite id)) :
    ((s.setTty id { s.ttys id with txOwner := some p }).startChunk id).outputOf id writers =
      (s.outputOf id writers).start p := by
  rw [startChunk_eq (p := p) (by simp [setTty])]
  unfold Output.start
  rw [transfer_outputOf writers hInside]
  simp only [outputOf, outputLedger_emit, Event.recordOutput, if_true]
  simp only [setTty, emit, Function.update_self]
  rfl

theorem outputOf_own_of_ne (hk : id ≠ k) :
    ((s.setTty k { s.ttys k with txOwner := some p }).startChunk k).outputOf id writers =
      s.outputOf id writers := by
  rw [outputOf_startChunk_of_ne hk]
  refine outputOf_congr ?_ ?_ (fun _ => Iff.rfl) (fun _ _ => rfl) rfl
  · simp [setTty, Function.update_of_ne hk]
  · simp [setTty, Function.update_of_ne hk]

/-- The owner of a terminal goes on. -/
theorem outputOf_continue (hInside : s.Inside p (.ttyWrite id))
    (hOwner : (s.ttys id).txOwner = some p) :
    (s.startChunk id).outputOf id writers = (s.outputOf id writers).start p := by
  have hSame : s.setTty id { s.ttys id with txOwner := some p } = s := by
    rw [setTty, ← hOwner, Function.update_eq_self]
  rw [← outputOf_own hInside, hSame]

omit [Hardware] in
theorem outputOf_wqPop (s : Kernel) (k id : Nat) (writers : List Proc) :
    (s.wqPop k).1.outputOf id writers = s.outputOf id writers := by
  unfold wqPop
  split
  · rfl
  · refine outputOf_congr ?_ ?_ (fun _ => Iff.rfl) (fun _ _ => rfl) rfl
    all_goals
      by_cases hk : id = k
      · simp [setTty, setNext, hk]
      · simp [setTty, setNext, Function.update_of_ne hk]

omit [Hardware] in
theorem wqPop_snd (s : Kernel) (id : Nat) : (s.wqPop id).2 = (s.ttys id).writers.first := by
  unfold wqPop IntrusiveQueue.pop
  cases (s.ttys id).writers.first <;> rfl

omit [Hardware] in
theorem inside_wqPop {q : Proc} {kc : KernelContext} : (s.wqPop k).1.Inside q kc ↔ s.Inside q kc := by
  unfold wqPop
  split <;> rfl

/-- The terminal is handed over to the first waiting writer. -/
theorem outputOf_ttyHandOver (hFirst : (s.ttys id).writers.first = writers.head?)
    (hInside : ∀ q ∈ writers, s.Inside q (.ttyWrite id)) :
    (s.ttyHandOver id).outputOf id writers.tail = (s.outputOf id writers).handOver := by
  have hNext := wqPop_snd s id
  have hSame := outputOf_wqPop s id id writers.tail
  unfold ttyHandOver
  cases writers with
  | nil =>
      rw [hFirst] at hNext
      split <;> rename_i hPop <;> rw [hPop] at hNext hSame
      · exact hSame
      · cases hNext
  | cons q rest =>
      rw [hFirst] at hNext
      have hq := inside_wqPop (k := id).mpr (hInside q (by simp))
      split <;> rename_i hPop <;> rw [hPop] at hNext hSame hq
      · cases hNext
      · rename_i u first
        obtain rfl : first = q := Option.some.inj hNext
        rw [outputOf_own hq]
        exact congrArg (Output.start · first) hSame

theorem outputOf_ttyHandOver_of_ne (hk : id ≠ k) :
    (s.ttyHandOver k).outputOf id writers = s.outputOf id writers := by
  have hSame := outputOf_wqPop s k id writers
  unfold ttyHandOver
  split <;> rename_i hPop <;> rw [hPop] at hSame
  · exact hSame
  · rw [outputOf_own_of_ne hk, hSame]

omit [Hardware] in
theorem inside_ttyChunkDone {q : Proc} {kc : KernelContext} :
    (s.ttyChunkDone k p).Inside q kc ↔ s.Inside q kc := by
  refine inside_iff_of_cpu (cpu_ttyChunkDone s k p) (funext fun q => propext ?_)
  exact live_modifyPcb (s := s) (p := p)
    (f := fun pcb => { pcb with ioSent := pcb.ioSent + (s.ttys k).txLastChunk }) rfl Iff.rfl q

omit [Hardware] in
theorem outputOf_ttyChunkDone (hInside : s.Inside p (.ttyWrite id)) :
    (s.ttyChunkDone id p).outputOf id writers = (s.outputOf id writers).chunkDone p := by
  have hTty : (s.ttyChunkDone id p).ttys id = { s.ttys id with transmitting := false } := by
    simp [ttyChunkDone, setTty, modifyPcb]
  simp only [outputOf, Output.chunkDone, inside_ttyChunkDone, hTty, Output.mk.injEq, true_and]
  refine ⟨?_, rfl⟩
  funext q
  by_cases hq : q = p
  · subst hq
    simp [hInside, ttyChunkDone, setTty, modifyPcb, Pcb.transfer]
  · simp [Function.update_of_ne hq, ttyChunkDone, setTty, modifyPcb]

omit [Hardware] in
theorem outputOf_ttyChunkDone_of_ne (hk : id ≠ k) (hInside : s.Inside p (.ttyWrite k)) :
    (s.ttyChunkDone k p).outputOf id writers = s.outputOf id writers := by
  refine outputOf_congr ?_ ?_ (fun q => inside_ttyChunkDone) (fun q hq => ?_) rfl
  · simp [ttyChunkDone, setTty, modifyPcb, Function.update_of_ne hk]
  · simp [ttyChunkDone, setTty, modifyPcb, Function.update_of_ne hk]
  · have hNe : q ≠ p := by
      rintro rfl
      exact hk (KernelContext.ttyWrite.inj (hq.unique hInside))
    simp [ttyChunkDone, setTty, modifyPcb, Function.update_of_ne hNe]

omit [Hardware] in
theorem outputOf_trapped (s : Kernel) (id : Nat) (writers : List Proc) :
    (s.emit (.ttyTransmitTrap id)).outputOf id writers = (s.outputOf id writers).trapped := by
  simp only [outputOf, outputLedger_emit, Event.recordOutput, if_true]
  rfl

omit [Hardware] in
theorem outputOf_emit {e : Event} (he : ∀ l, e.recordOutput id l = l) :
    (s.emit e).outputOf id writers = s.outputOf id writers :=
  outputOf_congr rfl rfl (fun _ => Iff.rfl) (fun _ _ => rfl) (by rw [outputLedger_emit, he])

omit [Hardware] in
theorem outputOf_scheduleProcess (hLive : s.Live p) :
    (s.scheduleProcess p).outputOf id writers = s.outputOf id writers :=
  outputOf_of_outside (outside_scheduleProcess s p) (live_of_sync (sync_scheduleProcess hLive))

/-- The owner gives the terminal up and is ready again. -/
def ttyRelease (s : Kernel) (id : Nat) (p : Proc) : Kernel :=
  ((s.setTty id { s.ttys id with txOwner := none }).emit (.ttyWriteDone id p)).scheduleProcess p

omit [Hardware] in
theorem ttys_ttyRelease (s : Kernel) (id : Nat) (p : Proc) :
    (s.ttyRelease id p).ttys id = { s.ttys id with txOwner := none } := by
  have hTtys := congrArg Devices.ttys (devices_of_outside (outside_scheduleProcess
    ((s.setTty id { s.ttys id with txOwner := none }).emit (.ttyWriteDone id p)) p))
  refine (congrFun hTtys id).trans ?_
  simp [devices, setTty, emit]

omit [Hardware] in
theorem inside_ttyRelease {q : Proc} {kc : KernelContext} (hLive : s.Live p) :
    (s.ttyRelease id p).Inside q kc ↔ s.Inside q kc :=
  inside_iff_of_cpu (cpu_scheduleProcess ((s.setTty id { s.ttys id with txOwner := none }).emit
    (.ttyWriteDone id p)) p) (live_of_sync (sync_scheduleProcess (s := (s.setTty id
      { s.ttys id with txOwner := none }).emit (.ttyWriteDone id p)) hLive))

omit [Hardware] in
theorem outputOf_ttyRelease (hLive : s.Live p) :
    (s.ttyRelease id p).outputOf id writers = (s.outputOf id writers).release p := by
  rw [ttyRelease, outputOf_scheduleProcess (by exact hLive)]
  simp only [outputOf, outputLedger_emit, Event.recordOutput, if_true]
  simp only [setTty, emit, Function.update_self]
  rfl

omit [Hardware] in
theorem outputOf_ttyRelease_of_ne (hk : id ≠ k) (hLive : s.Live p) :
    (s.ttyRelease k p).outputOf id writers = s.outputOf id writers := by
  rw [ttyRelease, outputOf_scheduleProcess (by exact hLive),
    outputOf_emit fun l => by rw [Event.recordOutput, if_neg (Ne.symm hk)]]
  refine outputOf_congr ?_ ?_ (fun _ => Iff.rfl) (fun _ _ => rfl) rfl
  · simp [setTty, Function.update_of_ne hk]
  · simp [setTty, Function.update_of_ne hk]

end Operations

section Traps

variable {ttyId : Int}

/-- The trap for a chunk of `p` was counted. -/
def chunkTrapped (s : Kernel) (id : Nat) (p : Proc) : Kernel :=
  (s.emit (.ttyTransmitTrap id)).ttyChunkDone id p

omit [Hardware] in
theorem inside_chunkTrapped {q : Proc} {kc : KernelContext} :
    (s.chunkTrapped k p).Inside q kc ↔ s.Inside q kc :=
  inside_ttyChunkDone (s := s.emit (.ttyTransmitTrap k))

omit [Hardware] in
theorem outputOf_chunkTrapped (hInside : s.Inside p (.ttyWrite id)) :
    (s.chunkTrapped id p).outputOf id writers = (s.outputOf id writers).trapped.chunkDone p := by
  rw [← outputOf_trapped]
  exact outputOf_ttyChunkDone (s := s.emit (.ttyTransmitTrap id)) hInside

omit [Hardware] in
theorem outputOf_chunkTrapped_of_ne (hk : id ≠ k) (hInside : s.Inside p (.ttyWrite k)) :
    (s.chunkTrapped k p).outputOf id writers = s.outputOf id writers := by
  have hTrap : (s.emit (.ttyTransmitTrap k)).outputOf id writers = s.outputOf id writers :=
    outputOf_emit fun l => by rw [Event.recordOutput, if_neg (Ne.symm hk)]
  exact (outputOf_ttyChunkDone_of_ne (s := s.emit (.ttyTransmitTrap k)) hk hInside).trans hTrap

omit [Hardware] in
theorem ttys_chunkTrapped (s : Kernel) (id : Nat) (p : Proc) :
    (s.chunkTrapped id p).ttys id = { s.ttys id with transmitting := false } := by
  simp [chunkTrapped, ttyChunkDone, setTty, modifyPcb, emit]

/-- A trap while somebody owns the terminal. -/
theorem ttyTransmitDone_owned (hRange : 0 ≤ ttyId ∧ ttyId < numTerminals)
    (hOwner : (s.ttys ttyId.toNat).txOwner = some p) :
    let done := s.chunkTrapped ttyId.toNat p
    s.ttyTransmitDone ttyId = if (done.pcb p).ioSent < (done.pcb p).ioTotal then
      done.startChunk ttyId.toNat else (done.ttyRelease ttyId.toNat p).ttyHandOver ttyId.toNat := by
  have hEmit : ((s.emit (.ttyTransmitTrap ttyId.toNat)).ttys ttyId.toNat).txOwner = some p := hOwner
  rw [ttyTransmitDone, if_neg (by omega)]
  dsimp only
  rw [hEmit]
  rfl

/-- A trap while nobody does. -/
theorem ttyTransmitDone_free (hRange : 0 ≤ ttyId ∧ ttyId < numTerminals)
    (hOwner : (s.ttys ttyId.toNat).txOwner = none) :
    s.ttyTransmitDone ttyId = s.emit (.ttyTransmitTrap ttyId.toNat) := by
  have hEmit : ((s.emit (.ttyTransmitTrap ttyId.toNat)).ttys ttyId.toNat).txOwner = none := hOwner
  rw [ttyTransmitDone, if_neg (by omega)]
  dsimp only
  rw [hEmit]

/-- The writers that wait for a terminal after a transmit-complete trap. -/
theorem writers_ttyTransmitDone (h : KernelStart.Sound s) (hRange : 0 ≤ ttyId ∧ ttyId < numTerminals)
    (hOwner : (s.ttys ttyId.toNat).txOwner = some p) (id : Nat) :
    let done := s.chunkTrapped ttyId.toNat p
    (s.ttyTransmitDone ttyId).contents (.queue (.writer id)) =
      if id = ttyId.toNat ∧ ¬(done.pcb p).ioSent < (done.pcb p).ioTotal then
        (s.contents (.queue (.writer id))).tail
      else s.contents (.queue (.writer id)) := by
  intro done
  have hSettled := h.settled
  have hTrap : Inv (s.emit (.ttyTransmitTrap ttyId.toNat)) s.contents none :=
    hSettled.of_shape (shape_emit s rfl) rfl
  have hDone : Inv done s.contents none := hTrap.ttyChunkDone _ _
  have hCpu : (s.ttyTransmitDone ttyId).cpu = s.cpu := cpu_ttyTransmitDone s ttyId
  have hOwned : (done.ttys ttyId.toNat).txOwner = some p := by
    rw [ttys_chunkTrapped]
    exact hOwner
  rw [ttyTransmitDone_owned hRange hOwner] at hCpu ⊢
  by_cases hMore : (done.pcb p).ioSent < (done.pcb p).ioTotal
  · rw [if_pos hMore] at hCpu ⊢
    rw [if_neg fun hBoth => hBoth.2 hMore,
      (hSettled.of_inv (hDone.startChunk ttyId.toNat) hCpu rfl hSettled.hand).contents_eq]
  · rw [if_neg hMore] at hCpu ⊢
    obtain ⟨others, hInv, hFrame, hx, hHand⟩ := hDone.ttyFinish ttyId.toNat hSettled.hand hOwned
    have hContents := (hSettled.of_inv hInv hCpu hx hHand).contents_eq
    rw [← hContents] at hFrame
    refine (hFrame.tty (.queue (.writer id)) rfl).trans ?_
    rw [Inv.handOver, Function.update_of_ne (by simp)]
    by_cases hk : id = ttyId.toNat
    · subst hk
      simp [hMore]
    · rw [if_neg fun hBoth => hk hBoth.1, Function.update_of_ne (by simpa using hk)]

/-- A transmit-complete trap of another terminal. -/
theorem output_ttyTransmitDone_of_ne (h : KernelStart.Sound s) (hWf : (s.output ttyId.toNat).Wf)
    (hRange : 0 ≤ ttyId ∧ ttyId < numTerminals) (hk : id ≠ ttyId.toNat) :
    (s.ttyTransmitDone ttyId).output id = s.output id := by
  cases hOwner : (s.ttys ttyId.toNat).txOwner with
  | none =>
      rw [ttyTransmitDone_free hRange hOwner]
      exact outputOf_emit fun l => by rw [Event.recordOutput, if_neg (Ne.symm hk)]
  | some p =>
      have hWriters := writers_ttyTransmitDone h hRange hOwner id
      have hInside : s.Inside p (.ttyWrite ttyId.toNat) :=
        hWf.writing p (by simp [Output.blocked, output, outputOf, hOwner])
      dsimp only at hWriters
      rw [if_neg (fun hBoth => hk hBoth.1)] at hWriters
      rw [output, hWriters, ttyTransmitDone_owned hRange hOwner]
      split_ifs
      · rw [outputOf_startChunk_of_ne hk, outputOf_chunkTrapped_of_ne hk hInside, output]
      · rw [outputOf_ttyHandOver_of_ne hk,
          outputOf_ttyRelease_of_ne hk (inside_chunkTrapped.mpr hInside).1,
          outputOf_chunkTrapped_of_ne hk hInside, output]

/-- A transmit-complete trap of this terminal. -/
theorem output_ttyTransmitDone (h : KernelStart.Sound s) (hWf : (s.output ttyId.toNat).Wf)
    (hRange : 0 ≤ ttyId ∧ ttyId < numTerminals) :
    (s.ttyTransmitDone ttyId).output ttyId.toNat = (s.output ttyId.toNat).trap := by
  cases hOwner : (s.ttys ttyId.toNat).txOwner with
  | none =>
      have hNone : (s.output ttyId.toNat).owner = none := hOwner
      rw [ttyTransmitDone_free hRange hOwner, Output.trap, hNone]
      exact outputOf_trapped s _ _
  | some p =>
      have hWriters := writers_ttyTransmitDone h hRange hOwner ttyId.toNat
      have hInside : s.Inside p (.ttyWrite ttyId.toNat) :=
        hWf.writing p (by simp [Output.blocked, output, outputOf, hOwner])
      have hTrapped := inside_chunkTrapped (k := ttyId.toNat) (p := p).mpr hInside
      have hDone : (s.chunkTrapped ttyId.toNat p).outputOf ttyId.toNat
          (s.contents (.queue (.writer ttyId.toNat))) = (s.output ttyId.toNat).trapped.chunkDone p :=
        outputOf_chunkTrapped hInside
      have hTransfer := transfer_outputOf (s.contents (.queue (.writer ttyId.toNat))) hTrapped
      have hOwned : ((s.chunkTrapped ttyId.toNat p).ttys ttyId.toNat).txOwner = some p := by
        rw [ttys_chunkTrapped]
        exact hOwner
      have hUnfold : (s.output ttyId.toNat).trap =
          if ((s.chunkTrapped ttyId.toNat p).pcb p).ioSent < ((s.chunkTrapped ttyId.toNat p).pcb p).ioTotal
          then ((s.output ttyId.toNat).trapped.chunkDone p).start p
          else (((s.output ttyId.toNat).trapped.chunkDone p).release p).handOver := by
        have hSome : (s.output ttyId.toNat).owner = some p := hOwner
        rw [Output.trap, hSome]
        dsimp only
        rw [← hDone, hTransfer]
        rfl
      rw [hUnfold, output, hWriters, ttyTransmitDone_owned hRange hOwner]
      by_cases hMore : ((s.chunkTrapped ttyId.toNat p).pcb p).ioSent <
        ((s.chunkTrapped ttyId.toNat p).pcb p).ioTotal
      · rw [if_pos hMore, if_pos hMore, if_neg fun hBoth => hBoth.2 hMore,
          outputOf_continue hTrapped hOwned, hDone]
      · rw [if_neg hMore, if_neg hMore, if_pos ⟨rfl, hMore⟩, ← hDone, ← outputOf_ttyRelease hTrapped.1]
        refine outputOf_ttyHandOver ?_ fun q hq => ?_
        · rw [ttys_ttyRelease, ttys_chunkTrapped]
          exact (h.settled.placement.linked (.writer ttyId.toNat)).first_eq
        · rw [inside_ttyRelease hTrapped.1, inside_chunkTrapped]
          exact hWf.writing q (by simp [Output.blocked, output, outputOf, hq])

end Traps

section Calls

variable {bytes : List Byte}

/-- The running process has recorded its write and is inside the call. -/
def enterWrite (s : Kernel) (id : Nat) (bytes : List Byte) : Kernel :=
  { (s.ttyRecord id bytes).modifyPcb s.runningProc fun p => { p with kc := some (.ttyWrite id) } with
    mode := .resuming }

omit [Hardware] in
theorem inside_enterWrite {q : Proc} {kc : KernelContext} (hMode : s.mode = .user) :
    (s.enterWrite k bytes).Inside q kc ↔
      s.Inside q kc ∨ q = s.runningProc ∧ s.Live q ∧ .ttyWrite k = kc := by
  have hSaved := cpu_saveKc (s.ttyRecord k bytes) s.runningProc (some (.ttyWrite k))
  rw [cpu_ttyRecord] at hSaved
  refine inside_switch (n := s.runningProc) hMode ?_
    (congrArg (fun c : Cpu => { c with mode := .resuming }) hSaved)
  refine Eq.trans ?_ (live_of_shape (shape_ttyRecord s k bytes))
  exact live_of_shape (shape_modifyPcb (s := s.ttyRecord k bytes) (p := s.runningProc)
    (f := fun p => { p with kc := some (.ttyWrite k) }) rfl rfl rfl Iff.rfl)

omit [Hardware] in
theorem transfer_enterWrite (s : Kernel) (id : Nat) (bytes : List Byte) (q : Proc) :
    ((s.enterWrite id bytes).pcb q).transfer =
      if q = s.runningProc then ⟨bytes, bytes.length, 0⟩ else (s.pcb q).transfer := by
  by_cases hq : q = s.runningProc
  · simp [enterWrite, ttyRecord, modifyPcb, emit, hq, Pcb.transfer]
  · simp [enterWrite, ttyRecord, modifyPcb, emit, hq]

omit [Hardware] in
theorem outputOf_enterWrite (id : Nat) (writers : List Proc) (bytes : List Byte) (hMode : s.mode = .user) (hLive : s.Live s.runningProc) :
    (s.enterWrite id bytes).outputOf id writers = (s.outputOf id writers).record s.runningProc bytes := by
  have hOut : ¬s.Inside s.runningProc (.ttyWrite id) := not_inside_running hMode
  have hLedger : outputLedger id (s.enterWrite id bytes).trace =
      (outputLedger id s.trace).accept (s.runningProc, bytes) := by
    refine (outputLedger_emit _ _).trans ?_
    rw [Event.recordOutput, if_pos rfl]
    rfl
  simp only [outputOf, Output.record, hLedger, Output.mk.injEq, and_true]
  refine ⟨rfl, rfl, trivial, ?_, ?_⟩
  · funext q
    rw [inside_enterWrite hMode]
    by_cases hq : q = s.runningProc
    · simp [hq, hLive]
    · simp [hq]
  · funext q
    simp only [inside_enterWrite hMode, transfer_enterWrite]
    by_cases hq : q = s.runningProc
    · simp [hq, hLive]
    · simp [hq]

omit [Hardware] in
theorem outputOf_enterWrite_of_ne (bytes : List Byte) (hk : id ≠ k) (hMode : s.mode = .user) :
    (s.enterWrite k bytes).outputOf id writers = s.outputOf id writers := by
  refine outputOf_congr rfl rfl (fun q => ?_) (fun q hq => ?_) ?_
  · rw [inside_enterWrite hMode, or_iff_left_iff_imp]
    rintro ⟨-, -, hSame⟩
    exact absurd (KernelContext.ttyWrite.inj hSame).symm hk
  · have hNe : q ≠ s.runningProc := by
      rintro rfl
      exact not_inside_running hMode hq
    rw [transfer_enterWrite, if_neg hNe]
  · refine (outputLedger_emit _ _).trans ?_
    rw [Event.recordOutput, if_neg (Ne.symm hk)]
    rfl

/-- What a start does to the terminals depends on the owner's transfer. -/
theorem startChunk_congr (hTtys : t.ttys = s.ttys) (hTrace : t.trace = s.trace)
    (hTransfer : ∀ q, (t.pcb q).transfer = (s.pcb q).transfer) :
    (t.startChunk k).ttys = (s.startChunk k).ttys ∧ (t.startChunk k).trace = (s.startChunk k).trace ∧
      ∀ q, ((t.startChunk k).pcb q).transfer = ((s.startChunk k).pcb q).transfer := by
  cases hOwner : (s.ttys k).txOwner with
  | none =>
      have hSame : (t.ttys k).txOwner = none := by rw [hTtys, hOwner]
      simp only [startChunk, hOwner, hSame]
      exact ⟨hTtys, hTrace, hTransfer⟩
  | some p =>
      have hSame : (t.ttys k).txOwner = some p := by rw [hTtys, hOwner]
      have hKbuf : (t.pcb p).ioKbuf = (s.pcb p).ioKbuf := congrArg Transfer.kbuf (hTransfer p)
      have hTotal : (t.pcb p).ioTotal = (s.pcb p).ioTotal := congrArg Transfer.total (hTransfer p)
      have hSent : (t.pcb p).ioSent = (s.pcb p).ioSent := congrArg Transfer.sent (hTransfer p)
      rw [startChunk_eq hOwner, startChunk_eq hSame, hKbuf, hTotal, hSent]
      exact ⟨by simp [setTty, emit, hTtys], by simp [setTty, emit, hTrace], hTransfer⟩

/-- Up to the switch a write only starts or queues. -/
def queueWrite (s : Kernel) (id : Nat) (bytes : List Byte) : Kernel :=
  if (s.ttys id).txOwner = none then
    ((s.enterWrite id bytes).setTty id { (s.enterWrite id bytes).ttys id with
      txOwner := some s.runningProc }).startChunk id
  else s.enterWrite id bytes

theorem inside_queueWrite {q : Proc} {kc : KernelContext} :
    (s.queueWrite k bytes).Inside q kc ↔ (s.enterWrite k bytes).Inside q kc := by
  unfold queueWrite startChunk
  split
  · split <;> rfl
  · rfl

theorem outputOf_queueWrite (hMode : s.mode = .user) (hLive : s.Live s.runningProc) :
    (s.queueWrite id bytes).outputOf id (if (s.ttys id).txOwner = none then writers
      else writers ++ [s.runningProc]) = (s.outputOf id writers).write s.runningProc bytes := by
  have hEnter := outputOf_enterWrite id writers bytes hMode hLive
  have hInside : (s.enterWrite id bytes).Inside s.runningProc (.ttyWrite id) :=
    (inside_enterWrite hMode).mpr (Or.inr ⟨rfl, hLive, rfl⟩)
  unfold queueWrite Output.write
  cases hOwner : (s.ttys id).txOwner with
  | none =>
      have hNone : (s.outputOf id writers).owner = none := hOwner
      rw [if_pos rfl, if_pos rfl, hNone, outputOf_own hInside, hEnter]
  | some p =>
      have hSome : (s.outputOf id writers).owner = some p := hOwner
      rw [if_neg (by simp), if_neg (by simp), hSome, ← hEnter]
      rfl

theorem outputOf_queueWrite_of_ne (hk : id ≠ k) (hMode : s.mode = .user) :
    (s.queueWrite k bytes).outputOf id writers = s.outputOf id writers := by
  rw [← outputOf_enterWrite_of_ne bytes hk hMode, queueWrite]
  split_ifs
  · exact outputOf_own_of_ne hk
  · rfl

theorem queueWrite_devices (s : Kernel) (k : Nat) (bytes : List Byte) :
    (∀ id, ((s.ttyWriteBlock k bytes).ttys id).txOwner = ((s.queueWrite k bytes).ttys id).txOwner ∧
      ((s.ttyWriteBlock k bytes).ttys id).txLastChunk = ((s.queueWrite k bytes).ttys id).txLastChunk) ∧
    (s.ttyWriteBlock k bytes).trace = (s.queueWrite k bytes).trace ∧
    ∀ q, ((s.ttyWriteBlock k bytes).pcb q).transfer = ((s.queueWrite k bytes).pcb q).transfer := by
  have hTransfer (q : Proc) :
      ((s.ttyRecord k bytes).pcb q).transfer = ((s.enterWrite k bytes).pcb q).transfer :=
    (pcb_modifyPcb (v := Pcb.transfer) (s := s.ttyRecord k bytes) (p := s.runningProc)
      (f := fun p => { p with kc := some (.ttyWrite k) }) rfl q).symm
  have hState (u : Kernel) (q : Proc) :
      ((u.setState s.runningProc .waiting).pcb q).transfer = (u.pcb q).transfer :=
    pcb_modifyPcb (v := Pcb.transfer) rfl q
  unfold ttyWriteBlock queueWrite
  dsimp only
  cases hOwner : (s.ttys k).txOwner with
  | none =>
      have hNone : ((s.ttyRecord k bytes).ttys k).txOwner = none := hOwner
      obtain ⟨hTtys, hTrace, hKept⟩ := startChunk_congr (k := k)
        (t := (s.ttyRecord k bytes).setTty k { (s.ttyRecord k bytes).ttys k with
          txOwner := some s.runningProc })
        (s := (s.enterWrite k bytes).setTty k { (s.enterWrite k bytes).ttys k with
          txOwner := some s.runningProc }) rfl rfl hTransfer
      rw [hNone, if_pos rfl]
      exact ⟨fun id => ⟨congrArg (fun ttys => (ttys id).txOwner) hTtys,
        congrArg (fun ttys => (ttys id).txLastChunk) hTtys⟩, hTrace, fun q => (hState _ q).trans (hKept q)⟩
  | some p =>
      have hSome : ((s.ttyRecord k bytes).ttys k).txOwner = some p := hOwner
      rw [hSome, if_neg (by simp)]
      refine ⟨fun id => ?_, rfl, fun q => (hState _ q).trans (hTransfer q)⟩
      by_cases hk : id = k
      · subst hk
        simp [setState, modifyPcb, wqPush, setTty, setNext, enterWrite]
      · simp [setState, modifyPcb, wqPush, setTty, setNext, Function.update_of_ne hk, enterWrite]

/-- The writers that wait for a terminal after a write on terminal `k`. -/
theorem writers_writeBlock {u : Kernel} (h : KernelStart.Sound s) (hUser : s.inUser)
    (hQuiet : Quiet (s.ttyWriteBlock k bytes) u) (id : Nat) :
    (u.switchAway (.ttyWrite k)).Live = s.Live ∧
    (u.switchAway (.ttyWrite k)).contents (.queue (.writer id)) =
      if id = k ∧ (s.ttys k).txOwner ≠ none then s.contents (.queue (.writer id)) ++ [s.runningProc]
      else s.contents (.queue (.writer id)) := by
  have hSettled := h.settled
  obtain ⟨parked, hInv, hBlock, hCpu, hHand⟩ :=
    hSettled.ttyWriteBlock k bytes (hSettled.cpu_eq hUser)
  obtain ⟨others, hNext, hSwitch⟩ := (hInv.quiet hQuiet).switchAway (.ttyWrite k) hCpu
    (hHand.trans hSettled.hand)
  have hLive : u.Live = (s.ttyWriteBlock k bytes).Live := funext fun p => propext (hQuiet.live_iff p)
  refine ⟨hSwitch.live.trans (hLive.trans hBlock.live), ?_⟩
  rw [hNext.contents_eq, hSwitch.tty _ rfl, hBlock.tty _ rfl]
  by_cases hOwner : (s.ttys k).txOwner = none
  · simp [hOwner]
  · rw [if_neg hOwner]
    by_cases hk : id = k
    · simp [hk, hOwner]
    · rw [if_neg fun hBoth => hk hBoth.1, Function.update_of_ne (by simpa using hk)]

/-- A process writes to terminal `k` and blocks. -/
theorem output_writeBlock {u : Kernel} (h : KernelStart.Sound s) (hUser : s.inUser)
    (hQuiet : Quiet (s.ttyWriteBlock k bytes) u) (id : Nat) :
    (u.switchAway (.ttyWrite k)).output id =
      if id = k then (s.output id).write s.runningProc bytes else s.output id := by
  obtain ⟨hLive, hWriters⟩ := writers_writeBlock h hUser hQuiet id
  obtain ⟨hTtys, hTrace, hTransfer⟩ := queueWrite_devices s k bytes
  have hCpu : u.cpu = s.cpu :=
    (cpu_of_outside hQuiet.outside).trans (cpu_ttyWriteBlock s k bytes)
  have hDevices := (devices_switchAway u (.ttyWrite k)).trans (devices_of_outside hQuiet.outside)
  have hSame : (u.switchAway (.ttyWrite k)).ttys = (s.ttyWriteBlock k bytes).ttys :=
    congrArg Devices.ttys hDevices
  have hInside (q : Proc) (kc : KernelContext) :
      (u.switchAway (.ttyWrite k)).Inside q kc ↔ (s.queueWrite k bytes).Inside q kc := by
    rw [inside_queueWrite, inside_enterWrite hUser.1]
    refine inside_switch (n := u.getNextProcess.2) hUser.1 hLive ?_
    rw [cpu_switchAway, hCpu, runningProc_of_cpu hCpu]
  have hView (writers : List Proc) : (u.switchAway (.ttyWrite k)).outputOf id writers =
      (s.queueWrite k bytes).outputOf id writers := by
    refine outputOf_congr (by rw [hSame, (hTtys id).1]) (by rw [hSame, (hTtys id).2])
      (fun q => hInside q _) (fun q _ => ?_) ?_
    · exact (congrFun (congrArg Devices.transfer hDevices) q).trans (hTransfer q)
    · rw [← hTrace]
      exact outputLedger_congr id (ttyLog_of_devices (congrArg Devices.log hDevices))
  rw [output, hView, hWriters]
  by_cases hk : id = k
  · subst hk
    rw [if_pos rfl, output, ← outputOf_queueWrite hUser.1 (h.settled.live_running hUser)]
    by_cases hOwner : (s.ttys id).txOwner = none
    · simp [hOwner]
    · simp [hOwner]
  · rw [if_neg hk, if_neg fun hBoth => hk hBoth.1, outputOf_queueWrite_of_ne hk hUser.1, output]

/-- A received line changes no output side. -/
theorem output_ttyReceiveDone (h : KernelStart.Sound s) (ttyId : Int) (line : List Byte)
    (lineOk : Bool) (id : Nat) : (s.ttyReceiveDone ttyId line lineOk).output id = s.output id := by
  unfold ttyReceiveDone
  split_ifs
  · rfl
  · rfl
  have hSettled := h.settled
  obtain ⟨others, hInv, hFrame, hCpu, hHand⟩ :=
    hSettled.ttyDeliver ttyId.toNat line hSettled.hand
  have hWriters : (s.ttyDeliver ttyId.toNat line).contents (.queue (.writer id)) =
      s.contents (.queue (.writer id)) := by
    rw [(hSettled.of_inv hInv (cpu_ttyDeliver s _ _) hCpu hHand).contents_eq, hFrame.tty _ rfl,
      Function.update_of_ne (by simp)]
  have hDevices := (devices_of_outside (outside_ttyDeliver s ttyId.toNat line)).trans
    (devices_rqPop (s.appendLine ttyId.toNat line) ttyId.toNat)
  obtain ⟨readers, hPopped⟩ := ttys_rqPop (s.appendLine ttyId.toNat line) ttyId.toNat id
  have hTty : (s.ttyDeliver ttyId.toNat line).ttys id =
      { (s.appendLine ttyId.toNat line).ttys id with readers := readers } :=
    (congrFun (congrArg Devices.ttys hDevices) id).trans hPopped
  rw [output, hWriters]
  refine outputOf_congr ?_ ?_ (fun q => inside_iff_of_cpu (cpu_ttyDeliver s _ _) hFrame.live)
    (fun q _ => congrFun (congrArg Devices.transfer hDevices) q) ?_
  · rw [hTty]
    by_cases hk : id = ttyId.toNat
    · simp [appendLine, setTty, emit, hk]
    · simp [appendLine, setTty, emit, Function.update_of_ne hk]
  · rw [hTty]
    by_cases hk : id = ttyId.toNat
    · simp [appendLine, setTty, emit, hk]
    · simp [appendLine, setTty, emit, Function.update_of_ne hk]
  · have hLog := congrArg Devices.log hDevices
    rw [outputLedger_congr id (s := s.appendLine ttyId.toNat line) (ttyLog_of_devices hLog), appendLine,
      outputLedger_emit]
    rfl

/-- A process that blocks in a read changes no output side. -/
theorem output_readBlock {u : Kernel} {buf : Word} {len : Nat} (h : KernelStart.Sound s)
    (hUser : s.inUser) (hQuiet : Quiet (s.ttyReadBlock k buf len) u) (id : Nat) :
    (u.switchAway (.ttyRead k)).output id = s.output id := by
  have hSettled := h.settled
  obtain ⟨parked, hInv, hBlock, hCpu, hHand⟩ :=
    hSettled.ttyReadBlock k buf len (hSettled.cpu_eq hUser)
  obtain ⟨others, hNext, hSwitch⟩ := (hInv.quiet hQuiet).switchAway (.ttyRead k) hCpu
    (hHand.trans hSettled.hand)
  have hLive : u.Live = (s.ttyReadBlock k buf len).Live := funext fun p => propext (hQuiet.live_iff p)
  have hWriters : (u.switchAway (.ttyRead k)).contents (.queue (.writer id)) =
      s.contents (.queue (.writer id)) := by
    rw [hNext.contents_eq, hSwitch.tty _ rfl, hBlock.tty _ rfl, Function.update_of_ne (by simp)]
  have hDevices := (devices_switchAway u (.ttyRead k)).trans (devices_of_outside hQuiet.outside)
  have hTty : (u.switchAway (.ttyRead k)).ttys id = (s.ttyReadBlock k buf len).ttys id :=
    congrFun (congrArg Devices.ttys hDevices) id
  have hMarked : u.cpu = { s.cpu with
      request := Function.update s.cpu.request s.runningProc (buf, len) } :=
    (cpu_of_outside hQuiet.outside).trans (cpu_ttyReadBlock s k buf len)
  rw [output, hWriters]
  refine outputOf_congr ?_ ?_ (fun q => ?_) (fun q _ => ?_) ?_
  · rw [hTty]
    by_cases hk : id = k
    · simp [ttyReadBlock, setState, modifyPcb, rqPush, setTty, setNext, hk]
    · simp [ttyReadBlock, setState, modifyPcb, rqPush, setTty, setNext, Function.update_of_ne hk]
  · rw [hTty]
    by_cases hk : id = k
    · simp [ttyReadBlock, setState, modifyPcb, rqPush, setTty, setNext, hk]
    · simp [ttyReadBlock, setState, modifyPcb, rqPush, setTty, setNext, Function.update_of_ne hk]
  · have hMode : u.mode = .user := (congrArg Cpu.mode hMarked).trans hUser.1
    have hSame : u.runningProc = s.runningProc := congrArg Cpu.runningProc hMarked
    have hKc : (u.pcb q).kc = (s.pcb q).kc := congrFun (congrArg Cpu.kc hMarked) q
    rw [inside_switch (n := u.getNextProcess.2) hMode hSwitch.live (cpu_switchAway u _),
      or_iff_left (by simp)]
    have hModes : u.mode = s.mode := congrArg Cpu.mode hMarked
    simp only [Inside, hLive.trans hBlock.live, hKc, hSame, hModes]
  · refine (congrFun (congrArg Devices.transfer hDevices) q).trans ?_
    refine (pcb_modifyPcb (v := Pcb.transfer) (s := (s.modifyPcb s.runningProc fun p => { p with
      ioUserBuf := buf, ioLen := len, ioTtyId := k }).rqPush k s.runningProc) (p := s.runningProc)
      (f := fun p => { p with state := .waiting }) rfl q).trans ?_
    exact pcb_modifyPcb (v := Pcb.transfer) (s := s) (p := s.runningProc)
      (f := fun p => { p with ioUserBuf := buf, ioLen := len, ioTtyId := k }) rfl q
  · have hLog := congrArg Devices.log hDevices
    exact outputLedger_congr id (s := s.ttyReadBlock k buf len) (ttyLog_of_devices hLog)

omit [Hardware] in
/-- The running process returns from its write. -/
theorem output_ttyWriteReturn (hInside : s.Inside s.runningProc (.ttyWrite k)) (id : Nat) :
    ({ s with mode := .user }.ttyWriteReturn k).output id =
      if id = k then (s.output id).leave s.runningProc else s.output id := by
  have hIff (q : Proc) (kc : KernelContext) : ({ s with mode := .user }.ttyWriteReturn k).Inside q kc ↔
      q ≠ s.runningProc ∧ s.Inside q kc := by
    rw [inside_iff_of_cpu (cpu_ttyWriteReturn { s with mode := .user } k) (live_ttyWriteReturn _ k),
      inside_user]
  have hTransfer (q : Proc) (hq : q ≠ s.runningProc) :
      (({ s with mode := .user }.ttyWriteReturn k).pcb q).transfer = (s.pcb q).transfer := by
    simp [ttyWriteReturn, ret, setResult, modifyPcb, emit, Function.update_of_ne hq]
  have hLedger : outputLedger id ({ s with mode := .user }.ttyWriteReturn k).trace =
      outputLedger id s.trace := outputLedger_emit _ _
  by_cases hk : id = k
  · subst hk
    rw [if_pos rfl]
    simp only [output, outputOf, Output.leave, hLedger, hIff, Output.mk.injEq, and_true]
    refine ⟨rfl, rfl, rfl, ?_, ?_⟩
    all_goals
      funext q
      by_cases hq : q = s.runningProc
      · simp [hq]
      · simp [hq, hTransfer q hq]
  · rw [if_neg hk]
    refine outputOf_congr rfl rfl (fun q => ?_) (fun q hq => ?_) hLedger
    · rw [hIff, and_iff_right_iff_imp]
      rintro hq rfl
      exact hk (KernelContext.ttyWrite.inj (hq.unique hInside))
    · refine hTransfer q ?_
      rintro rfl
      exact hk (KernelContext.ttyWrite.inj (hq.unique hInside))

/-- Reading a line changes no output side. -/
theorem output_read (h : KernelStart.Sound s) (k len id : Nat) : (s.read k len).output id = s.output id := by
  have hCpu : (s.read k len).cpu = s.cpu := by simp [Kernel.read]
  have hContents := (h.settled.of_inv (h.settled.read k len) hCpu rfl
    h.settled.hand).contents_eq
  have hKept : (s.read k len).Live = s.Live ∧ (s.read k len).pcb = s.pcb ∧
      ((s.read k len).ttys id).txOwner = (s.ttys id).txOwner ∧
      ((s.read k len).ttys id).txLastChunk = (s.ttys id).txLastChunk ∧
      outputLedger id (s.read k len).trace = outputLedger id s.trace := by
    obtain ⟨lines, rx, hConsumed⟩ := consume_eq s k len
    rw [Kernel.read, outputLedger_emit, hConsumed]
    refine ⟨rfl, rfl, ?_, ?_, rfl⟩
    all_goals
      by_cases hk : id = k
      · simp [setTty, emit, hk]
      · simp [setTty, emit, Function.update_of_ne hk]
  obtain ⟨hLive, hPcb, hOwner, hChunk, hLedger⟩ := hKept
  rw [output, hContents]
  exact outputOf_congr hOwner hChunk (fun q => inside_iff_of_cpu hCpu hLive)
    (fun q _ => by rw [hPcb]) hLedger

end Calls

/-- A process that continues its write is not blocked in it. -/
theorem returning_write (h : KernelStart.Sound s) (hMode : s.mode = .resuming)
    (hKc : (s.pcb s.runningProc).kc = some (.ttyWrite k)) :
    s.Inside s.runningProc (.ttyWrite k) ∧ s.runningProc ∉ (s.output k).blocked := by
  obtain ⟨hCpu, hLive⟩ := h.running hKc (by simp)
  have hMem : s.runningProc ∈ s.contents .cpu := by simp [hCpu]
  have hPlaced := h.settled.placement.placed
  have hOwner : s.runningProc ∉ s.contents (.transmitting k) := hPlaced.not_mem_of_ne hMem (by simp)
  have hWriter : s.runningProc ∉ s.contents (.queue (.writer k)) :=
    hPlaced.not_mem_of_ne hMem (by simp)
  exact ⟨⟨hLive, hKc, fun _ => hMode⟩, fun hBlocked => (List.mem_append.mp hBlocked).elim hOwner hWriter⟩

/-- Every effect is a step of an output side, or none of its. -/
theorem output_effect {label : Label} (h : KernelStart.Sound s) (hWf : ∀ k, (s.output k).Wf) (hEffect : Effect label s t)
    (id : Nat) : t.output id = s.output id ∨ Output.Step (s.output id) (t.output id) := by
  rcases h.bystander hEffect with hTty | hBystander
  · cases hTty with
    | readBlock hUser hId hEmpty hLen hQuiet => exact Or.inl (output_readBlock h hUser hQuiet id)
    | @writeBlock u k bytes hUser hId hBytes hShort hQuiet =>
        rw [output_writeBlock h hUser hQuiet id]
        split_ifs with hk
        · exact Or.inr (.write (not_inside_running hUser.1) hBytes hShort)
        · exact Or.inl rfl
    | @transmitted ttyId =>
        by_cases hRange : 0 ≤ ttyId ∧ ttyId < numTerminals
        · by_cases hk : id = ttyId.toNat
          · subst hk
            rw [output_ttyTransmitDone h (hWf _) hRange]
            exact Or.inr .trap
          · exact Or.inl (output_ttyTransmitDone_of_ne h (hWf _) hRange hk)
        · rw [ttyTransmitDone, if_pos (by omega)]
          exact Or.inl rfl
    | received => exact Or.inl (output_ttyReceiveDone h _ _ _ id)
    | @written k hMode hKc =>
        obtain ⟨hInside, hFree⟩ := returning_write h hMode hKc
        rw [output_ttyWriteReturn hInside id]
        split_ifs with hk
        · exact Or.inr (.leave (hk ▸ hFree))
        · exact Or.inl rfl
  · exact Or.inl (output_bystander hBystander)

/-- The output sides of all terminals are in order. -/
def OutputInv (s : Kernel) : Prop := ∀ id, (s.output id).Inv

theorem OutputInv.effect {label : Label} (hInv : OutputInv s) (h : KernelStart.Sound s) (hEffect : Effect label s t) :
    OutputInv t := by
  intro id
  rcases output_effect h (fun k => (hInv k).toWf) hEffect id with hSame | hStep
  · rw [hSame]
    exact hInv id
  · exact (hInv id).step hStep

theorem OutputInv.read (hInv : OutputInv s) (h : KernelStart.Sound s) (k len : Nat) :
    OutputInv (s.read k len) := by
  intro id
  rw [output_read h]
  exact hInv id

omit [Hardware] in
/-- The process that continues its read is inside no write. -/
theorem output_user {k : Nat} (hKc : (s.pcb s.runningProc).kc = some (.ttyRead k)) (id : Nat) :
    ({ s with mode := .user } : Kernel).output id = s.output id := by
  refine outputOf_congr rfl rfl (fun q => ?_) (fun _ _ => rfl) rfl
  rw [inside_user, and_iff_right_iff_imp]
  rintro hq rfl
  cases hq.2.1.symm.trans hKc

omit [Hardware] in
theorem OutputInv.user [Hardware] {k : Nat} (hInv : OutputInv s)
    (hKc : (s.pcb s.runningProc).kc = some (.ttyRead k)) : OutputInv { s with mode := .user } := by
  intro id
  rw [output_user hKc id]
  exact hInv id

end Kernel

namespace KernelStart

variable [Hardware]

/-- At boot nothing was written to a terminal. -/
theorem outputInv_kernelStart (uctxt : UserContext) (early late : List Word) :
    (kernelStart uctxt early late).OutputInv := by
  intro id
  have hDevices := devices_kernelStart uctxt early late
  have hTtys : (kernelStart uctxt early late).ttys = (image uctxt).ttys := congrArg Devices.ttys hDevices
  have hLog := Kernel.outputLedger_congr id (Kernel.ttyLog_of_devices (congrArg Devices.log hDevices))
  refine Output.inv_empty (congrArg (fun ttys => (ttys id).txOwner) hTtys) ?_
    (fun p hInside => nomatch inside_kernelStart uctxt early late hInside) hLog
  have hEmpty : ((kernelStart uctxt early late).ttys id).writers.first = none :=
    congrArg (fun ttys => (ttys id).writers.first) hTtys
  simp [Kernel.output, Kernel.outputOf, Kernel.contents, Kernel.ends, hEmpty]

theorem outputInv_reachable {s : Kernel} (run : system.Reachable s) : s.OutputInv :=
  invariant (I := Kernel.OutputInv) outputInv_kernelStart
    (fun _ _ _ h hInv hEffect => hInv.effect h hEffect) (fun _ k len h hInv => hInv.read h k len)
    (fun _ _ _ hInv _ hKc => hInv.user hKc) run

end KernelStart

namespace Kernel

variable [Hardware] {s t : Kernel}

/-- What a write of at least one byte does: it fails, or its bytes are accepted
as the latest write to the terminal. -/
def WritesTty (s t : Kernel) (id : Nat) (buf : Word) (len : Nat) : Prop :=
  ((t.pcb s.runningProc).uc.regs 0 = errorCode ∧
    (outputLedger id t.trace).accepted = (outputLedger id s.trace).accepted) ∨
  ∃ bytes, s.mem.loadBytes buf.toInt len = .ok bytes ∧ bytes.length = len ∧
    (outputLedger id t.trace).accepted =
      (outputLedger id s.trace).accepted ++ [(s.runningProc, bytes)]

omit [Hardware] in
theorem accepted_congr {id : Nat} (h : t.ttyView.log = s.ttyView.log) :
    (outputLedger id t.trace).accepted = (outputLedger id s.trace).accepted := by
  rw [outputLedger_congr id h]

theorem accepted_startChunk (s : Kernel) (k id : Nat) :
    (outputLedger id (s.startChunk k).trace).accepted = (outputLedger id s.trace).accepted := by
  unfold startChunk
  split
  · rfl
  · rw [outputLedger_emit, Event.recordOutput]
    split_ifs <;> rfl

theorem accepted_ttyWriteBlock (s : Kernel) (id : Nat) (bytes : List Byte) :
    (outputLedger id (s.ttyWriteBlock id bytes).trace).accepted =
      (outputLedger id s.trace).accepted ++ [(s.runningProc, bytes)] := by
  have hRecord : (outputLedger id (s.ttyRecord id bytes).trace).accepted =
      (outputLedger id s.trace).accepted ++ [(s.runningProc, bytes)] := by
    rw [ttyRecord, outputLedger_emit, Event.recordOutput, if_pos rfl]
    rfl
  unfold ttyWriteBlock
  dsimp only
  split
  · exact (accepted_startChunk _ id id).trans hRecord
  · exact hRecord

/-- `kernel_tty_write` with a positive length. -/
theorem writesTty_step {uc : UserContext} {o : Outcomes} {id len : Nat} (hReg : (uc.regs 0).toInt = id)
    (hLen : (uc.regs 2).toInt = len) (hPos : 0 < len)
    (hStep : s.step (.syscall .ttyWrite uc o) = .ok t) : s.WritesTty t id (uc.regs 1) len := by
  simp only [step] at hStep
  split_ifs at hStep with hUser
  obtain ⟨u, hCall, hLeave⟩ := Transition.bind_eq_ok.mp hStep
  obtain rfl := Except.ok.inj hLeave
  have hError (hErr : (.ok ((s.saveUc uc).ret errorCode) : Except Stop Kernel) = .ok u) :
      s.WritesTty u.leave id (uc.regs 1) len := by
    obtain rfl := Except.ok.inj hErr
    refine Or.inl ⟨?_, ?_⟩
    · rw [leave_pcb]
      exact ret_result (s.saveUc uc) errorCode
    · exact accepted_congr (ttyView_of_outside
        ((Quiet.leave _).outside.trans ((Quiet.ret _ _).outside.trans (Quiet.saveUc s uc).outside)) ▸ rfl)
  simp only [dispatch, kernelTtyWrite, guardBuf] at hCall
  split at hCall
  · unfold kernelTtyWriteImpl at hCall
    simp only [reg_saveUc] at hCall
    split_ifs at hCall with hArgs hZero
    · exact hError hCall
    · omega
    · exact hError hCall
    · obtain ⟨bytes, hBytes, hCall⟩ := Transition.bind_eq_ok.mp hCall
      obtain rfl := Except.ok.inj hCall
      have hSame : (uc.regs 2).toInt.toNat = len := by omega
      have hTty : (uc.regs 0).toInt.toNat = id := by omega
      rw [hSame] at hBytes
      rw [hTty]
      refine Or.inr ⟨bytes, hBytes, Memory.length_loadBytes hBytes, ?_⟩
      have hLog := (congrArg Devices.log (devices_of_outside (Quiet.leave
        (((s.saveUc uc).ttyWriteBlock id bytes).switchAway (.ttyWrite id))).outside)).trans
        (congrArg Devices.log (devices_switchAway ((s.saveUc uc).ttyWriteBlock id bytes) (.ttyWrite id)))
      rw [accepted_congr (ttyLog_of_devices hLog)]
      exact accepted_ttyWriteBlock (s.saveUc uc) id bytes
  · exact hError hCall

/-- The end of `kernel_tty_write`. -/
theorem returnsTty_step {id : Nat} {o : Outcomes} (h : KernelStart.Sound s) (hWf : (s.output id).Wf)
    (hKc : (s.pcb s.runningProc).kc = some (.ttyWrite id)) (hStep : s.step (.resume o) = .ok t) :
    ∃ bytes, (outputLedger id s.trace).latest s.runningProc = some bytes ∧
      ((t.pcb s.runningProc).uc.regs 0).toInt = bytes.length ∧
      s.runningProc ∉ (s.ttys id).txOwner.toList ++ s.contents (.queue (.writer id)) := by
  simp only [step] at hStep
  split_ifs at hStep with hMode
  simp only [resume, hKc, continueAt] at hStep
  obtain ⟨u, hReturn, hLeave⟩ := Transition.bind_eq_ok.mp hStep
  obtain rfl := Except.ok.inj hReturn
  obtain rfl := Except.ok.inj hLeave
  obtain ⟨hInside, hFree⟩ := returning_write h hMode hKc
  obtain ⟨bytes, hLatest, hTotal, hShort⟩ := hWf.latest s.runningProc hInside
  refine ⟨bytes, hLatest, ?_, hFree⟩
  have hValue : (s.pcb s.runningProc).ioTotal = bytes.length := by
    rw [← hTotal, output, transfer_outputOf _ hInside]
    rfl
  have hResult : (({ s with mode := .user }.ttyWriteReturn id).leave.pcb s.runningProc).uc.regs 0 =
      BitVec.ofNat 32 bytes.length := by
    rw [leave_pcb, ← hValue]
    exact ret_result ({ s with mode := .user }.modifyPcb s.runningProc fun p => { p with ioKbuf := [] }) _
  have hNat : (BitVec.ofNat 32 bytes.length).toNat = bytes.length := by
    rw [BitVec.toNat_ofNat, Nat.mod_eq_of_lt (by omega)]
  rw [hResult, BitVec.toInt_eq_toNat_of_lt (by omega), hNat]

end Kernel

namespace KernelStart

open Kernel

/-- The bytes of terminal writes leave in the order the writes were issued, in
chunks of allowed length, one at a time. A writer is blocked until the trap
for its last chunk, and then its call returns its length. -/
theorem tty_write_order [Hardware] {s : Kernel} (run : system.Reachable s) {id : Nat}
    (hTraps : (outputLedger id s.trace).matched = true) :
    let ledger := outputLedger id s.trace
    ledger.chunks.flatten <+: bytesOf ledger.accepted ∧
    (∀ chunk ∈ ledger.chunks, 1 ≤ chunk.length ∧ chunk.length ≤ terminalMaxLine) ∧
    ledger.traps ≤ ledger.chunks.length ∧ ledger.chunks.length ≤ ledger.traps + 1 ∧
    ((s.ttys id).txOwner = none → s.contents (.queue (.writer id)) = []) ∧
    (∃ done pending, ledger.accepted = done ++ pending ∧ ledger.finished = done.map Prod.fst ∧
      bytesOf done <+: (ledger.chunks.take ledger.traps).flatten ∧
      pending.map Prod.fst = (s.ttys id).txOwner.toList ++ s.contents (.queue (.writer id))) ∧
    (∀ uc o t (len : Nat), (uc.regs 0).toInt = (id : Int) → (uc.regs 2).toInt = (len : Int) → 0 < len →
      s.step (.syscall .ttyWrite uc o) = .ok t → s.WritesTty t id (uc.regs 1) len) ∧
    (∀ o t, (s.pcb s.runningProc).kc = some (.ttyWrite id) → s.step (.resume o) = .ok t →
      ∃ bytes, ledger.latest s.runningProc = some bytes ∧
        ((t.pcb s.runningProc).uc.regs 0).toInt = bytes.length ∧
        s.runningProc ∉ (s.ttys id).txOwner.toList ++ s.contents (.queue (.writer id))) := by
  intro ledger
  have hInv := outputInv_reachable run id
  obtain ⟨done, pending, hOrdered⟩ := hInv.ordered hTraps
  obtain ⟨hPrefix, hLe, hNext, hDone⟩ := hOrdered.summary
  exact ⟨hPrefix, hOrdered.chunks, hLe, hNext, hInv.free,
    ⟨done, pending, hOrdered.accepted, hOrdered.finished, hDone, hOrdered.blocked.symm⟩,
    fun uc o t len hReg hLen hPos hStep => writesTty_step hReg hLen hPos hStep,
    fun o t hKc hStep => returnsTty_step (sound_reachable run) hInv.toWf hKc hStep⟩

open Sample in
/-- A write of six bytes whose first chunk of four is out. -/
theorem tty_write_order_chunk : ∃ s : Kernel, system.Reachable s ∧
    (outputLedger 1 s.trace).matched = true ∧ (outputLedger 1 s.trace).traps = 1 ∧
    (outputLedger 1 s.trace).chunks.map List.length = [4, 2] ∧
    (outputLedger 1 s.trace).chunks.flatten <+: bytesOf (outputLedger 1 s.trace).accepted := by
  obtain ⟨s, run, hTraps, hOne, hChunks⟩ := Transition.System.exists_reachable
    (P := fun s : Kernel => (outputLedger 1 s.trace).matched = true ∧ (outputLedger 1 s.trace).traps = 1 ∧
      (outputLedger 1 s.trace).chunks.map List.length = [4, 2])
    (turn ++ [call .ttyWrite [1, 208, 6]] ++ turn.tail ++ [.ttyTransmit (context []) 1]) initial_booted
    (by decide +kernel)
  exact ⟨s, run, hTraps, hOne, hChunks, (tty_write_order run hTraps).1⟩

end KernelStart
end Yalnix
