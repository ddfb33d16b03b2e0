import Yalnix.Device.Writes
import Yalnix.Library.Batches

/-! A terminal serves its writes like a queue of jobs that are cut into
chunks: what it has sent, which writes are done and whether it is at rest
depend on the accepted writes and on the number of traps only. -/
namespace Yalnix

open Hardware

/-- A write is sent in chunks of `TERMINAL_MAX_LINE` bytes. -/
def chunksOf [Hardware] (w : Write) : List (List Byte) := Batches.pieces terminalMaxLine w.2

namespace Output

variable [Hardware] {o : Output} {p : Proc} {bytes : List Byte}

/-- The writes that were sent in full. -/
def sent (o : Output) : List Write := o.ledger.accepted.take o.ledger.finished.length

/-- The chunks are those of the writes that are done and the first ones of the
owner's write, up to the one that is outstanding. -/
def Served (o : Output) : Prop :=
  match o.owner with
  | none => o.ledger.chunks = Batches.units chunksOf o.sent
  | some p => ∃ i, (o.transfer p).sent = i * terminalMaxLine ∧
      i * terminalMaxLine < (o.transfer p).kbuf.length ∧
      o.chunk = min ((o.transfer p).total - (o.transfer p).sent) terminalMaxLine ∧
      o.ledger.chunks = Batches.units chunksOf o.sent ++
        (Batches.pieces terminalMaxLine (o.transfer p).kbuf).take (i + 1)

omit [Hardware] in
theorem Ordered.sent_eq {done pending : List Write} [Hardware] (h : Ordered o done pending) :
    o.sent = done := by
  have hLength : done.length = o.ledger.finished.length := by simp [h.finished]
  rw [sent, h.accepted, ← hLength, List.take_left']
  rfl

/-- The owner starts the chunk after the first `i`. -/
theorem Served.start {i : Nat} (hTotal : (o.transfer p).total = (o.transfer p).kbuf.length)
    (hSent : (o.transfer p).sent = i * terminalMaxLine)
    (hLt : i * terminalMaxLine < (o.transfer p).kbuf.length)
    (hChunks : o.ledger.chunks = Batches.units chunksOf o.sent ++
      (Batches.pieces terminalMaxLine (o.transfer p).kbuf).take i) : (o.start p).Served := by
  have hChunk : (o.start p).chunk = min ((o.transfer p).total - (o.transfer p).sent) terminalMaxLine := by
    simp only [Output.start]
    split_ifs <;> omega
  -- cutting at the count or at the line length takes the same bytes
  have hTake : ((o.transfer p).kbuf.drop (o.transfer p).sent).take (o.start p).chunk =
      ((o.transfer p).kbuf.drop (i * terminalMaxLine)).take terminalMaxLine := by
    rw [hChunk, hSent, hTotal, ← List.length_drop, min_comm, ← List.take_take, List.take_length]
  refine ⟨i, hSent, hLt, hChunk, ?_⟩
  have hLedger : (o.start p).ledger.chunks = o.ledger.chunks ++
      [((o.transfer p).kbuf.drop (o.transfer p).sent).take (o.start p).chunk] := rfl
  rw [hLedger, hTake, hChunks, List.append_assoc]
  exact congrArg _ (Batches.take_succ_pieces terminalMaxLine_pos hLt).symm

/-- A free terminal that starts with a new write. -/
theorem Served.first (hTotal : (o.transfer p).total = (o.transfer p).kbuf.length)
    (hSent : (o.transfer p).sent = 0) (hNe : (o.transfer p).kbuf ≠ [])
    (hChunks : o.ledger.chunks = Batches.units chunksOf o.sent) : (o.start p).Served := by
  refine Served.start (i := 0) hTotal (by omega) ?_ (by simpa using hChunks)
  simpa using List.length_pos_iff.mpr hNe

variable {done pending : List Write}

theorem Served.write (hServed : o.Served) (h : Ordered o done pending) (hWf : o.Wf)
    (hNew : ¬o.writing p) (hBytes : bytes ≠ []) : (o.write p bytes).Served := by
  have hSent : (o.record p bytes).sent = o.sent := by
    have hLe : o.ledger.finished.length ≤ o.ledger.accepted.length := by
      simp [h.finished, h.accepted]
    simp [sent, record, Ledger.accept, List.take_append_of_le_length hLe]
  unfold Output.write
  cases hOwner : o.owner with
  | none =>
      simp only [Served, hOwner] at hServed
      refine Served.first (by simp [record]) (by simp [record]) (by simpa [record] using hBytes) ?_
      rw [hSent]
      exact hServed
  | some q =>
      have hq : q ≠ p := fun he => hWf.not_mem_blocked hNew (by simp [blocked, hOwner, he])
      simp only [Served, hOwner] at hServed
      simp only [Served, record, hOwner, Function.update_of_ne hq]
      rw [← hSent] at hServed
      exact hServed

theorem Served.handOver (h : Ordered o.handOver done pending) (hOwner : o.owner = none)
    (hFresh : ∀ q ∈ o.writers, (o.transfer q).sent = 0)
    (hChunks : o.ledger.chunks = Batches.units chunksOf o.sent) : o.handOver.Served := by
  unfold Output.handOver at h ⊢
  cases hWriters : o.writers with
  | nil =>
      simp only [Served, hOwner]
      exact hChunks
  | cons q rest =>
      simp only [hWriters] at h ⊢
      -- the writer that starts is the first of those that are pending
      have hBlocked := h.blocked
      simp only [blocked, Output.start, Option.toList_some, List.singleton_append] at hBlocked
      obtain ⟨w, others, rfl, rfl, -⟩ := List.map_eq_cons_iff.mp hBlocked.symm
      obtain ⟨hNe, hKbuf, hTotal⟩ := h.buffers w (by simp)
      have hFirst : (o.transfer w.1).kbuf = w.2 := hKbuf
      refine Served.first ?_ (hFresh w.1 (by simp [hWriters])) ?_ hChunks
      · exact hTotal.trans (congrArg List.length hFirst.symm)
      · exact fun hNil => hNe (hFirst.symm.trans hNil)

/-- The trap for the outstanding chunk of the owner. -/
theorem Served.trap (hServed : o.Served) (h : Ordered o done pending) (hWf : o.Wf)
    (hOut : o.ledger.traps < o.ledger.chunks.length) : o.trap.Served := by
  obtain ⟨doneAfter, pendingAfter, hAfter⟩ := h.trap hWf hOut
  have hBlocked := h.blocked
  have hProgress := h.progress
  have hSentEq := h.sent_eq
  unfold Output.trap at hAfter ⊢
  cases hOwner : o.owner with
  | none =>
      simp only [Progress, hOwner] at hProgress
      omega
  | some p =>
      simp only [Served, hOwner] at hServed
      obtain ⟨i, hSent, hLt, hChunk, hChunks⟩ := hServed
      simp only [blocked, hOwner, Option.toList_some, List.singleton_append] at hBlocked
      obtain ⟨w, rest, rfl, rfl, -⟩ := List.map_eq_cons_iff.mp hBlocked.symm
      obtain ⟨-, hKbuf, hTotal⟩ := h.buffers w (by simp)
      rw [hSentEq, hKbuf] at hChunks
      rw [hKbuf] at hLt
      rw [hSent, hTotal] at hChunk
      have hNext : (i + 1) * terminalMaxLine = i * terminalMaxLine + terminalMaxLine :=
        Nat.succ_mul i terminalMaxLine
      have hMine : (o.trapped.chunkDone w.1).transfer w.1 =
          { o.transfer w.1 with sent := i * terminalMaxLine + o.chunk } := by
        simp [chunkDone, trapped, hSent]
      simp only [hOwner] at hAfter ⊢
      split_ifs at hAfter ⊢ with hMore
      · -- more is left, so the chunk was a whole line
        rw [hMine] at hMore
        dsimp only at hMore
        refine Served.start (i := i + 1) ?_ ?_ ?_ ?_
        · rw [hMine]
          exact hTotal.trans (congrArg List.length hKbuf.symm)
        · rw [hMine]
          dsimp only
          omega
        · rw [hMine, hKbuf]
          omega
        · rw [hMine, hKbuf]
          exact hChunks.trans (by rw [← hSentEq]; rfl)
      · rw [hMine] at hMore
        dsimp only at hMore
        refine Served.handOver hAfter rfl ?_ ?_
        · intro q hq
          have hNodup := hWf.nodup
          simp only [blocked, hOwner, Option.toList_some, List.singleton_append,
            List.nodup_cons] at hNodup
          have hNe : q ≠ w.1 := fun he => hNodup.1 (he ▸ hq)
          simpa [release, chunkDone, trapped, Function.update_of_ne hNe] using h.fresh q hq
        · -- this was the last chunk of the write
          have hAll : (Batches.pieces terminalMaxLine w.2).length ≤ i + 1 := by
            rw [← not_lt, Batches.lt_length_pieces terminalMaxLine_pos]
            omega
          have hDone : ((o.trapped.chunkDone w.1).release w.1).sent = done ++ [w] := by
            have hLength : o.ledger.finished.length = done.length := by simp [h.finished]
            simp [sent, release, chunkDone, trapped, Ledger.trap, Ledger.finish, h.accepted, hLength,
              List.take_append]
          rw [hDone, Batches.units_append]
          refine hChunks.trans ?_
          rw [List.take_of_length_le hAll]
          simp [chunksOf]

theorem Served.leave (hServed : o.Served) (hFree : p ∉ o.blocked) : (o.leave p).Served := by
  cases hOwner : o.owner with
  | none =>
      simp only [Served, hOwner] at hServed
      simp only [Served, Output.leave, hOwner]
      exact hServed
  | some q =>
      have hq : q ≠ p := fun he => hFree (by simp [blocked, hOwner, he])
      simp only [Served, hOwner] at hServed
      simp only [Served, Output.leave, hOwner, Function.update_of_ne hq]
      exact hServed

/-- What an output side has served, as long as no trap was spurious. -/
theorem Served.step {t : Output} (hStep : Step o t) (hInv : o.Inv)
    (hServed : o.ledger.matched = true → o.Served) (hMatched : t.ledger.matched = true) :
    t.Served := by
  cases hStep with
  | write hNew hBytes =>
      rw [matched_write] at hMatched
      obtain ⟨done, pending, hOrdered⟩ := hInv.ordered hMatched
      exact (hServed hMatched).write hOrdered hInv.toWf hNew hBytes
  | trap =>
      obtain ⟨hBefore, hOut⟩ := matched_trap o hMatched
      obtain ⟨done, pending, hOrdered⟩ := hInv.ordered hBefore
      exact (hServed hBefore).trap hOrdered hInv.toWf hOut
  | leave hFree => exact (hServed hMatched).leave hFree

/-- The chunks and the finished writes are those of a server that completed
one chunk for each trap. -/
theorem Served.summary (hServed : o.Served) (h : Ordered o done pending) (hWf : o.Wf) :
    o.ledger.chunks = (Batches.units chunksOf o.ledger.accepted).take (o.ledger.traps + 1) ∧
    o.ledger.finished = (Batches.completed chunksOf o.ledger.accepted o.ledger.traps).map Prod.fst ∧
    (o.owner = none ↔ o.ledger.traps = (Batches.units chunksOf o.ledger.accepted).length) := by
  have hProgress := h.progress
  have hBlocked := h.blocked
  rw [h.finished, h.accepted]
  cases hOwner : o.owner with
  | none =>
      simp only [Progress, hOwner] at hProgress
      simp only [Served, hOwner, h.sent_eq] at hServed
      obtain ⟨hTraps, -⟩ := hProgress
      simp only [blocked, hOwner, hWf.free hOwner, Option.toList_none, List.append_nil] at hBlocked
      obtain rfl := List.map_eq_nil_iff.mp hBlocked.symm
      rw [hServed] at hTraps
      refine ⟨?_, ?_, by simp [hTraps]⟩
      · rw [List.append_nil, List.take_of_length_le (by omega), hServed]
      · rw [Batches.completed_append chunksOf hTraps.le (by simp)]
  | some p =>
      simp only [Progress, hOwner] at hProgress
      simp only [Served, hOwner, h.sent_eq] at hServed
      obtain ⟨i, -, hLt, -, hChunks⟩ := hServed
      obtain ⟨-, hTraps, -, -⟩ := hProgress
      simp only [blocked, hOwner, Option.toList_some, List.singleton_append] at hBlocked
      obtain ⟨w, rest, rfl, rfl, -⟩ := List.map_eq_cons_iff.mp hBlocked.symm
      obtain ⟨-, hKbuf, -⟩ := h.buffers w (by simp)
      rw [hKbuf] at hLt hChunks
      have hMore := (Batches.lt_length_pieces terminalMaxLine_pos).mpr hLt
      have hLength := congrArg List.length hChunks
      rw [List.length_append, List.length_take, hTraps] at hLength
      have hWrite : (chunksOf w).length = (Batches.pieces terminalMaxLine w.2).length := rfl
      refine ⟨?_, ?_, ?_⟩
      · have hSplit : o.ledger.traps + 1 = (Batches.units chunksOf done).length + (i + 1) := by omega
        rw [hSplit, Batches.units_append, Batches.units_cons, List.take_length_add_append, hChunks,
          List.take_append_of_le_length (by omega)]
        rfl
      · rw [Batches.completed_append chunksOf (by omega)]
        intro job hJob
        obtain rfl : w = job := by simpa using hJob
        simp only [Batches.units_append, Batches.units_cons, Batches.units_nil, List.append_nil,
          List.length_append]
        omega
      · simp only [reduceCtorEq, false_iff, Batches.units_append, Batches.units_cons, List.length_append]
        omega

end Output

namespace Kernel

variable [Hardware] {s t : Kernel}

/-- The output sides of all terminals are in order and have served what their
traps say. -/
structure ServiceInv (s : Kernel) : Prop where
  order : s.OutputInv
  served : ∀ id, (outputLedger id s.trace).matched = true → (s.output id).Served

theorem ServiceInv.of_output_eq (hInv : s.ServiceInv) (hOrder : t.OutputInv)
    (hSame : ∀ id, t.output id = s.output id) : t.ServiceInv := by
  refine ⟨hOrder, fun id hMatched => ?_⟩
  rw [hSame id]
  exact hInv.served id ((congrArg (fun o : Output => o.ledger.matched) (hSame id)).symm.trans hMatched)

theorem ServiceInv.effect {label : Label} (hInv : s.ServiceInv) (h : KernelStart.Sound s)
    (hEffect : Effect label s t) : t.ServiceInv := by
  refine ⟨hInv.order.effect h hEffect, fun id hMatched => ?_⟩
  rcases output_effect h (fun k => (hInv.order k).toWf) hEffect id with hSame | hStep
  · rw [hSame]
    exact hInv.served id ((congrArg (fun o : Output => o.ledger.matched) hSame).symm.trans hMatched)
  · exact Output.Served.step hStep (hInv.order id) (hInv.served id) hMatched

end Kernel

namespace KernelStart

open Kernel

theorem serviceInv_kernelStart [Hardware] (uctxt : UserContext) (early late : List Word) :
    (kernelStart uctxt early late).ServiceInv := by
  refine ⟨outputInv_kernelStart uctxt early late, fun id _ => ?_⟩
  have hDevices := devices_kernelStart uctxt early late
  have hTtys : (kernelStart uctxt early late).ttys = (image uctxt).ttys := congrArg Devices.ttys hDevices
  have hOwner : ((kernelStart uctxt early late).output id).owner = none :=
    congrArg (fun ttys => (ttys id).txOwner) hTtys
  have hLedger : ((kernelStart uctxt early late).output id).ledger = .empty :=
    outputLedger_congr id (ttyLog_of_devices (congrArg Devices.log hDevices))
  simp [Output.Served, hOwner, Output.sent, hLedger, Ledger.empty]

theorem serviceInv_reachable [Hardware] {s : Kernel} (run : system.Reachable s) : s.ServiceInv :=
  invariant (I := ServiceInv) serviceInv_kernelStart (fun _ _ _ h hInv hEffect => hInv.effect h hEffect)
    (fun _ k len h hInv => hInv.of_output_eq (hInv.order.read h k len) (output_read h k len))
    (fun _ _ _ hInv _ hKc => hInv.of_output_eq (hInv.order.user hKc) (output_user hKc)) run

/-- A terminal is a server whose jobs are the accepted writes: after `traps`
traps it has sent the first `traps + 1` chunks of all writes, each cut in lines
of the terminal's length, the finished writes are those whose chunks have all
been trapped for, and it is at rest only when nothing is left. -/
theorem tty_service [Hardware] {s : Kernel} (run : system.Reachable s) {id : Nat}
    (hTraps : (outputLedger id s.trace).matched = true) :
    let ledger := outputLedger id s.trace
    ledger.chunks = (Batches.units chunksOf ledger.accepted).take (ledger.traps + 1) ∧
    ledger.finished = (Batches.completed chunksOf ledger.accepted ledger.traps).map Prod.fst ∧
    ((s.ttys id).txOwner = none ↔
      ledger.traps = (Batches.units chunksOf ledger.accepted).length) := by
  intro ledger
  have hInv := serviceInv_reachable run
  obtain ⟨done, pending, hOrdered⟩ := (hInv.order id).ordered hTraps
  exact (hInv.served id hTraps).summary hOrdered (hInv.order id).toWf

open Sample in
/-- A write of six bytes that is sent in two chunks. -/
theorem tty_service_write : ∃ s : Kernel, system.Reachable s ∧
    (outputLedger 1 s.trace).traps = 1 ∧ (s.ttys 1).txOwner ≠ none ∧
    ((Batches.units chunksOf (outputLedger 1 s.trace).accepted).map List.length) = [4, 2] ∧
    (outputLedger 1 s.trace).chunks =
      (Batches.units chunksOf (outputLedger 1 s.trace).accepted).take 2 := by
  obtain ⟨s, run, hTraps, hOne, hOwner, hUnits⟩ := Transition.System.exists_reachable
    (P := fun s : Kernel => (outputLedger 1 s.trace).matched = true ∧ (outputLedger 1 s.trace).traps = 1 ∧
      (s.ttys 1).txOwner ≠ none ∧
      (Batches.units chunksOf (outputLedger 1 s.trace).accepted).map List.length = [4, 2])
    (turn ++ [call .ttyWrite [1, 208, 6]] ++ turn.tail ++ [.ttyTransmit (context []) 1]) initial_booted
    (by decide +kernel)
  have hChunks := (tty_service run hTraps).1
  rw [hOne] at hChunks
  exact ⟨s, run, hOne, hOwner, hUnits, hChunks⟩

end KernelStart
end Yalnix
