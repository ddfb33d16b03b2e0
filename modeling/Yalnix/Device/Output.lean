import Yalnix.Process.Views

/-! The output side of one terminal, apart from the kernel around it: writes
are accepted in order, and their bytes go out in chunks, one at a time. -/
namespace Yalnix

open Hardware

/-- A write with its caller. -/
abbrev Write := Proc × List Byte

/-- The bytes of some writes, one after the other. -/
def bytesOf (writes : List Write) : List Byte := (writes.map Prod.snd).flatten

@[simp] theorem bytesOf_nil : bytesOf [] = [] := rfl

@[simp] theorem bytesOf_append (writes more : List Write) :
    bytesOf (writes ++ more) = bytesOf writes ++ bytesOf more := by simp [bytesOf]

@[simp] theorem bytesOf_singleton (w : Write) : bytesOf [w] = w.2 := by simp [bytesOf]

/-- What the history of a terminal's output adds up to. `matched` says that
every trap so far was raised for a chunk that was outstanding. -/
structure Ledger where
  accepted : List Write
  chunks : List (List Byte)
  traps : Nat
  finished : List Proc
  matched : Bool

namespace Ledger

def empty : Ledger := ⟨[], [], 0, [], true⟩

def accept (l : Ledger) (w : Write) : Ledger := { l with accepted := l.accepted ++ [w] }

def transmit (l : Ledger) (chunk : List Byte) : Ledger := { l with chunks := l.chunks ++ [chunk] }

def trap (l : Ledger) : Ledger :=
  { l with traps := l.traps + 1, matched := l.matched && decide (l.traps < l.chunks.length) }

def finish (l : Ledger) (p : Proc) : Ledger := { l with finished := l.finished ++ [p] }

/-- The latest write of a process. -/
def latest (l : Ledger) (p : Proc) : Option (List Byte) :=
  (l.accepted.reverse.find? fun w => w.1 = p).map Prod.snd

theorem latest_accept (l : Ledger) (w : Write) (p : Proc) :
    (l.accept w).latest p = if w.1 = p then some w.2 else l.latest p := by
  unfold latest accept
  simp only [List.reverse_append, List.reverse_singleton, List.singleton_append, List.find?_cons]
  by_cases h : w.1 = p <;> simp [h]

end Ledger

/-- The output side of a terminal. `writing` are the processes inside
`kernel_tty_write`, each with its transfer. -/
structure Output where
  owner : Option Proc
  chunk : Nat
  writers : List Proc
  writing : Proc → Prop
  transfer : Proc → Transfer
  ledger : Ledger

namespace Output

variable [Hardware]

/-- `start_chunk` for the process `p`, which owns the terminal. -/
def start (o : Output) (p : Proc) : Output :=
  let remaining := (o.transfer p).total - (o.transfer p).sent
  let chunk := if remaining < terminalMaxLine then remaining else terminalMaxLine
  { o with
    owner := some p
    chunk := chunk
    ledger := o.ledger.transmit (((o.transfer p).kbuf.drop (o.transfer p).sent).take chunk) }

omit [Hardware] in
/-- A write is recorded for its caller. -/
def record (o : Output) (p : Proc) (bytes : List Byte) : Output :=
  { o with
    writing := Function.update o.writing p True
    transfer := Function.update o.transfer p ⟨bytes, bytes.length, 0⟩
    ledger := o.ledger.accept (p, bytes) }

/-- The caller of an accepted write owns the terminal or waits for it. -/
def write (o : Output) (p : Proc) (bytes : List Byte) : Output :=
  match o.owner with
  | none => (o.record p bytes).start p
  | some _ => { o.record p bytes with writers := o.writers ++ [p] }

/-- The first waiting writer, if there is one, gets the terminal. -/
def handOver (o : Output) : Output :=
  match o.writers with
  | [] => o
  | p :: rest => { o with writers := rest }.start p

omit [Hardware] in
/-- The chunk of the owner is complete. -/
def chunkDone (o : Output) (p : Proc) : Output :=
  { o with
    transfer := Function.update o.transfer p
      { o.transfer p with sent := (o.transfer p).sent + o.chunk } }

omit [Hardware] in
/-- The owner has sent everything and is put back on the ready queue. -/
def release (o : Output) (p : Proc) : Output :=
  { o with owner := none, ledger := o.ledger.finish p }

omit [Hardware] in
def trapped (o : Output) : Output := { o with ledger := o.ledger.trap }

/-- A transmit-complete trap. -/
def trap (o : Output) : Output :=
  match o.owner with
  | none => o.trapped
  | some p =>
      let o := o.trapped.chunkDone p
      if (o.transfer p).sent < (o.transfer p).total then o.start p else (o.release p).handOver

omit [Hardware] in
/-- `kernel_tty_write` returns. -/
def leave (o : Output) (p : Proc) : Output :=
  { o with
    writing := Function.update o.writing p False
    transfer := Function.update o.transfer p ⟨[], 0, 0⟩ }

omit [Hardware] in
/-- The processes that wait for the terminal, its owner first. -/
def blocked (o : Output) : List Proc := o.owner.toList ++ o.writers

/-- What can happen on the output side. -/
inductive Step (o : Output) : Output → Prop where
  | write {p : Proc} {bytes : List Byte} (hNew : ¬o.writing p) (hBytes : bytes ≠ [])
      (hShort : bytes.length < 2 ^ 31) : Step o (o.write p bytes)
  | trap : Step o o.trap
  | leave {p : Proc} (hFree : p ∉ o.blocked) : Step o (o.leave p)

/-- Blocked processes are inside the call, nobody waits for a free terminal,
and a call knows its length. -/
structure Wf (o : Output) : Prop where
  free : o.owner = none → o.writers = []
  writing : ∀ p ∈ o.blocked, o.writing p
  nodup : o.blocked.Nodup
  latest : ∀ p, o.writing p → ∃ bytes, o.ledger.latest p = some bytes ∧
    (o.transfer p).total = bytes.length ∧ bytes.length < 2 ^ 31

/-- The accepted writes are those that are done and those still pending, whose
callers have their bytes to send; the chunks have the allowed lengths. -/
structure Accounts (o : Output) (done pending : List Write) : Prop where
  accepted : o.ledger.accepted = done ++ pending
  finished : o.ledger.finished = done.map Prod.fst
  buffers : ∀ w ∈ pending, w.2 ≠ [] ∧ (o.transfer w.1).kbuf = w.2 ∧
    (o.transfer w.1).total = w.2.length
  chunks : ∀ chunk ∈ o.ledger.chunks, 1 ≤ chunk.length ∧ chunk.length ≤ terminalMaxLine

/-- How far the terminal is: at rest with everything sent, or with one chunk
of its owner outstanding. -/
def Progress (o : Output) (done : List Write) : Prop :=
  match o.owner with
  | none => o.ledger.chunks.length = o.ledger.traps ∧ o.ledger.chunks.flatten = bytesOf done
  | some p => (o.transfer p).sent + o.chunk ≤ (o.transfer p).total ∧
      o.ledger.chunks.length = o.ledger.traps + 1 ∧
      o.ledger.chunks.flatten =
        bytesOf done ++ (o.transfer p).kbuf.take ((o.transfer p).sent + o.chunk) ∧
      (o.ledger.chunks.take o.ledger.traps).flatten =
        bytesOf done ++ (o.transfer p).kbuf.take (o.transfer p).sent

structure Ordered (o : Output) (done pending : List Write) : Prop extends Accounts o done pending where
  blocked : o.blocked = pending.map Prod.fst
  fresh : ∀ p ∈ o.writers, (o.transfer p).sent = 0
  progress : o.Progress done

variable {o : Output} {done rest : List Write} {p : Proc} {bytes : List Byte}

/-- A terminal at rest starts the next chunk of the first pending write. -/
theorem Accounts.start (h : Accounts o done ((p, bytes) :: rest))
    (hWriters : o.writers = rest.map Prod.fst) (hFresh : ∀ q ∈ o.writers, (o.transfer q).sent = 0)
    (hSent : (o.transfer p).sent < bytes.length) (hTraps : o.ledger.chunks.length = o.ledger.traps)
    (hFlat : o.ledger.chunks.flatten = bytesOf done ++ bytes.take (o.transfer p).sent) :
    Ordered (o.start p) done ((p, bytes) :: rest) := by
  obtain ⟨hNe, hKbuf, hTotal⟩ := h.buffers (p, bytes) (by simp)
  dsimp only at hKbuf hTotal
  have hPos := terminalMaxLine_pos
  refine ⟨⟨h.accepted, h.finished, h.buffers, ?_⟩, by simp [Output.blocked, Output.start, hWriters],
    hFresh, ?_, ?_, ?_, ?_⟩
  · intro chunk hChunk
    simp only [Output.start, Ledger.transmit, List.mem_append, List.mem_singleton] at hChunk
    rcases hChunk with hChunk | rfl
    · exact h.chunks chunk hChunk
    · rw [hKbuf, hTotal, List.length_take, List.length_drop]
      split_ifs <;> omega
  · simp only [Output.start, hTotal]
    split_ifs <;> omega
  · simp [Output.start, Ledger.transmit, hTraps]
  · simp only [Output.start, Ledger.transmit, List.flatten_append, List.flatten_singleton, hFlat, hKbuf,
      List.append_assoc, List.take_add]
  · simp only [Output.start, Ledger.transmit, hKbuf]
    rw [← hTraps, List.take_left', hFlat]
    rfl

section Wf

omit [Hardware] in
/-- Processes may stop to be blocked, and transfers may go on. -/
theorem Wf.of_sublist {t : Output} (h : o.Wf) (hFree : t.owner = none → t.writers = [])
    (hBlocked : t.blocked.Sublist o.blocked) (hWriting : t.writing = o.writing)
    (hTotal : ∀ p, (t.transfer p).total = (o.transfer p).total)
    (hAccepted : t.ledger.accepted = o.ledger.accepted) : t.Wf where
  free := hFree
  writing p hp := by
    rw [hWriting]
    exact h.writing p (hBlocked.subset hp)
  nodup := h.nodup.sublist hBlocked
  latest p hp := by
    rw [hWriting] at hp
    have hLatest : t.ledger.latest p = o.ledger.latest p := by rw [Ledger.latest, hAccepted, Ledger.latest]
    rw [hLatest, hTotal]
    exact h.latest p hp

omit [Hardware] in
theorem Wf.not_mem_blocked (h : o.Wf) (hNew : ¬o.writing p) : p ∉ o.blocked :=
  fun hp => hNew (h.writing p hp)

omit [Hardware] in
/-- A new call, whose caller is blocked afterwards. -/
theorem Wf.record {t : Output} (h : o.Wf) (hNew : ¬o.writing p) (hShort : bytes.length < 2 ^ 31)
    (hOwner : t.owner ≠ none) (hBlocked : t.blocked = o.blocked ++ [p])
    (hWriting : t.writing = (o.record p bytes).writing)
    (hTransfer : t.transfer = (o.record p bytes).transfer)
    (hAccepted : t.ledger.accepted = (o.record p bytes).ledger.accepted) : t.Wf where
  free hNone := absurd hNone hOwner
  writing q hq := by
    rw [hBlocked, List.mem_append, List.mem_singleton] at hq
    rw [hWriting]
    by_cases he : q = p
    · simp [Output.record, he]
    · simpa [Output.record, Function.update_of_ne he] using h.writing q (hq.resolve_right he)
  nodup := by
    rw [hBlocked, List.nodup_append]
    refine ⟨h.nodup, List.nodup_singleton p, fun q hq r hr he => ?_⟩
    rw [List.mem_singleton.mp hr] at he
    exact h.not_mem_blocked hNew (he ▸ hq)
  latest q hq := by
    have hLatest : t.ledger.latest q = if p = q then some bytes else o.ledger.latest q := by
      rw [← Ledger.latest_accept o.ledger (p, bytes) q, Ledger.latest, hAccepted]
      rfl
    rw [hWriting] at hq
    rw [hLatest, hTransfer]
    by_cases he : q = p
    · subst he
      exact ⟨bytes, if_pos rfl, by simp [Output.record], hShort⟩
    · simp only [Output.record, Function.update_of_ne he, if_neg (Ne.symm he)] at hq ⊢
      exact h.latest q hq

theorem Wf.write (h : o.Wf) (hNew : ¬o.writing p) (hShort : bytes.length < 2 ^ 31) :
    (o.write p bytes).Wf := by
  unfold Output.write
  split
  · rename_i hOwner
    have hWriters := h.free hOwner
    exact h.record hNew hShort (by simp [Output.start])
      (by simp [Output.blocked, Output.start, Output.record, hOwner, hWriters]) rfl rfl rfl
  · rename_i q hOwner
    exact h.record hNew hShort (by simp [Output.record, hOwner])
      (by simp [Output.blocked, Output.record, hOwner]) rfl rfl rfl

omit [Hardware] in
@[simp] theorem total_chunkDone (o : Output) (p q : Proc) :
    ((o.chunkDone p).transfer q).total = (o.transfer q).total := by
  by_cases hq : q = p
  · simp [chunkDone, hq]
  · simp [chunkDone, Function.update_of_ne hq]

theorem Wf.trap (h : o.Wf) : o.trap.Wf := by
  unfold Output.trap
  dsimp only
  split
  · exact h.of_sublist h.free (List.Sublist.refl _) rfl (fun _ => rfl) rfl
  rename_i p hOwner
  split_ifs
  · refine h.of_sublist (fun hNone => by simp [Output.start] at hNone) ?_ rfl
      (total_chunkDone o.trapped p) rfl
    simp [Output.blocked, Output.start, Output.chunkDone, Output.trapped, hOwner]
  · unfold Output.handOver
    split
    · rename_i hWriters
      exact h.of_sublist (fun _ => hWriters) (by simp [Output.blocked, Output.chunkDone, Output.trapped, Output.release]) rfl
        (total_chunkDone o.trapped p) rfl
    · rename_i q rest hWriters
      refine h.of_sublist (fun hNone => by simp [Output.start] at hNone) ?_ rfl
        (total_chunkDone o.trapped p) rfl
      have hList : o.writers = q :: rest := hWriters
      simp [Output.blocked, Output.start, hOwner, hList]

omit [Hardware] in
theorem Wf.leave (h : o.Wf) (hFree : p ∉ o.blocked) : (o.leave p).Wf where
  free := h.free
  writing q hq := by
    have hNe : q ≠ p := fun he => hFree (he ▸ hq)
    simpa [Output.leave, Function.update_of_ne hNe] using h.writing q hq
  nodup := h.nodup
  latest q hq := by
    by_cases he : q = p
    · simp [Output.leave, he] at hq
    · simp only [Output.leave, Function.update_of_ne he] at hq ⊢
      exact h.latest q hq

theorem Wf.step {t : Output} (h : o.Wf) (hStep : Step o t) : t.Wf := by
  cases hStep with
  | write hNew hBytes hShort => exact h.write hNew hShort
  | trap => exact h.trap
  | leave hFree => exact h.leave hFree

end Wf

section Order

/-- A write by a process that has none pending. -/
theorem Ordered.write {pending : List Write} (h : Ordered o done pending) (hWf : o.Wf)
    (hNew : ¬o.writing p) (hBytes : bytes ≠ []) :
    Ordered (o.write p bytes) done (pending ++ [(p, bytes)]) := by
  have hFree := hWf.not_mem_blocked hNew
  have hPending (w : Write) (hw : w ∈ pending) : w.1 ≠ p := by
    rintro rfl
    exact hFree (h.blocked ▸ List.mem_map_of_mem hw)
  have hAccounts : Accounts (o.record p bytes) done (pending ++ [(p, bytes)]) := by
    refine ⟨?_, h.finished, fun w hw => ?_, h.chunks⟩
    · simp [record, Ledger.accept, h.accepted]
    · rcases List.mem_append.mp hw with hw | hw
      · simpa [record, Function.update_of_ne (hPending w hw)] using h.buffers w hw
      · rw [List.mem_singleton.mp hw]
        simp [record, hBytes]
  have hBlocked := h.blocked
  have hProgress := h.progress
  unfold Output.write
  cases hOwner : o.owner with
  | none =>
      have hWriters := hWf.free hOwner
      simp only [Output.blocked, hOwner, hWriters, Option.toList_none, List.append_nil] at hBlocked
      obtain rfl := List.map_eq_nil_iff.mp hBlocked.symm
      simp only [Progress, hOwner] at hProgress
      refine hAccounts.start (by simp [record, hWriters]) (by simp [record, hWriters]) ?_ hProgress.1 ?_
      · simpa [record] using List.length_pos_iff.mpr hBytes
      · simpa [record, Ledger.accept] using hProgress.2
  | some q =>
      have hq : q ≠ p := fun he => hFree (by simp [Output.blocked, hOwner, he])
      simp only [Progress, hOwner] at hProgress
      refine ⟨⟨hAccounts.accepted, hAccounts.finished, hAccounts.buffers, hAccounts.chunks⟩, ?_, ?_, ?_⟩
      · simp only [Output.blocked, record, hOwner] at hBlocked ⊢
        rw [← List.append_assoc, hBlocked]
        simp
      · intro r hr
        rcases List.mem_append.mp hr with hr | hr
        · have hNe : r ≠ p := fun he => hFree (by simp [Output.blocked, ← he, hr])
          simpa [record, Function.update_of_ne hNe] using h.fresh r hr
        · simp [record, List.mem_singleton.mp hr]
      · simpa [Progress, record, hOwner, Function.update_of_ne hq, Ledger.accept] using hProgress

/-- Nothing is left to send of the owner's write. -/
theorem Accounts.handOver (h : Accounts o done rest) (hOwner : o.owner = none)
    (hWriters : o.writers = rest.map Prod.fst) (hFresh : ∀ q ∈ o.writers, (o.transfer q).sent = 0)
    (hTraps : o.ledger.chunks.length = o.ledger.traps)
    (hFlat : o.ledger.chunks.flatten = bytesOf done) : Ordered o.handOver done rest := by
  unfold Output.handOver
  cases rest with
  | nil =>
      rw [List.map_nil] at hWriters
      simp only [hWriters]
      exact ⟨h, by simp [Output.blocked, hOwner, hWriters], hFresh, by simp [Progress, hOwner, hTraps, hFlat]⟩
  | cons w rest =>
      rw [List.map_cons] at hWriters
      simp only [hWriters]
      have hSent := hFresh w.1 (by simp [hWriters])
      have hNe := (h.buffers w (by simp)).1
      have hLeft : Accounts { o with writers := rest.map Prod.fst } done ((w.1, w.2) :: rest) :=
        ⟨h.accepted, h.finished, h.buffers, h.chunks⟩
      refine hLeft.start rfl (fun q hq => hFresh q (by simp [hWriters, hq])) ?_ hTraps ?_
      · simpa [hSent] using List.length_pos_iff.mpr hNe
      · simpa [hSent] using hFlat

/-- The trap for the outstanding chunk of the owner. -/
theorem Ordered.trap {pending : List Write} (h : Ordered o done pending) (hWf : o.Wf)
    (hOut : o.ledger.traps < o.ledger.chunks.length) :
    ∃ done pending, Ordered o.trap done pending := by
  have hBlocked := h.blocked
  have hProgress := h.progress
  unfold Output.trap
  cases hOwner : o.owner with
  | none =>
      simp only [Progress, hOwner] at hProgress
      omega
  | some p =>
      simp only [Progress, hOwner] at hProgress
      obtain ⟨hLe, hTraps, hFlat, -⟩ := hProgress
      simp only [Output.blocked, hOwner, Option.toList_some, List.singleton_append] at hBlocked
      obtain ⟨w, rest, rfl, rfl, hWriters⟩ := List.map_eq_cons_iff.mp hBlocked.symm
      obtain ⟨hNe, hKbuf, hTotal⟩ := h.buffers w (by simp)
      have hNodup := hWf.nodup
      simp only [Output.blocked, hOwner, Option.toList_some, List.singleton_append,
        List.nodup_cons] at hNodup
      have hOther (q : Proc) (hq : q ∈ o.writers) : q ≠ w.1 := fun he => hNodup.1 (he ▸ hq)
      -- only the count of the owner changes
      have hAccounts : Accounts (o.trapped.chunkDone w.1) done (w :: rest) := by
        refine ⟨h.accepted, h.finished, fun v hv => ?_, h.chunks⟩
        by_cases he : v.1 = w.1
        · have hBuf := h.buffers v hv
          simpa [chunkDone, trapped, he] using hBuf
        · simpa [chunkDone, trapped, Function.update_of_ne he] using h.buffers v hv
      have hFresh : ∀ q ∈ o.writers,
          ((o.trapped.chunkDone w.1).transfer q).sent = 0 := by
        intro q hq
        simpa [chunkDone, trapped, Function.update_of_ne (hOther q hq)] using h.fresh q hq
      dsimp only
      split_ifs with hMore
      · refine ⟨done, w :: rest, hAccounts.start hWriters.symm hFresh ?_ hTraps ?_⟩
        · simpa [chunkDone, trapped, hTotal] using hMore
        · simpa [chunkDone, trapped, Ledger.trap, hKbuf] using hFlat
      · have hEnd : (o.transfer w.1).sent + o.chunk = w.2.length := by
          simp only [chunkDone, trapped, Function.update_self, not_lt] at hMore
          omega
        refine ⟨done ++ [w], rest, ?_⟩
        have hLeft : Accounts ((o.trapped.chunkDone w.1).release w.1) (done ++ [w]) rest :=
          ⟨by simpa [release, chunkDone, trapped, Ledger.finish, Ledger.trap] using h.accepted,
            by simp [release, chunkDone, trapped, Ledger.finish, Ledger.trap, h.finished],
            fun v hv => hAccounts.buffers v (List.mem_cons_of_mem _ hv), hAccounts.chunks⟩
        refine hLeft.handOver rfl hWriters.symm hFresh hTraps ?_
        rw [hEnd, hKbuf, List.take_length] at hFlat
        simpa [release, chunkDone, trapped, Ledger.finish, Ledger.trap] using hFlat

omit [Hardware] in
theorem transfer_leave (o : Output) {q : Proc} (hq : q ≠ p) :
    (o.leave p).transfer q = o.transfer q := by
  simp [leave, Function.update_of_ne hq]

theorem Ordered.leave {pending : List Write} (h : Ordered o done pending) (hFree : p ∉ o.blocked) :
    Ordered (o.leave p) done pending := by
  have hSame (q : Proc) (hq : q ∈ o.blocked) : (o.leave p).transfer q = o.transfer q :=
    transfer_leave o fun he => hFree (he ▸ hq)
  refine ⟨⟨h.accepted, h.finished, fun w hw => ?_, h.chunks⟩, h.blocked, fun q hq => ?_, ?_⟩
  · rw [hSame w.1 (h.blocked ▸ List.mem_map_of_mem hw)]
    exact h.buffers w hw
  · rw [hSame q (by simp [Output.blocked, show q ∈ o.writers from hq])]
    exact h.fresh q hq
  · have hProgress := h.progress
    cases hOwner : o.owner with
    | none =>
        have hFree : (o.leave p).owner = none := hOwner
        simp only [Progress, hOwner, hFree] at hProgress ⊢
        exact hProgress
    | some q =>
        have hKept := hSame q (by simp [Output.blocked, hOwner])
        have hOwned : (o.leave p).owner = some q := hOwner
        simp only [Progress, hOwner, hOwned, hKept] at hProgress ⊢
        exact hProgress

/-- What the order says about the bytes that were sent. -/
theorem Ordered.summary {pending : List Write} (h : Ordered o done pending) :
    o.ledger.chunks.flatten <+: bytesOf o.ledger.accepted ∧
    o.ledger.traps ≤ o.ledger.chunks.length ∧ o.ledger.chunks.length ≤ o.ledger.traps + 1 ∧
    bytesOf done <+: (o.ledger.chunks.take o.ledger.traps).flatten := by
  have hProgress := h.progress
  have hBlocked := h.blocked
  rw [h.accepted, bytesOf_append]
  cases hOwner : o.owner with
  | none =>
      simp only [Progress, hOwner] at hProgress
      obtain ⟨hTraps, hFlat⟩ := hProgress
      rw [← hTraps, List.take_length, hFlat]
      exact ⟨List.prefix_append _ _, le_rfl, Nat.le_succ _, List.prefix_rfl⟩
  | some p =>
      simp only [Progress, hOwner] at hProgress
      obtain ⟨-, hTraps, hFlat, hAcked⟩ := hProgress
      simp only [Output.blocked, hOwner, Option.toList_some, List.singleton_append] at hBlocked
      obtain ⟨w, rest, rfl, rfl, -⟩ := List.map_eq_cons_iff.mp hBlocked.symm
      obtain ⟨-, hKbuf, -⟩ := h.buffers w (by simp)
      rw [hFlat, hAcked, hKbuf]
      refine ⟨?_, by omega, by omega, List.prefix_append _ _⟩
      have hRest : bytesOf (w :: rest) = w.2 ++ bytesOf rest := by simp [bytesOf]
      rw [hRest, List.prefix_append_right_inj]
      exact (List.take_prefix _ _).trans (List.prefix_append _ _)

end Order

/-- The invariant of the output side. The order of the bytes depends on the
hardware raising no trap of its own. -/
structure Inv (o : Output) : Prop extends Wf o where
  ordered : o.ledger.matched = true → ∃ done pending, Ordered o done pending

theorem matched_trap (o : Output) (h : o.trap.ledger.matched = true) :
    o.ledger.matched = true ∧ o.ledger.traps < o.ledger.chunks.length := by
  have hTrap : o.trap.ledger.matched = o.ledger.trap.matched := by
    unfold Output.trap
    dsimp only
    split
    · rfl
    · split_ifs
      · rfl
      · unfold Output.handOver
        split <;> rfl
  rw [hTrap] at h
  simpa [Ledger.trap] using h

theorem matched_write (o : Output) (p : Proc) (bytes : List Byte) :
    (o.write p bytes).ledger.matched = o.ledger.matched := by
  unfold Output.write
  split <;> rfl

theorem Inv.step {t : Output} (h : o.Inv) (hStep : Step o t) : t.Inv := by
  refine ⟨h.toWf.step hStep, fun hMatched => ?_⟩
  cases hStep with
  | write hNew hBytes =>
      rw [matched_write] at hMatched
      obtain ⟨done, pending, hOrdered⟩ := h.ordered hMatched
      exact ⟨_, _, hOrdered.write h.toWf hNew hBytes⟩
  | trap =>
      obtain ⟨hBefore, hOut⟩ := matched_trap o hMatched
      obtain ⟨done, pending, hOrdered⟩ := h.ordered hBefore
      exact hOrdered.trap h.toWf hOut
  | leave hFree =>
      obtain ⟨done, pending, hOrdered⟩ := h.ordered hMatched
      exact ⟨_, _, hOrdered.leave hFree⟩

/-- A terminal nothing was written to. -/
theorem inv_empty (h : o.owner = none) (hWriters : o.writers = []) (hWriting : ∀ p, ¬o.writing p)
    (hLedger : o.ledger = .empty) : o.Inv := by
  refine ⟨⟨fun _ => hWriters, fun p hp => ?_, ?_, fun p hp => absurd hp (hWriting p)⟩, fun _ => ?_⟩
  · simp [Output.blocked, h, hWriters] at hp
  · simp [Output.blocked, h, hWriters]
  · exact ⟨[], [], ⟨by simp [hLedger, Ledger.empty], by simp [hLedger, Ledger.empty], by simp,
      by simp [hLedger, Ledger.empty]⟩, by simp [Output.blocked, h, hWriters], by simp [hWriters],
      by simp [Progress, h, hLedger, Ledger.empty]⟩

end Output
end Yalnix
