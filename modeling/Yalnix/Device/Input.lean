import Yalnix.Process.Views
import Mathlib.Data.Finset.Card

/-! The input side of one terminal, apart from the kernel around it: received
lines are read in pieces, and every line wakes one blocked reader. -/
namespace Yalnix

/-- The bytes of a line that were not read. -/
def RxLine.rest (line : RxLine) : List Byte := line.buf.drop line.off

/-- How many bytes a read of length `len` takes from a line. -/
def RxLine.taken (line : RxLine) (len : Nat) : Nat :=
  if line.buf.length - line.off < len then line.buf.length - line.off else len

/-- A read of length `len` uses up the line. -/
def RxLine.usedUp (line : RxLine) (len : Nat) : Prop :=
  line.buf.length ≤ line.off + line.taken len

instance (line : RxLine) (len : Nat) : Decidable (line.usedUp len) :=
  inferInstanceAs (Decidable (_ ≤ _))

/-- The input side of a terminal. `inside` are the processes that have entered
a read and were not served yet, blocked or woken. -/
@[ext]
structure Input where
  readers : List Proc
  inside : Finset Proc
  lines : List RxLine
  received : List (List Byte)
  reads : List (List Byte)

namespace Input

/-- The readers that were taken off the queue and did not yet continue. -/
def woken (i : Input) : Finset Proc := i.inside.filter (· ∉ i.readers)

/-- A reader blocks. -/
def block (i : Input) (p : Proc) : Input :=
  { i with readers := i.readers ++ [p], inside := insert p i.inside }

/-- A line is received, and the first blocked reader is woken. -/
def deliver (i : Input) (line : List Byte) : Input :=
  { i with
    readers := i.readers.tail
    lines := i.lines ++ [⟨line, 0⟩]
    received := i.received ++ [line] }

/-- The lines after a read of length `len`, and the bytes read. -/
def consume : List RxLine → Nat → List RxLine × List Byte
  | [], _ => ([], [])
  | line :: rest, len =>
      (if line.usedUp len then rest else { line with off := line.off + line.taken len } :: rest,
        line.rest.take (line.taken len))

/-- A read that is served at once. -/
def read (i : Input) (len : Nat) : Input :=
  { i with
    lines := (consume i.lines len).1
    reads := i.reads ++ [(consume i.lines len).2] }

/-- The read of a woken process. -/
def resume (i : Input) (p : Proc) (len : Nat) : Input :=
  { i.read len with inside := i.inside.erase p }

/-- What can happen on the input side, reads apart. -/
inductive Arrival (i : Input) : Input → Prop where
  | block {p : Proc} (hp : p ∉ i.inside) (hEmpty : i.lines = []) : Arrival i (i.block p)
  | deliver (line : List Byte) : Arrival i (i.deliver line)

section Delivery

/-- The reads so far, split by the lines their bytes come from: those of lines
that are used up, and those of the first buffered line. -/
structure Split (i : Input) (done : List (List (List Byte))) (part : List (List Byte)) : Prop where
  reads : i.reads = done.flatten ++ part
  received : i.received = done.map List.flatten ++ i.lines.map RxLine.buf
  first : part.flatten = (i.lines.head?.map fun line => line.buf.take line.off).getD []
  later : ∀ line ∈ i.lines.tail, line.off = 0
  unread : ∀ line ∈ i.lines, line.off < line.buf.length ∨ line.off = 0 ∧ line.buf = []

variable {i : Input} {done : List (List (List Byte))} {part : List (List Byte)}

theorem Split.block {p : Proc} (h : i.Split done part) : (i.block p).Split done part :=
  ⟨h.reads, h.received, h.first, h.later, h.unread⟩

theorem Split.deliver {line : List Byte} (h : i.Split done part) : (i.deliver line).Split done part where
  reads := h.reads
  received := by simp [Input.deliver, h.received]
  first := by
    have hFirst := h.first
    cases hLines : i.lines with
    | nil => simpa [Input.deliver, hLines] using hFirst
    | cons head rest => simpa [Input.deliver, hLines] using hFirst
  later := by
    intro other hOther
    have hLater := h.later
    cases hLines : i.lines with
    | nil => simp [Input.deliver, hLines] at hOther
    | cons head rest =>
        simp only [Input.deliver, hLines, List.cons_append, List.tail_cons, List.mem_append,
          List.mem_singleton] at hOther
        rcases hOther with hOther | rfl
        · exact hLater other (by simpa [hLines] using hOther)
        · rfl
  unread := by
    intro other hOther
    simp only [Input.deliver, List.mem_append, List.mem_singleton] at hOther
    rcases hOther with hOther | rfl
    · exact h.unread other hOther
    · cases line with
      | nil => exact Or.inr ⟨rfl, rfl⟩
      | cons byte bytes => exact Or.inl (by simp)

/-- A read takes its bytes from one line. -/
theorem Split.read (h : i.Split done part) (len : Nat) :
    ∃ done part, (i.read len).Split done part := by
  have hFirst := h.first
  have hReceived := h.received
  have hLater := h.later
  have hUnread := h.unread
  cases hLines : i.lines with
  | nil =>
      refine ⟨done, part ++ [[]], ?_, ?_, ?_, ?_, ?_⟩
      · simp [Input.read, consume, hLines, h.reads]
      · simpa [Input.read, consume, hLines] using hReceived
      · simpa [Input.read, consume, hLines] using hFirst
      · simp [Input.read, consume, hLines]
      · simp [Input.read, consume, hLines]
  | cons line rest =>
      simp only [hLines, List.head?_cons, Option.map_some, Option.getD_some, List.tail_cons] at hFirst hLater
      have hPart : (part ++ [line.rest.take (line.taken len)]).flatten =
          line.buf.take (line.off + line.taken len) := by
        simp [hFirst, RxLine.rest, List.take_add]
      by_cases hUsed : line.usedUp len
      · -- the line is used up, so the pieces of it make up the whole line
        have hWhole : (part ++ [line.rest.take (line.taken len)]).flatten = line.buf := by
          rw [hPart, List.take_of_length_le hUsed]
        refine ⟨done ++ [part ++ [line.rest.take (line.taken len)]], [], ?_, ?_, ?_, ?_, ?_⟩
        · simp [Input.read, consume, hLines, h.reads]
        · rw [hLines, List.map_cons] at hReceived
          simp only [Input.read, consume, hLines, hUsed, if_true, List.map_append, List.map_cons,
            List.map_nil, hWhole, List.append_assoc, List.singleton_append]
          exact hReceived
        · simp only [Input.read, consume, hLines, hUsed, if_true]
          cases rest with
          | nil => rfl
          | cons next more => simp [hLater next (by simp)]
        · intro other hOther
          simp only [Input.read, consume, hLines, hUsed, if_true] at hOther
          exact hLater other (List.mem_of_mem_tail hOther)
        · intro other hOther
          simp only [Input.read, consume, hLines, hUsed, if_true] at hOther
          exact hUnread other (by simp [hLines, hOther])
      · refine ⟨done, part ++ [line.rest.take (line.taken len)], ?_, ?_, ?_, ?_, ?_⟩
        · simp [Input.read, consume, hLines, h.reads]
        · rw [hLines] at hReceived
          simpa [Input.read, consume, hLines, hUsed] using hReceived
        · simpa [Input.read, consume, hLines, hUsed] using hPart
        · simpa [Input.read, consume, hLines, hUsed] using hLater
        · intro other hOther
          simp only [Input.read, consume, hLines, hUsed, if_false, List.mem_cons] at hOther
          rcases hOther with rfl | hOther
          · exact Or.inl (Nat.not_le.mp hUsed)
          · exact hUnread other (by simp [hLines, hOther])

theorem Split.resume (h : i.Split done part) (p : Proc) (len : Nat) :
    ∃ done part, (i.resume p len).Split done part := by
  obtain ⟨done, part, hRead⟩ := h.read len
  exact ⟨done, part, hRead.reads, hRead.received, hRead.first, hRead.later, hRead.unread⟩

theorem Split.arrival {j : Input} (h : i.Split done part) (hArrival : Arrival i j) :
    j.Split done part := by
  cases hArrival with
  | block => exact h.block
  | deliver => exact h.deliver

/-- What was read, followed by what is buffered, is what was received. -/
theorem Split.delivered (h : i.Split done part) :
    i.reads.flatten ++ (i.lines.map RxLine.rest).flatten = i.received.flatten := by
  have hFirst := h.first
  have hLater := h.later
  have hReads : i.reads.flatten = (done.map List.flatten).flatten ++ part.flatten := by
    rw [h.reads, List.flatten_append, List.flatten_flatten]
  rw [hReads, h.received, List.flatten_append, List.append_assoc, List.append_cancel_left_eq]
  cases hLines : i.lines with
  | nil => simpa [hLines] using hFirst
  | cons line rest =>
      simp only [hLines, List.head?_cons, Option.map_some, Option.getD_some, List.tail_cons] at hFirst hLater
      have hRest : rest.map RxLine.rest = rest.map RxLine.buf :=
        List.map_congr_left fun other hOther => by simp [RxLine.rest, hLater other hOther]
      rw [hFirst, List.map_cons, List.map_cons, List.flatten_cons, List.flatten_cons, hRest,
        ← List.append_assoc, RxLine.rest, List.take_append_drop]

end Delivery

section Readers

/-- Blocked readers are inside their call and queue once. -/
structure Wf (i : Input) : Prop where
  nodup : i.readers.Nodup
  inside : ∀ p ∈ i.readers, p ∈ i.inside

variable {i : Input} {p : Proc} {len : Nat}

theorem Wf.block (h : i.Wf) (hp : p ∉ i.inside) : (i.block p).Wf where
  nodup := by
    refine List.nodup_append.mpr ⟨h.nodup, List.nodup_singleton p, fun q hq r hr => ?_⟩
    rw [List.mem_singleton.mp hr]
    rintro rfl
    exact hp (h.inside q hq)
  inside := by
    intro q hq
    rcases List.mem_append.mp hq with hq | hq
    · exact Finset.mem_insert_of_mem (h.inside q hq)
    · rw [List.mem_singleton.mp hq]
      exact Finset.mem_insert_self p _

theorem Wf.deliver (h : i.Wf) (line : List Byte) : (i.deliver line).Wf where
  nodup := h.nodup.sublist (List.tail_sublist _)
  inside p hp := h.inside p (List.mem_of_mem_tail hp)

theorem Wf.arrival {j : Input} (h : i.Wf) (hArrival : Arrival i j) : j.Wf := by
  cases hArrival with
  | block hp => exact h.block hp
  | deliver line => exact h.deliver line

theorem Wf.read (h : i.Wf) : (i.read len).Wf := ⟨h.nodup, h.inside⟩

theorem Wf.resume (h : i.Wf) (hp : p ∈ i.woken) : (i.resume p len).Wf where
  nodup := h.nodup
  inside := by
    intro q hq
    have hNe : q ≠ p := by
      rintro rfl
      exact (Finset.mem_filter.mp hp).2 hq
    exact Finset.mem_erase.mpr ⟨hNe, h.inside q hq⟩

theorem woken_block (hp : p ∉ i.inside) : (i.block p).woken = i.woken := by
  ext q
  by_cases hq : q = p
  · simp [woken, Input.block, hq, hp]
  · simp [woken, Input.block, hq]

theorem woken_resume : (i.resume p len).woken = i.woken.erase p := by
  ext q
  have hResume : (i.resume p len).woken = (i.inside.erase p).filter (· ∉ i.readers) := rfl
  rw [hResume, woken, Finset.mem_filter, Finset.mem_erase, Finset.mem_erase, Finset.mem_filter,
    and_assoc]

/-- A received line wakes the first blocked reader and nobody else. -/
theorem woken_deliver (h : i.Wf) (line : List Byte) :
    (i.readers = [] ∧ (i.deliver line).woken = i.woken) ∨
      ∃ p, p ∉ i.woken ∧ (i.deliver line).woken = insert p i.woken := by
  cases hReaders : i.readers with
  | nil =>
      refine Or.inl ⟨rfl, ?_⟩
      simp [woken, Input.deliver, hReaders]
  | cons p rest =>
      have hNodup := h.nodup
      have hInside := h.inside p (by simp [hReaders])
      rw [hReaders] at hNodup
      refine Or.inr ⟨p, by simp [woken, hReaders], ?_⟩
      ext q
      by_cases hq : q = p
      · subst hq
        simp [woken, Input.deliver, hReaders, hInside, (List.nodup_cons.mp hNodup).1]
      · simp [woken, Input.deliver, hReaders, hq]

end Readers

section Promises

/-- Every woken reader will find a line with unread bytes. -/
structure Promised (i : Input) : Prop where
  enough : i.woken.card ≤ i.lines.length
  unread : ∀ line ∈ i.lines, line.off < line.buf.length

/-- A read of length `len` uses up a line that the woken readers need. -/
def Overtakes (i : Input) (len : Nat) : Prop :=
  i.lines.length ≤ i.woken.card ∧ (consume i.lines len).1.length < i.lines.length

instance (i : Input) (len : Nat) : Decidable (i.Overtakes len) :=
  inferInstanceAs (Decidable (_ ∧ _))

variable {i j : Input} {p : Proc} {len : Nat}

theorem consume_cons (line : RxLine) (rest : List RxLine) (len : Nat) :
    consume (line :: rest) len =
      (if line.usedUp len then rest else { line with off := line.off + line.taken len } :: rest,
        line.rest.take (line.taken len)) := rfl

theorem length_consume (lines : List RxLine) (len : Nat) :
    lines.length ≤ (consume lines len).1.length + 1 := by
  cases lines with
  | nil => exact Nat.zero_le _
  | cons line rest =>
      rw [consume_cons]
      split_ifs
      · exact Nat.le_refl _
      · exact Nat.le_succ _

/-- A read leaves no line without unread bytes. -/
theorem unread_consume {lines : List RxLine} (h : ∀ line ∈ lines, line.off < line.buf.length) (len : Nat) :
    ∀ line ∈ (consume lines len).1, line.off < line.buf.length := by
  cases lines with
  | nil => exact h
  | cons line rest =>
      intro other hOther
      rw [consume_cons] at hOther
      split_ifs at hOther with hUsed
      · exact h other (by simp [hOther])
      · rcases List.mem_cons.mp hOther with rfl | hOther
        · exact Nat.not_le.mp hUsed
        · exact h other (by simp [hOther])

/-- A read from a line with unread bytes returns some of them. -/
theorem length_taken {lines : List RxLine} (h : ∀ line ∈ lines, line.off < line.buf.length)
    (hLines : lines ≠ []) (hLen : 0 < len) :
    1 ≤ (consume lines len).2.length ∧ (consume lines len).2.length ≤ len := by
  cases lines with
  | nil => exact absurd rfl hLines
  | cons line rest =>
      have hUnread := h line (by simp)
      simp only [consume_cons, RxLine.rest, RxLine.taken, List.length_take, List.length_drop]
      split_ifs <;> omega

theorem Promised.arrival (h : i.Promised) (hWf : i.Wf) (hArrival : Arrival i j)
    (hReceived : ∀ line ∈ j.received, line ≠ []) : j.Promised := by
  cases hArrival with
  | block hp hEmpty =>
      refine ⟨?_, h.unread⟩
      rw [woken_block hp]
      exact h.enough
  | deliver line =>
      refine ⟨?_, fun other hOther => ?_⟩
      · have hEnough := h.enough
        have hLength : (i.deliver line).lines.length = i.lines.length + 1 := by
          simp [Input.deliver]
        rcases woken_deliver hWf line with ⟨-, hSame⟩ | ⟨p, hp, hInsert⟩
        · rw [hSame]
          omega
        · rw [hInsert, Finset.card_insert_of_notMem hp]
          omega
      · rcases List.mem_append.mp hOther with hOther | hOther
        · exact h.unread other hOther
        · rw [List.mem_singleton.mp hOther]
          exact List.length_pos_iff.mpr (hReceived line (by simp [Input.deliver]))

theorem Promised.read (h : i.Promised) (hKept : ¬i.Overtakes len) : (i.read len).Promised := by
  refine ⟨?_, unread_consume h.unread len⟩
  have hEnough := h.enough
  have hLength := length_consume i.lines len
  have hSame : (i.read len).woken = i.woken := rfl
  have hLines : (i.read len).lines = (consume i.lines len).1 := rfl
  rw [hSame, hLines]
  by_cases hTight : i.lines.length ≤ i.woken.card
  · have hSame : i.lines.length ≤ (consume i.lines len).1.length :=
      Nat.not_lt.mp fun hLess => hKept ⟨hTight, hLess⟩
    exact hEnough.trans hSame
  · omega

theorem Promised.resume (h : i.Promised) (hp : p ∈ i.woken) : (i.resume p len).Promised := by
  refine ⟨?_, unread_consume h.unread len⟩
  have hEnough := h.enough
  have hLength := length_consume i.lines len
  have hLines : (i.resume p len).lines = (consume i.lines len).1 := rfl
  have hPos := Finset.card_pos.mpr ⟨p, hp⟩
  rw [woken_resume, Finset.card_erase_of_mem hp, hLines]
  omega

/-- A woken reader finds a line. -/
theorem Promised.lines_ne_nil (h : i.Promised) (hp : p ∈ i.woken) : i.lines ≠ [] := by
  intro hNil
  have hEnough := h.enough
  have hPos := Finset.card_pos.mpr ⟨p, hp⟩
  simp [hNil] at hEnough
  simp [hEnough] at hp

end Promises

section WakeUps

/-- While there is input, a blocked reader is not left alone. -/
def Attended (i : Input) : Prop := i.lines ≠ [] → i.readers ≠ [] → i.woken.Nonempty

/-- The read of `p` leaves input behind, some reader is blocked, and nobody but
`p` was woken. -/
def Strands (i : Input) (p : Proc) (len : Nat) : Prop :=
  (consume i.lines len).1 ≠ [] ∧ i.readers ≠ [] ∧ i.woken ⊆ {p}

instance (i : Input) (p : Proc) (len : Nat) : Decidable (i.Strands p len) := by
  have hLines : Decidable ((consume i.lines len).1 ≠ []) :=
    decidable_of_iff ((consume i.lines len).1.isEmpty = false) (by simp)
  exact inferInstanceAs (Decidable (_ ∧ _))

variable {i j : Input} {p : Proc} {len : Nat}

theorem Attended.arrival (hWf : i.Wf) (hArrival : Arrival i j) : j.Attended := by
  cases hArrival with
  | block hp hEmpty => exact fun hLines => absurd hEmpty hLines
  | deliver line =>
      intro hLines hReaders
      rcases woken_deliver hWf line with ⟨hNil, -⟩ | ⟨p, -, hInsert⟩
      · simp [Input.deliver, hNil] at hReaders
      · rw [hInsert]
        exact Finset.insert_nonempty p _

theorem Attended.read (h : i.Attended) : (i.read len).Attended := by
  intro hLines hReaders
  refine h ?_ hReaders
  intro hNil
  simp [Input.read, consume, hNil] at hLines

theorem Attended.resume (hKept : ¬i.Strands p len) : (i.resume p len).Attended := by
  intro hLines hReaders
  rw [woken_resume, Finset.nonempty_iff_ne_empty, ne_eq, Finset.erase_eq_empty_iff]
  intro hOnly
  refine hKept ⟨hLines, hReaders, ?_⟩
  rcases hOnly with hNone | hOnly
  · simp [hNone]
  · exact hOnly.le

end WakeUps

end Input
end Yalnix
