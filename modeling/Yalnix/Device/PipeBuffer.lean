import Yalnix.Library.RingBuffer
import Yalnix.Pipe

/-! The buffer of a pipe is a queue of bytes: each of the three functions on it
does to the contents what the corresponding list operation does. -/
namespace Yalnix.Pipe

variable {pipe : Pipe}

/-- The unread bytes, oldest first. -/
def contents (pipe : Pipe) : List Byte := RingBuffer.window pipe.buf pipe.cap pipe.head pipe.len

/-- The representation invariant of the ring buffer. -/
structure Wf (pipe : Pipe) : Prop where
  cap_pos : 0 < pipe.cap
  head_lt : pipe.head < pipe.cap
  len_le : pipe.len ≤ pipe.cap

/-- The fields the buffer functions leave alone. -/
def frame (pipe : Pipe) : Bool × IntrusiveQueue.Ends Proc := (pipe.inUse, pipe.readers)

@[simp] theorem length_contents (pipe : Pipe) : pipe.contents.length = pipe.len := by simp [contents]

theorem wf_fresh [Hardware] : (fresh : Pipe).Wf :=
  ⟨Hardware.pipeBufferLen_pos, Hardware.pipeBufferLen_pos, Nat.zero_le _⟩

@[simp] theorem contents_fresh [Hardware] : (fresh : Pipe).contents = [] := rfl

section EnsureCapacity

/-- The loop doubles often enough. -/
theorem le_doubled (needed fuel : Nat) {cap : Nat} (hCap : 0 < cap) (hFuel : needed ≤ cap + fuel) :
    needed ≤ doubled needed fuel cap ∧ cap ≤ doubled needed fuel cap := by
  induction fuel generalizing cap with
  | zero => exact ⟨by simpa [doubled] using hFuel, Nat.le_refl _⟩
  | succ fuel ih =>
      unfold doubled
      split_ifs with hSmall
      · obtain ⟨hNeeded, hGrown⟩ := @ih (cap * 2) (by omega) (by omega)
        exact ⟨hNeeded, by omega⟩
      · exact ⟨Nat.not_lt.mp hSmall, Nat.le_refl _⟩

/-- The copy loop writes each of the first `n` cells once. -/
theorem foldl_update_range (f : Nat → Byte) (buf : Nat → Byte) (n i : Nat) :
    (List.range n).foldl (fun buf i => Function.update buf i (f i)) buf i =
      if i < n then f i else buf i := by
  induction n with
  | zero => rfl
  | succ n ih =>
      rw [List.range_succ, List.foldl_append]
      simp only [List.foldl_cons, List.foldl_nil]
      by_cases hi : i = n
      · subst hi
        simp
      · rw [Function.update_of_ne hi, ih]
        have hLt : i < n + 1 ↔ i < n := by omega
        simp [hLt]

theorem frame_ensureCapacity {grown : Pipe} {needed : Nat} {growOk : Bool}
    (hGrown : pipe.ensureCapacity needed growOk = some grown) : grown.frame = pipe.frame := by
  unfold ensureCapacity at hGrown
  split_ifs at hGrown <;> obtain rfl := Option.some.inj hGrown <;> rfl

theorem ensureCapacity_spec {grown : Pipe} {needed : Nat} {growOk : Bool} (h : pipe.Wf)
    (hGrown : pipe.ensureCapacity needed growOk = some grown) :
    grown.Wf ∧ grown.contents = pipe.contents ∧ needed ≤ grown.cap ∧ grown.len = pipe.len := by
  unfold ensureCapacity at hGrown
  split_ifs at hGrown with hRoom hFail
  · obtain rfl := Option.some.inj hGrown
    exact ⟨h, rfl, hRoom, rfl⟩
  · obtain rfl := Option.some.inj hGrown
    obtain ⟨hNeeded, hCap⟩ := le_doubled needed needed h.cap_pos (by omega)
    have hPos := h.cap_pos
    have hLen := h.len_le
    refine ⟨⟨by dsimp only; omega, by dsimp only; omega, by dsimp only; omega⟩, ?_, hNeeded, rfl⟩
    refine RingBuffer.window_front (by dsimp only; omega) fun i hi => ?_
    simp [foldl_update_range, hi]

end EnsureCapacity

theorem appendBytes_spec (h : pipe.Wf) (bytes : List Byte)
    (hRoom : pipe.len + bytes.length ≤ pipe.cap) :
    (pipe.appendBytes bytes).Wf ∧ (pipe.appendBytes bytes).contents = pipe.contents ++ bytes := by
  induction bytes generalizing pipe with
  | nil => exact ⟨h, by simp [appendBytes]⟩
  | cons byte rest ih =>
      rw [List.length_cons] at hRoom
      have hPushed : ({ pipe with
          buf := Function.update pipe.buf ((pipe.head + pipe.len) % pipe.cap) byte
          len := pipe.len + 1 } : Pipe).Wf :=
        ⟨h.cap_pos, h.head_lt, by dsimp only; omega⟩
      obtain ⟨hWf, hContents⟩ := ih hPushed (by dsimp only; omega)
      refine ⟨hWf, ?_⟩
      rw [appendBytes, hContents, contents, RingBuffer.window_push (by omega)]
      simp [contents]

@[simp] theorem frame_appendBytes (pipe : Pipe) (bytes : List Byte) :
    (pipe.appendBytes bytes).frame = pipe.frame := by
  induction bytes generalizing pipe with
  | nil => rfl
  | cons byte rest ih =>
      rw [appendBytes, ih]
      rfl

/-- The loop of `read_bytes` moves the head over what it copies out. -/
theorem takeBytes_spec (pipe : Pipe) (hHead : pipe.head < pipe.cap) (count rest : Nat) :
    (pipe.takeBytes count).1.head < pipe.cap ∧
      (pipe.takeBytes count).1 = { pipe with head := (pipe.takeBytes count).1.head } ∧
      (pipe.takeBytes count).2.length = count ∧
      (pipe.takeBytes count).2 ++
        RingBuffer.window pipe.buf pipe.cap (pipe.takeBytes count).1.head rest =
          RingBuffer.window pipe.buf pipe.cap pipe.head (count + rest) := by
  induction count generalizing pipe with
  | zero => exact ⟨hHead, rfl, rfl, by simp [takeBytes]⟩
  | succ count ih =>
      obtain ⟨hLt, hSame, hLength, hWindow⟩ := ih { pipe with head := (pipe.head + 1) % pipe.cap }
        (Nat.mod_lt _ (Nat.zero_lt_of_lt hHead))
      refine ⟨hLt, ?_, ?_, ?_⟩
      · exact hSame
      · simp [takeBytes, hLength]
      · rw [show count + 1 + rest = count + rest + 1 by omega, RingBuffer.window_pop hHead, ← hWindow]
        simp [takeBytes]

@[simp] theorem frame_takeBytes (pipe : Pipe) (count : Nat) :
    (pipe.takeBytes count).1.frame = pipe.frame := by
  induction count generalizing pipe with
  | zero => rfl
  | succ count ih =>
      rw [takeBytes, ih]
      rfl

@[simp] theorem frame_readBytes (pipe : Pipe) (len : Nat) :
    (pipe.readBytes len).1.frame = pipe.frame :=
  (frame_takeBytes pipe (if pipe.len < len then pipe.len else len) :)

/-- `read_bytes` takes the oldest bytes. -/
theorem readBytes_spec (h : pipe.Wf) (len : Nat) :
    (pipe.readBytes len).1.Wf ∧ (pipe.readBytes len).2 = pipe.contents.take len ∧
      (pipe.readBytes len).1.contents = pipe.contents.drop len := by
  unfold readBytes
  dsimp only
  generalize hCount : (if pipe.len < len then pipe.len else len) = count
  have hMin : count = min len pipe.len := by split_ifs at hCount <;> omega
  have hLen : count + (pipe.len - count) = pipe.len := by omega
  obtain ⟨hLt, hSame, hLength, hWindow⟩ := pipe.takeBytes_spec h.head_lt count (pipe.len - count)
  rw [hLen] at hWindow
  generalize pipe.takeBytes count = taken at hLt hSame hLength hWindow ⊢
  generalize taken.1.head = head at hLt hSame hWindow ⊢
  have hTake : taken.2 = pipe.contents.take count := by
    rw [contents, ← hWindow, List.take_left' hLength]
  have hDrop : RingBuffer.window pipe.buf pipe.cap head (pipe.len - count) =
      pipe.contents.drop count := by
    rw [contents, ← hWindow, List.drop_left' hLength]
  have hTakeLen : pipe.contents.take count = pipe.contents.take len :=
    List.take_eq_take_iff.mpr (by rw [length_contents]; omega)
  have hDropLen : pipe.contents.drop count = pipe.contents.drop len := by
    rw [hMin, ← length_contents pipe, ← List.drop_eq_drop_min]
  have hRest := h.len_le
  refine ⟨?_, hTake.trans hTakeLen, ?_⟩
  · rw [hSame]
    refine ⟨h.cap_pos, ?_, ?_⟩
    · dsimp only
      split_ifs
      · exact h.cap_pos
      · exact hLt
    · dsimp only
      omega
  · rw [← hDropLen, ← hDrop, hSame]
    unfold contents
    dsimp only
    split_ifs with hEmpty
    · rw [hEmpty, RingBuffer.window_zero, RingBuffer.window_zero]
    · rfl

end Yalnix.Pipe
