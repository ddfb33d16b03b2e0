import Yalnix.Process.Waiting
import Yalnix.Device.PipeHistory

/-! No lost wake-up on pipes. A reader only goes to sleep on an empty pipe, and
a write wakes all the readers before it returns. -/
namespace Yalnix

open Hardware

namespace Kernel

/-- Whoever waits to read from a pipe finds it empty. -/
def Drained (s : Kernel) : Prop :=
  ∀ id, ∀ p ∈ s.contents (.queue (.pipe id)), (s.pipes.entries id).len = 0

variable [Hardware] {s t : Kernel} {label : Label} {id : Nat} {p : Proc}

omit [Hardware] in
theorem len_of_view (h : t.pipeView = s.pipeView) (id : Nat) :
    (t.pipes.entries id).len = (s.pipes.entries id).len :=
  (congrArg Pipe.len (congrFun (congrArg PipeView.data h) id) :)

/-- A process that starts to wait for a pipe has found it empty. -/
theorem len_of_enters {buf : Word} {len : Nat} (h : Enters label s t p (.pipeRead id buf len)) :
    (s.pipes.entries id).len = 0 := by
  cases h with
  | block _ _ hParks _ _ =>
      cases hParks with
      | lock hKc => rcases hKc with hKc | hKc <;> cases hKc
      | pipe hPipe hEmpty _ =>
          obtain ⟨-, -, rfl⟩ := getPipe_eq_some.mp hPipe
          exact hEmpty

/-- A process that waits for a pipe did so before, or the pipe is empty. -/
theorem reader_effect (h : KernelStart.Sound s) (hEffect : Effect label s t)
    (hp : p ∈ t.contents (.queue (.pipe id))) :
    p ∈ s.contents (.queue (.pipe id)) ∨ (s.pipes.entries id).len = 0 := by
  obtain ⟨others, hOutcome⟩ := h.settled.effect h.contexts hEffect
  rw [hOutcome.settled.contents_eq] at hp
  refine (hOutcome.arrivals _ rfl p hp).imp_right fun hJoins => ?_
  cases hJoins with
  | block hEnters _ hAt =>
      obtain ⟨buf, len, rfl⟩ := hAt
      exact len_of_enters hEnters

/-- After a write nobody waits for the pipe. -/
theorem readers_pipeWrite {pipe grown : Pipe} {bytes : List Byte} {growOk : Bool} (h : KernelStart.Sound s)
    (hPipe : s.getPipe id = some pipe)
    (hGrown : pipe.ensureCapacity (pipe.len + bytes.length) growOk = some grown) :
    (((s.setPipe id (grown.appendBytes bytes)).emit (.pipeWritten id bytes)).wakeReaders
      id s.numPcbs).contents (.queue (.pipe id)) = [] := by
  obtain ⟨-, hUse, rfl⟩ := getPipe_eq_some.mp hPipe
  have hWritten := (h.settled.setPipe hUse ((Pipe.frame_appendBytes grown bytes).trans
    (Pipe.frame_ensureCapacity hGrown))).of_shape (shape_emit _ (e := .pipeWritten id bytes) rfl) rfl
  obtain ⟨others, (hInv : Inv (wakeReaders _ id _) others none), hFrame, hx, hHand⟩ :=
    hWritten.wakeReaders h.settled.hand s.numPcbs
  have hSettled := h.settled.of_inv hInv (cpu_wakeReaders _ _ _) hx hHand
  rw [hSettled.contents_eq, hFrame.calm _ rfl, Function.update_self]
  exact List.drop_of_length_le (h.settled.length_le _)

omit [Hardware] in
theorem len_update {entries : Nat → Pipe} {k : Nat} {pipe : Pipe} (id : Nat)
    (h : entries = Function.update s.pipes.entries k pipe) :
    (entries id).len = (s.pipes.entries id).len ∨ id = k ∧ entries id = pipe := by
  rw [h]
  by_cases hk : id = k
  · rw [hk, Function.update_self]
    exact Or.inr ⟨rfl, rfl⟩
  · rw [Function.update_of_ne hk]
    exact Or.inl rfl

/-- The length of a pipe after a call on some pipe: a creation or a reclaim
leaves an empty slot, a read needs data, and a write has woken everybody. -/
theorem len_pipeStep (h : KernelStart.Sound s) (hStep : PipeStep label s t) (id : Nat) :
    (t.pipes.entries id).len = (s.pipes.entries id).len ∨ (t.pipes.entries id).len = 0 ∨
      (s.pipes.entries id).len ≠ 0 ∨ t.contents (.queue (.pipe id)) = [] := by
  cases hStep with
  | @new growOk bufOk =>
      obtain ⟨-, hSome, hNone⟩ := h.settled.pipes.create .fresh rfl (Or.inr rfl) growOk bufOk
      have hPipes : (s.newPipe growOk bufOk).1.pipes =
          (s.pipes.create Pipe.inUse .blank .fresh s.pipes.size growOk bufOk).1 := by
        unfold newPipe
        dsimp only
        split <;> rfl
      rw [hPipes]
      cases hResult : (s.pipes.create Pipe.inUse .blank .fresh s.pipes.size growOk bufOk).2 with
      | none =>
          rcases hNone hResult with hSame | hClear
          · exact Or.inl (by rw [hSame])
          · refine (len_update id hClear).imp_right fun hFilled => Or.inl ?_
            rw [hFilled.2]
            rfl
      | some k =>
          refine (len_update id (hSome k hResult).2).imp_right fun hFilled => Or.inl ?_
          rw [hFilled.2]
          rfl
  | @reclaim k =>
      unfold pipeReclaim
      split
      · exact Or.inl rfl
      split_ifs
      · exact Or.inl rfl
      · refine (len_update id rfl).imp_right fun hCleared => Or.inl ?_
        exact congrArg Pipe.len hCleared.2
  | @read k len pipe hPipe hSome =>
      obtain ⟨-, -, rfl⟩ := getPipe_eq_some.mp hPipe
      refine (len_update id rfl).imp_right fun hRead => Or.inr (Or.inl ?_)
      rw [hRead.1]
      exact hSome
  | @write k pipe grown bytes growOk hPipe hGrown =>
      rw [len_of_view (pipeView_wakeReaders _ k s.numPcbs)]
      refine (len_update id rfl).imp_right fun hWritten => Or.inr (Or.inr ?_)
      rw [hWritten.1]
      exact readers_pipeWrite h hPipe hGrown

theorem Drained.effect (hDrained : s.Drained) (h : KernelStart.Sound s) (hEffect : Effect label s t) :
    t.Drained := by
  intro id p hp
  have hEmpty : (s.pipes.entries id).len = 0 := (reader_effect h hEffect hp).elim (hDrained id p) fun hLen => hLen
  rcases pipe_effect hEffect with hStep | hSame
  · rcases len_pipeStep h hStep id with hLen | hLen | hSome | hNil
    · exact hLen.trans hEmpty
    · exact hLen
    · exact absurd hEmpty hSome
    · rw [hNil] at hp
      cases hp
  · rw [len_of_view hSame]
    exact hEmpty

theorem Drained.read (hDrained : s.Drained) (h : KernelStart.Sound s) (id len : Nat) :
    (s.read id len).Drained := by
  intro k p hp
  rw [contents_read h] at hp
  rw [len_of_view (pipeView_read s id len)]
  exact hDrained k p hp

end Kernel

namespace KernelStart

theorem drained_reachable [Hardware] {s : Kernel} (run : system.Reachable s) : s.Drained :=
  invariant (I := Kernel.Drained)
    (fun uctxt early late _ _ hp => absurd hp (not_blocked_kernelStart uctxt early late rfl))
    (fun _ _ _ h hDrained hEffect => hDrained.effect h hEffect)
    (fun _ id len h hDrained => hDrained.read h id len) (fun _ _ _ hDrained _ _ => hDrained) run

/-- A pipe in use on which somebody waits holds no data, and nobody waits on a
slot that is not in use. -/
theorem pipe_wakeup [Hardware] {s : Kernel} (run : system.Reachable s) (id : Nat) :
    ((s.pipes.entries id).inUse = true → s.contents (.queue (.pipe id)) ≠ [] →
      (s.pipes.entries id).len = 0) ∧
    ((s.pipes.entries id).inUse = false → s.contents (.queue (.pipe id)) = []) := by
  refine ⟨fun _ hSome => ?_, (sound_reachable run).settled.pipe_unused id⟩
  obtain ⟨p, hp⟩ := List.exists_mem_of_ne_nil _ hSome
  exact drained_reachable run id p hp

open Sample in
/-- A reader that sleeps on a new pipe. -/
theorem pipe_wakeup_asleep : ∃ s : Kernel, system.Reachable s ∧
    (s.pipes.entries 0).inUse = true ∧ s.contents (.queue (.pipe 0)) = [1] ∧
    (s.pipes.entries 0).len = 0 := by
  obtain ⟨s, run, hUse, hReader⟩ := Transition.System.exists_reachable
    (P := fun s : Kernel => (s.pipes.entries 0).inUse = true ∧ s.contents (.queue (.pipe 0)) = [1])
    (turn ++ [call .pipeInit [208], call .pipeRead [Identifiers.createId Identifiers.pipeFlag 0, 208, 2]])
    initial_booted (by decide +kernel)
  exact ⟨s, run, hUse, hReader, (pipe_wakeup run 0).1 hUse (by simp [hReader])⟩

end KernelStart
end Yalnix
