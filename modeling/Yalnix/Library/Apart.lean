import Yalnix.Library.IntrusiveQueue
import Mathlib.Data.List.Perm.Basic

/-! Members distributed over places, each member in at most one place and at
most once there. Moving a member is the only change that keeps the set of
placed members as it is. -/
namespace Apart

open IntrusiveQueue

variable {α : Type*} {ι : Type*}

/-- No member occurs twice, within a place or in two different places. -/
structure Placed (lists : ι → List α) : Prop where
  nodup : ∀ i, (lists i).Nodup
  unique : ∀ {i j : ι} {x : α}, x ∈ lists i → x ∈ lists j → i = j

variable {lists : ι → List α} {i j : ι} {x y : α} {rest joined : List α}

theorem Placed.not_mem_of_ne (h : Placed lists) (hMem : x ∈ lists i) (hNe : j ≠ i) :
    x ∉ lists j :=
  fun hOther => hNe (h.unique hOther hMem)

variable [DecidableEq ι]

/-- Take one member out of place `i` and put it into place `j`. -/
def move (lists : ι → List α) (i j : ι) (rest joined : List α) : ι → List α :=
  Function.update (Function.update lists i rest) j joined

@[simp] theorem move_target : move lists i j rest joined j = joined := by simp [move]

theorem move_source (hNe : i ≠ j) : move lists i j rest joined i = rest := by
  simp [move, Function.update_of_ne hNe]

theorem move_other {k : ι} (hSource : k ≠ i) (hTarget : k ≠ j) :
    move lists i j rest joined k = lists k := by
  simp [move, Function.update_of_ne hSource, Function.update_of_ne hTarget]

/-- After a move, a member is placed where it was, or it is the moved one and
is in the target place. -/
theorem mem_move_iff (h : Placed lists) (hNe : i ≠ j) (hSource : (lists i).Perm (x :: rest))
    (hTarget : joined.Perm (x :: lists j)) (k : ι) :
    y ∈ move lists i j rest joined k ↔ (y ≠ x ∧ y ∈ lists k) ∨ (y = x ∧ k = j) := by
  have hNodup : (x :: rest).Nodup := hSource.nodup_iff.mp (h.nodup i)
  have hx : x ∈ lists i := hSource.mem_iff.mpr (by simp)
  by_cases hk : k = j
  · subst hk
    have hy : x ∉ lists k := h.not_mem_of_ne hx (Ne.symm hNe)
    rw [move_target, hTarget.mem_iff, List.mem_cons]
    by_cases he : y = x
    · simp [he]
    · simp [he]
  · by_cases hi : k = i
    · subst hi
      rw [move_source hNe, hSource.mem_iff, List.mem_cons]
      have hy : x ∉ rest := (List.nodup_cons.mp hNodup).1
      by_cases he : y = x
      · subst he
        simp [hy, hk]
      · simp [he]
    · rw [move_other hi hk]
      have hy : x ∉ lists k := h.not_mem_of_ne hx hi
      by_cases he : y = x
      · subst he
        simp [hy, hk]
      · simp [he]

theorem Placed.move (h : Placed lists) (hNe : i ≠ j) (hSource : (lists i).Perm (x :: rest))
    (hTarget : joined.Perm (x :: lists j)) : Placed (move lists i j rest joined) where
  nodup k := by
    have hx : x ∈ lists i := hSource.mem_iff.mpr (by simp)
    by_cases hk : k = j
    · subst hk
      rw [move_target, hTarget.nodup_iff, List.nodup_cons]
      exact ⟨h.not_mem_of_ne hx (Ne.symm hNe), h.nodup k⟩
    · by_cases hi : k = i
      · subst hi
        rw [move_source hNe]
        exact (List.nodup_cons.mp (hSource.nodup_iff.mp (h.nodup k))).2
      · rw [move_other hi hk]
        exact h.nodup k
  unique {k l y} hk hl := by
    rw [mem_move_iff h hNe hSource hTarget] at hk hl
    rcases hk with ⟨hy, hk⟩ | ⟨hy, rfl⟩ <;> rcases hl with ⟨hy', hl⟩ | ⟨hy', rfl⟩
    · exact h.unique hk hl
    · exact absurd hy' hy
    · exact absurd hy hy'
    · rfl

/-- A move neither adds nor loses a member. -/
theorem exists_mem_move (h : Placed lists) (hNe : i ≠ j) (hSource : (lists i).Perm (x :: rest))
    (hTarget : joined.Perm (x :: lists j)) :
    (∃ k, y ∈ Apart.move lists i j rest joined k) ↔ ∃ k, y ∈ lists k := by
  have hx : x ∈ lists i := hSource.mem_iff.mpr (by simp)
  constructor
  · rintro ⟨k, hk⟩
    rcases (mem_move_iff h hNe hSource hTarget k).mp hk with ⟨-, hk⟩ | ⟨rfl, -⟩
    · exact ⟨k, hk⟩
    · exact ⟨i, hx⟩
  · rintro ⟨k, hk⟩
    by_cases he : y = x
    · exact ⟨j, (mem_move_iff h hNe hSource hTarget j).mpr (Or.inr ⟨he, rfl⟩)⟩
    · exact ⟨k, (mem_move_iff h hNe hSource hTarget k).mpr (Or.inl ⟨he, hk⟩)⟩

/-- Place a member that is nowhere yet. -/
theorem Placed.add (h : Placed lists) (hFresh : ∀ k, x ∉ lists k)
    (hTarget : joined.Perm (x :: lists j)) : Placed (Function.update lists j joined) where
  nodup k := by
    by_cases hk : k = j
    · subst hk
      rw [Function.update_self, hTarget.nodup_iff, List.nodup_cons]
      exact ⟨hFresh k, h.nodup k⟩
    · rw [Function.update_of_ne hk]
      exact h.nodup k
  unique {k l y} hk hl := by
    have hCases : ∀ m, y ∈ Function.update lists j joined m → y ∈ lists m ∨ (y = x ∧ m = j) := by
      intro m hm
      by_cases he : m = j
      · subst he
        rw [Function.update_self, hTarget.mem_iff, List.mem_cons] at hm
        exact hm.symm.imp id fun hy => ⟨hy, rfl⟩
      · rw [Function.update_of_ne he] at hm
        exact Or.inl hm
    rcases hCases k hk with hOld | ⟨hy, hkj⟩ <;> rcases hCases l hl with hOld' | ⟨hy', hlj⟩
    · exact h.unique hOld hOld'
    · exact absurd (hy' ▸ hOld) (hFresh k)
    · exact absurd (hy ▸ hOld') (hFresh l)
    · exact hkj.trans hlj.symm

theorem Placed.mem_remove (h : Placed lists) (hSource : (lists i).Perm (x :: rest)) (k : ι) (y : α) :
    y ∈ Function.update lists i rest k ↔ y ≠ x ∧ y ∈ lists k := by
  have hNodup : (x :: rest).Nodup := hSource.nodup_iff.mp (h.nodup i)
  have hx : x ∈ lists i := hSource.mem_iff.mpr (by simp)
  by_cases hk : k = i
  · subst hk
    rw [Function.update_self, hSource.mem_iff, List.mem_cons]
    have hy : x ∉ rest := (List.nodup_cons.mp hNodup).1
    by_cases he : y = x
    · subst he
      simp [hy]
    · simp [he]
  · rw [Function.update_of_ne hk]
    have hy : x ∉ lists k := h.not_mem_of_ne hx hk
    by_cases he : y = x
    · subst he
      simp [hy]
    · simp [he]

/-- Take a member out of the system. -/
theorem Placed.remove (h : Placed lists) (hSource : (lists i).Perm (x :: rest)) :
    Placed (Function.update lists i rest) ∧
      ∀ y, (∃ k, y ∈ Function.update lists i rest k) ↔ y ≠ x ∧ ∃ k, y ∈ lists k := by
  have hNodup : (x :: rest).Nodup := hSource.nodup_iff.mp (h.nodup i)
  have hMem := h.mem_remove hSource
  refine ⟨⟨fun k => ?_, fun {k l y} hk hl => ?_⟩, fun y => ?_⟩
  · by_cases hk : k = i
    · subst hk
      rw [Function.update_self]
      exact (List.nodup_cons.mp hNodup).2
    · rw [Function.update_of_ne hk]
      exact h.nodup k
  · exact h.unique ((hMem k y).mp hk).2 ((hMem l y).mp hl).2
  · simp only [hMem, exists_and_left]

/-- Empty one list. -/
theorem Placed.clear (h : Placed lists) (i : ι) : Placed (Function.update lists i []) where
  nodup k := by
    by_cases hk : k = i
    · subst hk
      simp
    · rw [Function.update_of_ne hk]
      exact h.nodup k
  unique {k l y} hk hl := by
    have hOld {m : ι} (hm : y ∈ Function.update lists i [] m) : y ∈ lists m := by
      by_cases he : m = i
      · subst he
        simp at hm
      · rwa [Function.update_of_ne he] at hm
    exact h.unique (hOld hk) (hOld hl)

section Queues

variable [DecidableEq α] {next : α → Option α} {ends : ι → Ends α}

/-- All headers represent their lists over the one shared `next` map. -/
def Linked (next : α → Option α) (ends : ι → Ends α) (lists : ι → List α) : Prop :=
  ∀ i, IsQueue next (ends i) (lists i)

/-- Appending a node that is in no queue leaves every other queue intact. -/
theorem Linked.push (h : Linked next ends lists) (hPlaced : Placed lists)
    (hFresh : ∀ k, x ∉ lists k) :
    Linked (push next (ends i) x).1 (Function.update ends i (push next (ends i) x).2)
      (Function.update lists i (lists i ++ [x])) := by
  intro k
  by_cases hk : k = i
  · subst hk
    simpa using (h k).push (hPlaced.nodup k) (hFresh k)
  · rw [Function.update_of_ne hk, Function.update_of_ne hk]
    refine (h k).congr fun node hNode => push_next_of_ne ?_ ?_
    · rintro rfl
      exact hFresh k hNode
    · intro hLast
      rw [(h i).2] at hLast
      exact hk (hPlaced.unique hNode (List.mem_of_getLast? hLast))

theorem Linked.pop (h : Linked next ends lists) (hPlaced : Placed lists)
    (hHead : lists i = x :: rest) :
    Linked (pop next (ends i)).2.1 (Function.update ends i (pop next (ends i)).2.2)
      (Function.update lists i rest) := by
  intro k
  have hQueue := h i
  rw [hHead] at hQueue
  by_cases hk : k = i
  · subst hk
    simpa using hQueue.pop (hHead ▸ hPlaced.nodup k)
  · rw [Function.update_of_ne hk, Function.update_of_ne hk]
    refine (h k).congr fun node hNode => pop_next_of_ne ?_
    rw [hQueue.first_eq]
    rintro ⟨⟩
    exact hk (hPlaced.unique hNode (by simp [hHead]))

theorem Linked.unlink {front back : List α} (h : Linked next ends lists)
    (hPlaced : Placed lists) (hSplit : lists i = front ++ x :: back) :
    Linked (unlink next (ends i) front.getLast? x).1
      (Function.update ends i (unlink next (ends i) front.getLast? x).2)
      (Function.update lists i (front ++ back)) := by
  intro k
  have hQueue := h i
  rw [hSplit] at hQueue
  by_cases hk : k = i
  · subst hk
    simpa using hQueue.unlink (hSplit ▸ hPlaced.nodup k)
  · rw [Function.update_of_ne hk, Function.update_of_ne hk]
    refine (h k).congr fun node hNode => unlink_next_of_ne ?_ ?_
    · rintro rfl
      exact hk (hPlaced.unique hNode (by simp [hSplit]))
    · intro hPrev
      exact hk (hPlaced.unique hNode (by simp [hSplit, List.mem_of_getLast? hPrev]))

end Queues
end Apart
