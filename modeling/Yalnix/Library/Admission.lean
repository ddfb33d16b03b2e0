import Mathlib.Data.List.Basic
import Mathlib.Logic.Function.Basic

/-! Callers who each ask for one unit of some resource, one after the other. A
caller is admitted while units of its resource are left, so for each resource
the first callers get in, as many as there are units. -/
namespace Admission

variable {α κ : Type*} [DecidableEq κ] (kind : α → κ)

/-- One unit of the resource is taken, if there is one. -/
def spend (free : κ → Nat) (k : κ) : κ → Nat := Function.update free k (free k - 1)

@[simp] theorem spend_self (free : κ → Nat) (k : κ) : spend free k k = free k - 1 := Function.update_self ..

theorem spend_of_ne (free : κ → Nat) {k l : κ} (h : l ≠ k) : spend free k l = free l :=
  Function.update_of_ne h ..

/-- The callers who are admitted. -/
def allot (free : κ → Nat) : List α → List α
  | [] => []
  | a :: rest =>
      if 0 < free (kind a) then a :: allot (spend free (kind a)) rest
      else allot (spend free (kind a)) rest

/-- For each resource the first callers are admitted. -/
theorem filter_allot (free : κ → Nat) (callers : List α) (k : κ) :
    (allot kind free callers).filter (kind · = k) = (callers.filter (kind · = k)).take (free k) := by
  induction callers generalizing free with
  | nil => simp [allot]
  | cons a rest ih =>
      have hRest := ih (spend free (kind a))
      by_cases hk : kind a = k
      · subst hk
        rw [spend_self] at hRest
        by_cases hFree : 0 < free (kind a)
        · obtain ⟨n, hn⟩ : ∃ n, free (kind a) = n + 1 := ⟨free (kind a) - 1, by omega⟩
          rw [hn, Nat.add_sub_cancel] at hRest
          simp [allot, hn, hRest]
        · have hNone : free (kind a) = 0 := by omega
          rw [hNone, Nat.zero_sub, List.take_zero] at hRest
          rw [allot, if_neg hFree, hNone, List.take_zero, hRest]
      · rw [spend_of_ne free (Ne.symm hk)] at hRest
        rw [List.filter_cons_of_neg (by simpa using hk), ← hRest, allot]
        split_ifs
        · rw [List.filter_cons_of_neg (by simpa using hk)]
        · rfl

/-- What is left when some callers have asked. -/
theorem foldl_spend (free : κ → Nat) (callers : List α) (k : κ) :
    callers.foldl (fun free a => spend free (kind a)) free k =
      free k - (callers.filter (kind · = k)).length := by
  induction callers generalizing free with
  | nil => rfl
  | cons a rest ih =>
      rw [List.foldl_cons, ih]
      by_cases hk : kind a = k
      · subst hk
        rw [spend_self, List.filter_cons_of_pos (by simp), List.length_cons]
        omega
      · rw [spend_of_ne free (Ne.symm hk), List.filter_cons_of_neg (by simpa using hk)]

end Admission
