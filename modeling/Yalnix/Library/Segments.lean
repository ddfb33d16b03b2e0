import Mathlib.Data.List.GetD
import Mathlib.Logic.Function.Basic
import Mathlib.Tactic.SplitIfs

/-! Contents of a linear address space: lists written at an address, and lists
found there. -/
namespace Segments

variable {α : Type*} {f g : Int → α} {a b : Int} {xs ys : List α}

/-- The contents after `xs` was written from `a` on. -/
def write (f : Int → α) (a : Int) (xs : List α) (x : Int) : α :=
  if a ≤ x then xs.getD (x - a).toNat (f x) else f x

/-- The list `xs` lies at the addresses from `a` on. -/
def Holds (f : Int → α) (a : Int) (xs : List α) : Prop :=
  ∀ i (h : i < xs.length), f (a + i) = xs[i]

@[simp] theorem write_nil : write f a [] = f := by
  funext x
  simp [write]

theorem write_cons (x : α) : write f a (x :: xs) = write (Function.update f a x) (a + 1) xs := by
  funext y
  unfold write
  by_cases hBelow : y < a
  · rw [if_neg (by omega), if_neg (by omega), Function.update_of_ne (by omega)]
  · by_cases hHere : y = a
    · rw [if_pos (by omega), if_neg (by omega), hHere, Function.update_self]
      simp
    · have hIndex : (y - a).toNat = (y - (a + 1)).toNat + 1 := by omega
      rw [if_pos (by omega), if_pos (by omega), hIndex, List.getD_cons_succ, Function.update_of_ne hHere]

theorem write_outside {x : Int} (h : x < a ∨ a + xs.length ≤ x) : write f a xs x = f x := by
  unfold write
  split_ifs with hLow
  · rw [List.getD_eq_default]
    omega
  · rfl

theorem holds_nil (f : Int → α) (a : Int) : Holds f a [] := fun i hi => absurd hi (by simp)

theorem holds_write : Holds (write f a xs) a xs := by
  intro i hi
  have hIndex : (a + i - a).toNat = i := by omega
  rw [write, if_pos (by omega), hIndex, List.getD_eq_getElem _ _ hi]

theorem Holds.congr (h : Holds f a xs) (hSame : ∀ x, a ≤ x → x < a + xs.length → g x = f x) :
    Holds g a xs := by
  intro i hi
  rw [hSame _ (by omega) (by omega)]
  exact h i hi

/-- A list stays where it is when something is written beside it. -/
theorem Holds.write (h : Holds f a xs) (hApart : b + ys.length ≤ a ∨ a + xs.length ≤ b) :
    Holds (write f b ys) a xs :=
  h.congr fun _ hLow hHigh => write_outside (by omega)

theorem holds_cons {x : α} : Holds f a (x :: xs) ↔ f a = x ∧ Holds f (a + 1) xs := by
  constructor
  · intro h
    have hFirst := h 0 (by simp)
    have hZero : a + ((0 : Nat) : Int) = a := by omega
    rw [hZero] at hFirst
    refine ⟨hFirst, fun i hi => ?_⟩
    have hIndex : a + 1 + (i : Int) = a + ((i + 1 : Nat) : Int) := by omega
    rw [hIndex]
    exact h (i + 1) (by simpa using hi)
  · rintro ⟨hFirst, hRest⟩ i hi
    cases i with
    | zero => simpa using hFirst
    | succ i =>
        have hIndex : a + ((i + 1 : Nat) : Int) = a + 1 + (i : Int) := by omega
        rw [hIndex]
        exact hRest i (by simpa using hi)

theorem holds_append : Holds f a (xs ++ ys) ↔ Holds f a xs ∧ Holds f (a + xs.length) ys := by
  induction xs generalizing a with
  | nil => simp [holds_nil]
  | cons x xs ih =>
      have hEnd : a + ((x :: xs).length : Int) = a + 1 + xs.length := by
        rw [List.length_cons]
        omega
      rw [List.cons_append, holds_cons, holds_cons, ih, hEnd, and_assoc]

theorem Holds.take (h : Holds f a xs) (n : Nat) : Holds f a (xs.take n) := by
  rw [← List.take_append_drop n xs, holds_append] at h
  exact h.1

end Segments
