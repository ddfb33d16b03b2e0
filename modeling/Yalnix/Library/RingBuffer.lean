import Mathlib.Data.List.Range
import Mathlib.Data.Nat.ModEq
import Mathlib.Logic.Function.Basic

/-! The contents of a ring buffer: a window of a circular array that starts at
`head` and wraps around at `cap`. -/
namespace RingBuffer

variable {α : Type*}

/-- The `len` cells from `head` on, in order. -/
def window (buf : Nat → α) (cap head len : Nat) : List α :=
  (List.range len).map fun i => buf ((head + i) % cap)

variable {buf : Nat → α} {cap head len : Nat}

@[simp] theorem length_window : (window buf cap head len).length = len := by simp [window]

@[simp] theorem window_zero : window buf cap head 0 = [] := rfl

theorem window_congr {buf' : Nat → α} {cap' head' : Nat}
    (hSame : ∀ i < len, buf' ((head' + i) % cap') = buf ((head + i) % cap)) :
    window buf' cap' head' len = window buf cap head len := by
  refine List.map_congr_left fun i hi => ?_
  exact hSame i (List.mem_range.mp hi)

/-- Two cells of a window that does not overlap itself are different. -/
theorem slot_ne {i : Nat} (hi : i < len) (hLen : len < cap) : (head + i) % cap ≠ (head + len) % cap := by
  intro hSame
  have hMod : i % cap = len % cap := Nat.ModEq.add_left_cancel' head hSame
  rw [Nat.mod_eq_of_lt (by omega), Nat.mod_eq_of_lt hLen] at hMod
  omega

/-- Writing behind the window extends it. -/
theorem window_push (hLen : len < cap) (x : α) :
    window (Function.update buf ((head + len) % cap) x) cap head (len + 1) =
      window buf cap head len ++ [x] := by
  have hOld : window (Function.update buf ((head + len) % cap) x) cap head len =
      window buf cap head len :=
    window_congr fun i hi => Function.update_of_ne (slot_ne hi hLen) _ _
  rw [← hOld]
  simp [window, List.range_succ]

/-- Moving the head drops the first cell. -/
theorem window_pop (hHead : head < cap) :
    window buf cap head (len + 1) = buf head :: window buf cap ((head + 1) % cap) len := by
  simp only [window, List.range_succ_eq_map, List.map_cons, List.map_map, Nat.add_zero,
    Nat.mod_eq_of_lt hHead]
  congr 1
  refine List.map_congr_left fun i _ => ?_
  simp only [Function.comp_apply, Nat.mod_add_mod]
  congr 2
  omega

/-- A copy of the window at the front of another array. -/
theorem window_front {buf' : Nat → α} {cap' : Nat} (hCap : len ≤ cap')
    (hCopy : ∀ i < len, buf' i = buf ((head + i) % cap)) :
    window buf' cap' 0 len = window buf cap head len := by
  refine window_congr fun i hi => ?_
  rw [Nat.zero_add, Nat.mod_eq_of_lt (by omega)]
  exact hCopy i hi

end RingBuffer
