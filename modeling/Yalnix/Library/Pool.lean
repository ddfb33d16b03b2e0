import Mathlib.Order.Bounds.Basic

/-! What a lowest-first allocator does. Its state is the set of numbers in use;
a request either succeeds and changes the membership of one number, or it fails
and changes nothing. -/
namespace Pool

universe u

variable {α : Type u}

/-- The calls of an allocator. -/
inductive Request (α : Type u) where
  | find
  | acquire (a : α)
  | free (a : α)

/-- What a call returns. -/
inductive Answer (α : Type u) where
  | found (a : Option α)
  | done (ok : Bool)

/-- The answers an allocator of the numbers in `range` may give while those in
`used` are taken, and what is taken afterwards. -/
inductive Serves [Preorder α] (range used : Set α) : Request α → Answer α → Set α → Prop where
  | exhausted (hFull : range ⊆ used) : Serves range used .find (.found none) used
  | found {a : α} (hLeast : IsLeast (range \ used) a) :
      Serves range used .find (.found (some a)) (insert a used)
  | acquired {a : α} (hFree : a ∉ used) : Serves range used (.acquire a) (.done true) (insert a used)
  | refused {a : α} (hUsed : a ∈ used) : Serves range used (.acquire a) (.done false) used
  | freed {a : α} (hRange : a ∈ range) (hUsed : a ∈ used) :
      Serves range used (.free a) (.done true) (used \ {a})
  | kept {a : α} (hNone : a ∈ range → a ∉ used) : Serves range used (.free a) (.done false) used

namespace Serves

variable [Preorder α] {range used after : Set α} {a : α} {ok : Bool}

/-- A search fails exactly when everything is taken. -/
theorem find_none_iff {answer : Option α} (h : Serves range used .find (.found answer) after) :
    answer = none ↔ range ⊆ used := by
  cases h with
  | exhausted hFull => simp [hFull]
  | found hLeast =>
      obtain ⟨⟨hRange, hFree⟩, -⟩ := hLeast
      simp only [reduceCtorEq, false_iff]
      exact fun hFull => hFree (hFull hRange)

theorem find_none (h : Serves range used .find (.found none) after) : after = used := by
  cases h
  rfl

theorem find_some (h : Serves range used .find (.found (some a)) after) :
    IsLeast (range \ used) a ∧ after = insert a used := by
  cases h with
  | found hLeast => exact ⟨hLeast, rfl⟩

theorem acquire (h : Serves range used (.acquire a) (.done ok) after) :
    (ok = true ↔ a ∉ used) ∧ after = if ok then insert a used else used := by
  cases h with
  | acquired hFree => simp [hFree]
  | refused hUsed => simp [hUsed]

theorem free (h : Serves range used (.free a) (.done ok) after) :
    (ok = true ↔ a ∈ range ∧ a ∈ used) ∧ after = if ok then used \ {a} else used := by
  cases h with
  | freed hRange hUsed => simp [hRange, hUsed]
  | kept hNone => simpa using hNone

end Serves
end Pool
