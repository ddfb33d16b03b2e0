import Mathlib.Data.Set.Basic

/-! Slots that hold tokens of a pool. The tokens that are held are in use, and
no two slots hold the same one. Tokens may also be in use without being held. -/
namespace Ownership

variable {Slot Token : Type*} {holds after : Slot → Token → Prop} {used left : Set Token}

/-- The tokens that are held are in use, and each is held by one slot. -/
structure Sound (holds : Slot → Token → Prop) (used : Set Token) : Prop where
  marked : ∀ slot token, holds slot token → token ∈ used
  apart : ∀ a b token, holds a token → holds b token → a = b

namespace Sound

/-- Slots that hold less, out of a larger set of tokens in use. -/
theorem weaken (h : Sound holds used) (hLess : ∀ a token, after a token → holds a token) (hMore : used ⊆ left) :
    Sound after left where
  marked a token hHeld := hMore (h.marked a token (hLess a token hHeld))
  apart a b token ha hb := h.apart a b token (hLess a token ha) (hLess b token hb)

/-- Slots are given tokens that were not in use. -/
theorem take (h : Sound holds used) (fresh : Slot → Token → Prop) (hMore : used ⊆ left)
    (hAfter : ∀ a token, after a token → holds a token ∨ fresh a token)
    (hFresh : ∀ a token, fresh a token → token ∉ used ∧ token ∈ left)
    (hApart : ∀ a b token, fresh a token → fresh b token → a = b) : Sound after left where
  marked a token hHeld := by
    rcases hAfter a token hHeld with hOld | hNew
    · exact hMore (h.marked a token hOld)
    · exact (hFresh a token hNew).2
  apart a b token ha hb := by
    rcases hAfter a token ha with hOld | hNew <;> rcases hAfter b token hb with hOld' | hNew'
    · exact h.apart a b token hOld hOld'
    · exact absurd (h.marked a token hOld) (hFresh b token hNew').1
    · exact absurd (h.marked b token hOld') (hFresh a token hNew).1
    · exact hApart a b token hNew hNew'

/-- The slots in `gone` give their tokens back. -/
theorem release (h : Sound holds used) (gone : Slot → Prop)
    (hAfter : ∀ a token, after a token → holds a token ∧ ¬gone a)
    (hLeft : ∀ token ∈ used, (∀ a, gone a → ¬holds a token) → token ∈ left) : Sound after left where
  marked a token hHeld := by
    obtain ⟨hOld, hStays⟩ := hAfter a token hHeld
    refine hLeft token (h.marked a token hOld) fun b hGone hOther => hStays ?_
    rw [h.apart a b token hOld hOther]
    exact hGone
  apart a b token ha hb := h.apart a b token (hAfter a token ha).1 (hAfter b token hb).1

/-- Tokens move between slots, and no token is copied. -/
theorem move (h : Sound holds used) (source : Slot → Slot)
    (hAfter : ∀ a token, after a token → holds (source a) token)
    (hOnce : ∀ a b token, after a token → after b token → source a = source b → a = b) : Sound after used where
  marked a token hHeld := h.marked _ token (hAfter a token hHeld)
  apart a b token ha hb :=
    hOnce a b token ha hb (h.apart _ _ token (hAfter a token ha) (hAfter b token hb))

end Sound

/-- Tokens in use that no slot holds. -/
structure Aside (holds : Slot → Token → Prop) (used kept : Set Token) : Prop where
  marked : kept ⊆ used
  unheld : ∀ slot token, holds slot token → token ∉ kept

/-- They stay so when only tokens that a slot holds are given back, and every token
that a slot holds afterwards was held before or not in use. -/
theorem Aside.change {kept : Set Token} (h : Aside holds used kept)
    (hLeft : ∀ token ∈ used, (∀ slot, ¬holds slot token) → token ∈ left)
    (hAfter : ∀ slot token, after slot token → (∃ source, holds source token) ∨ token ∉ used) :
    Aside after left kept where
  marked token hKept := hLeft token (h.marked hKept) fun slot hHeld => h.unheld slot token hHeld hKept
  unheld slot token hHeld hKept := by
    rcases hAfter slot token hHeld with ⟨source, hOld⟩ | hNew
    · exact h.unheld source token hOld hKept
    · exact hNew (h.marked hKept)

end Ownership
