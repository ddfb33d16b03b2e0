import Mathlib.Order.Lattice
import Mathlib.Logic.Equiv.Basic

/-! The order of a binary heap. A heap is given by the keys of its slots, so that
the lemmas apply to whatever holds the elements. -/
namespace MinHeap

variable {α : Type} [LinearOrder α] {f g : Nat → α} {n i c : Nat}

def parent (i : Nat) : Nat := (i - 1) / 2

theorem parent_lt (h : 0 < i) : parent i < i := by
  unfold parent
  omega

theorem parent_eq_iff (h : 0 < c) : parent c = i ↔ c = 2 * i + 1 ∨ c = 2 * i + 2 := by
  unfold parent
  omega

/-- No slot has a smaller key than its parent. -/
def Ordered (f : Nat → α) (n : Nat) : Prop := ∀ j, 0 < j → j < n → f (parent j) ≤ f j

/-- The key of slot `i` may be too small for its place. -/
structure Rising (f : Nat → α) (n i : Nat) : Prop where
  order : ∀ j, 0 < j → j < n → j ≠ i → f (parent j) ≤ f j
  across : 0 < i → ∀ j, 0 < j → j < n → parent j = i → f (parent i) ≤ f j

/-- The key of slot `i` may be too large for its place. -/
structure Sinking (f : Nat → α) (n i : Nat) : Prop where
  order : ∀ j, 0 < j → j < n → parent j ≠ i → f (parent j) ≤ f j
  across : 0 < i → ∀ j, 0 < j → j < n → parent j = i → f (parent i) ≤ f j

/-- The root has the least key. -/
theorem Ordered.root_le (h : Ordered f n) (i : Nat) (hi : i < n) : f 0 ≤ f i := by
  induction i using Nat.strongRecOn with
  | ind i ih =>
      cases i with
      | zero => exact le_refl _
      | succ k =>
          have hLt := parent_lt k.succ_pos
          exact le_trans (ih _ hLt (Nat.lt_trans hLt hi)) (h _ k.succ_pos hi)

theorem Ordered.congr (h : Ordered f n) (hSame : ∀ j, j < n → g j = f j) : Ordered g n := by
  intro j hPos hj
  rw [hSame j hj, hSame _ (Nat.lt_trans (parent_lt hPos) hj)]
  exact h j hPos hj

/-- A new slot at the end. -/
theorem Ordered.push (h : Ordered f n) (hSame : ∀ j, j < n → g j = f j) : Rising g (n + 1) n where
  order j hPos hj hNe := by
    have hLt : j < n := Nat.lt_of_le_of_ne (Nat.le_of_lt_succ hj) hNe
    exact h.congr hSame j hPos hLt
  across _ j hPos hj hParent := by
    have hLt := parent_lt hPos
    omega

/-- The last slot is gone and the root has another key. -/
theorem Ordered.pop (h : Ordered f (n + 1)) (hSame : ∀ j, 0 < j → j < n → g j = f j) : Sinking g n 0 where
  order j hPos hj hParent := by
    rw [hSame j hPos hj, hSame _ (Nat.pos_of_ne_zero hParent) (Nat.lt_trans (parent_lt hPos) hj)]
    exact h j hPos (Nat.lt_succ_of_lt hj)
  across hPos := absurd hPos (Nat.lt_irrefl 0)

theorem Rising.stop (h : Rising f n i) (hTop : 0 < i → f (parent i) ≤ f i) : Ordered f n := by
  intro j hPos hj
  by_cases hNe : j = i
  · exact hNe ▸ hTop (hNe ▸ hPos)
  · exact h.order j hPos hj hNe

/-- A key that is not larger than that of its parent changes places with it. -/
theorem Rising.swap (h : Rising f n i) (hPos : 0 < i) (hi : i < n) (hLe : f i ≤ f (parent i))
    (hSelf : g i = f (parent i)) (hParent : g (parent i) = f i)
    (hOther : ∀ j, j ≠ i → j ≠ parent i → g j = f j) : Rising g n (parent i) := by
  have hLt := parent_lt hPos
  -- the keys below the old parent are not smaller than its key
  have hBelow (j : Nat) (hj0 : 0 < j) (hj : j < n) (hUnder : parent j = parent i) : f (parent i) ≤ g j := by
    by_cases hNe : j = i
    · rw [hNe, hSelf]
    · have hNotParent : j ≠ parent i := fun he => by
        have := parent_lt hj0
        omega
      rw [hOther j hNe hNotParent, ← hUnder]
      exact h.order j hj0 hj hNe
  constructor
  · intro j hj0 hj hNe
    by_cases hUnder : parent j = parent i
    · rw [hUnder, hParent]
      exact hLe.trans (hBelow j hj0 hj hUnder)
    · have hNotI : j ≠ i := fun he => hUnder (congrArg parent he)
      rw [hOther j hNotI hNe]
      by_cases hChild : parent j = i
      · rw [hChild, hSelf]
        exact h.across hPos j hj0 hj hChild
      · rw [hOther _ hChild hUnder]
        exact h.order j hj0 hj hNotI
  · intro hTop j hj0 hj hUnder
    have hGrand := parent_lt hTop
    rw [hOther _ (by omega) (by omega)]
    exact (h.order _ hTop (Nat.lt_trans hLt hi) (by omega)).trans (hBelow j hj0 hj hUnder)

theorem Sinking.stop (h : Sinking f n i) (hBottom : ∀ j, 0 < j → j < n → parent j = i → f i ≤ f j) :
    Ordered f n := by
  intro j hPos hj
  by_cases hParent : parent j = i
  · rw [hParent]
    exact hBottom j hPos hj hParent
  · exact h.order j hPos hj hParent

/-- A key changes places with the least of the keys below it. -/
theorem Sinking.swap (h : Sinking f n i) (hc : 0 < c) (hChild : parent c = i) (hn : c < n) (hLe : f c ≤ f i)
    (hLeast : ∀ j, 0 < j → j < n → parent j = i → f c ≤ f j) (hSelf : g c = f i) (hParent : g i = f c)
    (hOther : ∀ j, j ≠ c → j ≠ i → g j = f j) : Sinking g n c := by
  have hLt : i < c := hChild ▸ parent_lt hc
  constructor
  · intro j hj0 hj hNot
    by_cases hUnder : parent j = i
    · rw [hUnder, hParent]
      by_cases hNe : j = c
      · rw [hNe, hSelf]
        exact hLe
      · have hji : j ≠ i := fun he => by
          have := parent_lt hj0
          omega
        rw [hOther j hNe hji]
        exact hLeast j hj0 hj hUnder
    · have hNe : j ≠ c := fun he => hUnder (he ▸ hChild)
      rw [hOther _ hNot hUnder]
      by_cases hTop : j = i
      · rw [hTop, hParent]
        exact h.across (hTop ▸ hj0) c hc hn hChild
      · rw [hOther j hNe hTop]
        exact h.order j hj0 hj hUnder
  · intro _ j hj0 hj hUnder
    have hcj : c < j := hUnder ▸ parent_lt hj0
    rw [hChild, hParent, hOther j (by omega) (by omega), ← hUnder]
    exact h.order j hj0 hj (by omega)

end MinHeap
