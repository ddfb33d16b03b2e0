import Mathlib.Data.Nat.Basic
import Mathlib.Logic.Function.Basic
import Mathlib.Tactic.SplitIfs

/-! The growable tables of kernel objects. Locks, condition variables and
pipes are each kept in an array with an index below which every slot is in
use; they differ in what a slot holds and in what growth copies. -/
namespace Yalnix

variable {α : Type}

/-- An allocated array of `size` slots and its open index. Slots past the end
are blank. -/
structure Table (α : Type) where
  entries : Nat → α
  size : Nat
  openIdx : Nat

namespace Table

def init (blank : α) (size : Nat) : Table α := ⟨fun _ => blank, size, 0⟩

def set (t : Table α) (id : Nat) (entry : α) : Table α :=
  { t with entries := Function.update t.entries id entry }

/-- `calloc` of `size` slots and `memcpy` of the first `copied` of them. -/
def resize (t : Table α) (blank : α) (size copied : Nat) : Table α :=
  { t with entries := fun i => if i < copied then t.entries i else blank, size := size }

/-- `while (open < size && slots[open].in_use) open++`. -/
def advance (t : Table α) (inUse : α → Bool) : Nat → Table α
  | 0 => t
  | fuel + 1 =>
      if t.openIdx < t.size && inUse (t.entries t.openIdx) then
        advance { t with openIdx := t.openIdx + 1 } inUse fuel
      else t

/-- The common body of `new_lock`, `new_cvar` and `new_pipe`: double a full
table, clear the open slot, fill it unless its own allocation fails, and
advance the open index. `none` is the return value `ERROR`. -/
def create (t : Table α) (inUse : α → Bool) (blank fresh : α) (copied : Nat)
    (growOk entryOk : Bool) : Table α × Option Nat :=
  if t.size ≤ t.openIdx ∧ growOk = false then (t, none)
  else
    let t := if t.size ≤ t.openIdx then t.resize blank (2 * t.size) copied else t
    if entryOk = false then (t.set t.openIdx blank, none)
    else
      ((t.set t.openIdx fresh).advance inUse (t.size - t.openIdx), some t.openIdx)

/-- Give a slot back: overwrite it and lower the open index to it. -/
def lower (t : Table α) (unused : α) (id : Nat) : Table α :=
  { entries := Function.update t.entries id unused
    size := t.size
    openIdx := if id < t.openIdx then id else t.openIdx }

/-- The common tail of `delete_lock` and `delete_cvar`: give the slot back and
halve a table whose upper half holds no object. -/
def retire (t : Table α) (inUse : α → Bool) (blank unused : α) (id : Nat) (shrinkOk : Bool) :
    Table α :=
  let t := t.lower unused id
  if (List.range t.size).any fun i => t.size / 2 ≤ i && inUse (t.entries i) then t
  else if t.openIdx < t.size / 2 ∧ shrinkOk = true then
    t.resize blank (t.size / 2) (t.size / 2)
  else t

/-- The open index is the lowest free slot, or the size of a full table, and
nothing lies past the end. -/
structure Wf (t : Table α) (inUse : α → Bool) (blank : α) : Prop where
  size_pos : 0 < t.size
  open_le : t.openIdx ≤ t.size
  below : ∀ i < t.openIdx, inUse (t.entries i) = true
  at_open : t.openIdx < t.size → inUse (t.entries t.openIdx) = false
  beyond : ∀ i, t.size ≤ i → t.entries i = blank

variable {t : Table α} {inUse : α → Bool} {blank fresh unused : α}

theorem wf_init (hBlank : inUse blank = false) {size : Nat} (hSize : 0 < size) :
    (init blank size).Wf inUse blank :=
  ⟨hSize, Nat.zero_le _, fun i hi => absurd hi (Nat.not_lt_zero i), fun _ => hBlank,
    fun _ _ => rfl⟩

theorem Wf.open_free (h : t.Wf inUse blank) (hBlank : inUse blank = false) :
    inUse (t.entries t.openIdx) = false := by
  by_cases hOpen : t.openIdx < t.size
  · exact h.at_open hOpen
  · rw [h.beyond _ (by omega), hBlank]

/-- Changing an entry without releasing it. -/
theorem Wf.set (h : t.Wf inUse blank) (hBlank : inUse blank = false) {id : Nat} {entry : α}
    (hOld : inUse (t.entries id) = true) (hNew : inUse entry = true) :
    (t.set id entry).Wf inUse blank where
  size_pos := h.size_pos
  open_le := h.open_le
  below i hi := by
    by_cases he : i = id
    · simpa [Table.set, he] using hNew
    · simpa [Table.set, Function.update_of_ne he] using h.below i hi
  at_open hLt := by
    have hFree := h.at_open hLt
    have he : t.openIdx ≠ id := fun he => by simp [← he, hFree] at hOld
    simpa [Table.set, Function.update_of_ne he] using hFree
  beyond i hi := by
    have hEntry := h.beyond i hi
    have he : i ≠ id := fun he => by simp [← he, hEntry, hBlank] at hOld
    simpa [Table.set, Function.update_of_ne he] using hEntry

/-- A table with room at the open index, before that slot is filled. -/
structure Roomy (t : Table α) (inUse : α → Bool) (blank : α) : Prop where
  open_lt : t.openIdx < t.size
  below : ∀ i < t.openIdx, inUse (t.entries i) = true
  beyond : ∀ i, t.size ≤ i → t.entries i = blank

/-- A full table is doubled without changing any entry. -/
theorem Wf.grow (h : t.Wf inUse blank) {copied : Nat}
    (hCopied : copied = t.openIdx ∨ copied = t.size) :
    ∃ grown : Table α,
      (if t.size ≤ t.openIdx then t.resize blank (2 * t.size) copied else t) = grown ∧
        grown.entries = t.entries ∧ grown.openIdx = t.openIdx ∧ grown.Roomy inUse blank := by
  have hOpen := h.open_le
  have hPos := h.size_pos
  split_ifs with hFull
  · have hEq : copied = t.size := by omega
    have hSame : (t.resize blank (2 * t.size) copied).entries = t.entries := by
      funext i
      simp only [resize]
      split_ifs with hi
      · rfl
      · exact (h.beyond i (by omega)).symm
    refine ⟨_, rfl, hSame, rfl, ⟨by simp only [resize]; omega, ?_, ?_⟩⟩
    · rw [hSame]
      exact h.below
    · intro i hi
      rw [hSame]
      exact h.beyond i (by simp only [resize] at hi; omega)
  · exact ⟨t, rfl, rfl, rfl, ⟨by omega, h.below, h.beyond⟩⟩

@[simp] theorem advance_entries (t : Table α) (inUse : α → Bool) (fuel : Nat) :
    (t.advance inUse fuel).entries = t.entries := by
  induction fuel generalizing t with
  | zero => rfl
  | succ fuel ih =>
      simp only [advance]
      split_ifs
      · exact ih _
      · rfl

@[simp] theorem advance_size (t : Table α) (inUse : α → Bool) (fuel : Nat) :
    (t.advance inUse fuel).size = t.size := by
  induction fuel generalizing t with
  | zero => rfl
  | succ fuel ih =>
      simp only [advance]
      split_ifs
      · exact ih _
      · rfl

/-- The loop stops at the first slot that is free. -/
theorem advance_spec (t : Table α) (inUse : α → Bool) {fuel : Nat}
    (hOpen : t.openIdx ≤ t.size) (hFuel : t.size - t.openIdx ≤ fuel)
    (hBelow : ∀ i < t.openIdx, inUse (t.entries i) = true) :
    (t.advance inUse fuel).openIdx ≤ t.size ∧
      (∀ i < (t.advance inUse fuel).openIdx, inUse (t.entries i) = true) ∧
      ((t.advance inUse fuel).openIdx < t.size →
        inUse (t.entries (t.advance inUse fuel).openIdx) = false) := by
  induction fuel generalizing t with
  | zero =>
      simp only [advance]
      exact ⟨hOpen, hBelow, fun h => by omega⟩
  | succ fuel ih =>
      simp only [advance]
      split_ifs with hStep
      · simp only [Bool.and_eq_true, decide_eq_true_eq] at hStep
        refine ih { t with openIdx := t.openIdx + 1 } (Nat.succ_le_of_lt hStep.1)
          (by dsimp only; omega) fun i hi => ?_
        by_cases he : i = t.openIdx
        · exact he ▸ hStep.2
        · exact hBelow i (by dsimp only at hi; omega)
      · simp only [Bool.and_eq_true, decide_eq_true_eq, not_and] at hStep
        exact ⟨hOpen, hBelow, fun h => by simpa using hStep h⟩

theorem Roomy.clear (h : t.Roomy inUse blank) (hBlank : inUse blank = false) :
    (t.set t.openIdx blank).Wf inUse blank where
  size_pos := Nat.lt_of_le_of_lt (Nat.zero_le _) h.open_lt
  open_le := Nat.le_of_lt h.open_lt
  below i hi := by
    have hNe : i ≠ t.openIdx := Nat.ne_of_lt hi
    simp only [set, Function.update_of_ne hNe]
    exact h.below i hi
  at_open _ := by simp [set, hBlank]
  beyond i hi := by
    have hNe : i ≠ t.openIdx := Nat.ne_of_gt (Nat.lt_of_lt_of_le h.open_lt hi)
    simp only [set, Function.update_of_ne hNe]
    exact h.beyond i hi

theorem Roomy.fill (h : t.Roomy inUse blank) :
    ((t.set t.openIdx fresh).advance inUse (t.size - t.openIdx)).Wf inUse blank := by
  have hBelow : ∀ i < t.openIdx, inUse ((t.set t.openIdx fresh).entries i) = true := by
    intro i hi
    have hNe : i ≠ t.openIdx := Nat.ne_of_lt hi
    simp only [set, Function.update_of_ne hNe]
    exact h.below i hi
  obtain ⟨hLe, hUsed, hAt⟩ := advance_spec (t.set t.openIdx fresh) inUse
    (Nat.le_of_lt h.open_lt) (Nat.le_refl _) hBelow
  refine ⟨?_, ?_, ?_, ?_, ?_⟩
  · rw [advance_size]
    exact Nat.lt_of_le_of_lt (Nat.zero_le _) h.open_lt
  · rw [advance_size]
    exact hLe
  · rw [advance_entries]
    exact hUsed
  · rw [advance_entries, advance_size]
    exact hAt
  · rw [advance_entries, advance_size]
    intro i hi
    have hNe : i ≠ t.openIdx := Nat.ne_of_gt (Nat.lt_of_lt_of_le h.open_lt hi)
    simp only [set, Function.update_of_ne hNe]
    exact h.beyond i hi

/-- A creation that succeeds fills the lowest free slot and changes no other
entry; one that fails changes at most a slot that is not in use. -/
theorem Wf.create (h : t.Wf inUse blank) (fresh : α) (hBlank : inUse blank = false) {copied : Nat}
    (hCopied : copied = t.openIdx ∨ copied = t.size) (growOk entryOk : Bool) :
    (t.create inUse blank fresh copied growOk entryOk).1.Wf inUse blank ∧
      (∀ id, (t.create inUse blank fresh copied growOk entryOk).2 = some id → id = t.openIdx ∧
        (t.create inUse blank fresh copied growOk entryOk).1.entries =
          Function.update t.entries id fresh) ∧
      ((t.create inUse blank fresh copied growOk entryOk).2 = none →
        (t.create inUse blank fresh copied growOk entryOk).1.entries = t.entries ∨
        (t.create inUse blank fresh copied growOk entryOk).1.entries =
          Function.update t.entries t.openIdx blank) := by
  obtain ⟨grown, hGrown, hEntries, hOpen, hRoomy⟩ := h.grow hCopied
  simp only [Table.create, hGrown]
  by_cases hFail : t.size ≤ t.openIdx ∧ growOk = false
  · simp only [if_pos hFail]
    exact ⟨h, by simp, by simp⟩
  · simp only [if_neg hFail]
    by_cases hEntry : entryOk = false
    · simp only [if_pos hEntry]
      exact ⟨hRoomy.clear hBlank, by simp, fun _ => Or.inr (by simp only [Table.set, hEntries, hOpen])⟩
    · simp only [if_neg hEntry]
      refine ⟨hRoomy.fill, ?_, by simp⟩
      intro id hId
      obtain rfl := Option.some.inj hId
      exact ⟨hOpen, by rw [advance_entries]; simp only [Table.set, hEntries]⟩

/-- Each entry after a creation. -/
theorem Wf.create_entry (h : t.Wf inUse blank) (fresh : α) (hBlank : inUse blank = false) {copied : Nat}
    (hCopied : copied = t.openIdx ∨ copied = t.size) (growOk entryOk : Bool) (k : Nat) :
    (t.create inUse blank fresh copied growOk entryOk).1.entries k = t.entries k ∨
      (k = t.openIdx ∧ ((t.create inUse blank fresh copied growOk entryOk).1.entries k = blank ∨
        (t.create inUse blank fresh copied growOk entryOk).1.entries k = fresh)) := by
  obtain ⟨-, hSome, hNone⟩ := h.create fresh hBlank hCopied growOk entryOk
  by_cases hk : k = t.openIdx
  · cases hResult : (t.create inUse blank fresh copied growOk entryOk).2 with
    | none =>
        rcases hNone hResult with hSame | hClear
        · exact Or.inl (congrFun hSame k)
        · exact Or.inr ⟨hk, Or.inl (by rw [hClear, hk, Function.update_self])⟩
    | some id =>
        obtain ⟨rfl, hFill⟩ := hSome id hResult
        exact Or.inr ⟨hk, Or.inr (by rw [hFill, hk, Function.update_self])⟩
  · left
    cases hResult : (t.create inUse blank fresh copied growOk entryOk).2 with
    | none =>
        rcases hNone hResult with hSame | hClear
        · exact congrFun hSame k
        · rw [hClear, Function.update_of_ne hk]
    | some id =>
        obtain ⟨rfl, hFill⟩ := hSome id hResult
        rw [hFill, Function.update_of_ne hk]

/-- A creation leaves every entry in use as it is, whatever its result. -/
theorem Wf.create_kept (h : t.Wf inUse blank) (fresh : α) (hBlank : inUse blank = false) {copied : Nat}
    (hCopied : copied = t.openIdx ∨ copied = t.size) (growOk entryOk : Bool) {k : Nat}
    (hUse : inUse (t.entries k) = true) :
    (t.create inUse blank fresh copied growOk entryOk).1.entries k = t.entries k := by
  rcases h.create_entry fresh hBlank hCopied growOk entryOk k with hSame | ⟨rfl, -⟩
  · exact hSame
  · rw [h.open_free hBlank] at hUse
    cases hUse

theorem Wf.lower (h : t.Wf inUse blank) (unused : α) (hUnused : inUse unused = false) {id : Nat}
    (hId : id < t.size) : (t.lower unused id).Wf inUse blank where
  size_pos := h.size_pos
  open_le := by
    have hOpen := h.open_le
    simp only [Table.lower]
    split_ifs <;> omega
  below i hi := by
    simp only [Table.lower] at hi ⊢
    have hLt : i < t.openIdx ∧ i ≠ id := by split_ifs at hi <;> omega
    rw [Function.update_of_ne hLt.2]
    exact h.below i hLt.1
  at_open hLt := by
    simp only [Table.lower] at hLt ⊢
    split_ifs at hLt ⊢ with hLow
    · simp [hUnused]
    · by_cases he : t.openIdx = id
      · simp [he, hUnused]
      · rw [Function.update_of_ne he]
        exact h.at_open hLt
  beyond i hi := by
    have hNe : i ≠ id := Nat.ne_of_gt (Nat.lt_of_lt_of_le hId hi)
    simp only [Table.lower, Function.update_of_ne hNe]
    exact h.beyond i hi

theorem Wf.halve (h : t.Wf inUse blank) (hOpen : t.openIdx < t.size / 2) :
    (t.resize blank (t.size / 2) (t.size / 2)).Wf inUse blank where
  size_pos := Nat.lt_of_le_of_lt (Nat.zero_le _) hOpen
  open_le := Nat.le_of_lt hOpen
  below i hi := by
    have hLt : i < t.size / 2 := Nat.lt_trans hi hOpen
    simp only [resize, if_pos hLt]
    exact h.below i hi
  at_open _ := by
    simp only [resize, if_pos hOpen]
    exact h.at_open (by omega)
  beyond i hi := by
    have hGe : ¬ i < t.size / 2 := Nat.not_lt.mpr hi
    simp only [resize, if_neg hGe]

/-- Releasing a slot changes no other entry that is in use, also when the
table is halved. -/
theorem Wf.retire (h : t.Wf inUse blank) (unused : α) (hBlank : inUse blank = false)
    (hUnused : inUse unused = false) {id : Nat} (hId : id < t.size) (shrinkOk : Bool) :
    (t.retire inUse blank unused id shrinkOk).Wf inUse blank ∧ ∀ i,
      (t.retire inUse blank unused id shrinkOk).entries i = Function.update t.entries id unused i ∨
        ((t.retire inUse blank unused id shrinkOk).entries i = blank ∧
          inUse (Function.update t.entries id unused i) = false) := by
  have hWf := h.lower unused hUnused hId
  simp only [Table.retire]
  split_ifs with hUpper hShrink
  · exact ⟨hWf, fun i => Or.inl rfl⟩
  · refine ⟨hWf.halve hShrink.1, fun i => ?_⟩
    simp only [resize]
    split_ifs with hi
    · exact Or.inl rfl
    · refine Or.inr ⟨rfl, ?_⟩
      by_cases hIn : i < (t.lower unused id).size
      · simp only [List.any_eq_true, List.mem_range, Bool.and_eq_true, decide_eq_true_eq,
          not_exists, not_and, Bool.not_eq_true] at hUpper
        exact hUpper i hIn (Nat.not_lt.mp hi)
      · have hEntry := hWf.beyond i (Nat.not_lt.mp hIn)
        simp only [Table.lower] at hEntry
        rw [hEntry, hBlank]
  · exact ⟨hWf, fun i => Or.inl rfl⟩

/-- So every other entry in use stays as it is. -/
theorem Wf.retire_kept (h : t.Wf inUse blank) (unused : α) (hBlank : inUse blank = false)
    (hUnused : inUse unused = false) {id k : Nat} (hId : id < t.size) (shrinkOk : Bool) (hNe : k ≠ id)
    (hUse : inUse (t.entries k) = true) :
    (t.retire inUse blank unused id shrinkOk).entries k = t.entries k := by
  have hEntry := (h.retire unused hBlank hUnused hId shrinkOk).2 k
  rw [Function.update_of_ne hNe] at hEntry
  rcases hEntry with hSame | ⟨-, hFree⟩
  · exact hSame
  · rw [hFree] at hUse
    cases hUse

end Table
end Yalnix
