import Yalnix.Memory.Allocator
import Yalnix.Memory.UserMemory
import Yalnix.Memory.KernelMemory
import Mathlib.Data.Set.Card
import Mathlib.Data.Int.Interval

/-! One page table together with the frame allocator. The memory modules of the
user and of the kernel do the same things to theirs, so the loops that map and
release pages are described once. -/
namespace Yalnix

open Hardware

/-- The valid entries of a page table, with the frame and the protection of each. -/
def mappings (pt : PageTable) (i : Int) : Option (Nat × Prot) :=
  if (pt i).valid then some ((pt i).pfn, (pt i).prot) else none

theorem mappings_congr {pt pt' : PageTable} {i : Int} (h : pt' i = pt i) :
    mappings pt' i = mappings pt i := by
  rw [mappings, mappings, h]

theorem mappings_invalid {pt : PageTable} {i : Int} (h : (pt i).valid = false) : mappings pt i = none :=
  if_neg (by simp [h])

/-- The frames of the valid entries from `a` up to `b`. -/
def heldFrames (pt : PageTable) (a b : Int) : Set Nat :=
  {pfn | ∃ i, a ≤ i ∧ i < b ∧ (pt i).valid = true ∧ (pt i).pfn = pfn}

/-- Valid entries with frames of their own hold one frame each. -/
theorem ncard_heldFrames {pt : PageTable} {a b : Int} (hValid : ∀ i, a ≤ i → i < b → (pt i).valid = true)
    (hApart : ∀ i j, a ≤ i → i < j → j < b → (pt i).pfn ≠ (pt j).pfn) :
    (heldFrames pt a b).ncard = (b - a).toNat := by
  have hImage : heldFrames pt a b = (fun i => (pt i).pfn) '' (Finset.Ico a b : Set Int) := by
    ext pfn
    simp only [heldFrames, Set.mem_ofPred_eq, Set.mem_image, Finset.coe_Ico, Set.mem_Ico]
    constructor
    · rintro ⟨i, hLow, hHigh, -, hPfn⟩
      exact ⟨i, ⟨hLow, hHigh⟩, hPfn⟩
    · rintro ⟨i, ⟨hLow, hHigh⟩, hPfn⟩
      exact ⟨i, hLow, hHigh, hValid i hLow hHigh, hPfn⟩
  rw [hImage, Set.InjOn.ncard_image, Set.ncard_coe_finset, Int.card_Ico]
  intro i hi j hj hSame
  simp only [Finset.coe_Ico, Set.mem_Ico] at hi hj
  rcases lt_trichotomy i j with hLess | hEq | hLess
  · exact absurd hSame (hApart i j hi.1 hLess hj.2)
  · exact hEq
  · exact absurd hSame.symm (hApart j i hj.1 hLess hi.2)

section Loops

variable [Hardware]

namespace Frames

variable {f g : Frames} {pfn : Nat}

/-- The number of frames that are not marked. -/
noncomputable def freeCount (f : Frames) : Nat := (f.range \ f.inUse).ncard

theorem finite_range (f : Frames) : f.range.Finite := by
  refine (Set.finite_lt_nat (pmemBaseFrame + f.numFrames)).subset fun pfn hIn => ?_
  have hLow : pmemBaseFrame ≤ pfn := hIn.1
  have hHigh : pfn - pmemBaseFrame < f.numFrames := hIn.2
  show pfn < pmemBaseFrame + f.numFrames
  omega

theorem inUse_subset (f : Frames) : f.inUse ⊆ f.range := fun _ hUsed => ⟨hUsed.1, hUsed.2.1⟩

theorem finite_inUse (f : Frames) : f.inUse.Finite := f.finite_range.subset f.inUse_subset

theorem range_of_numFrames (h : g.numFrames = f.numFrames) : g.range = f.range := by
  simp only [range, h]

theorem freeCount_eq_zero : f.freeCount = 0 ↔ f.range ⊆ f.inUse := by
  unfold freeCount
  rw [Set.ncard_eq_zero f.finite_range.sdiff]
  exact Set.sdiff_eq_empty

/-- A frame is marked that was free. -/
theorem freeCount_insert (hRange : g.range = f.range) (hFree : pfn ∈ f.range \ f.inUse)
    (hMarked : g.inUse = insert pfn f.inUse) : g.freeCount + 1 = f.freeCount := by
  have hRest : f.range \ insert pfn f.inUse = (f.range \ f.inUse) \ {pfn} := by
    ext other
    simp only [Set.mem_sdiff, Set.mem_insert_iff, Set.mem_singleton_iff]
    tauto
  unfold freeCount
  rw [hRange, hMarked, hRest, Set.ncard_sdiff_singleton_add_one hFree f.finite_range.sdiff]

theorem freeCount_add_inUse (f : Frames) : f.freeCount + f.inUse.ncard = f.range.ncard :=
  Set.ncard_sdiff_add_ncard_of_subset f.inUse_subset f.finite_range

theorem inUse_freeFrame (f : Frames) (pfn : Nat) : (f.freeFrame pfn).1.inUse = f.inUse \ {pfn} := by
  ext other
  exact used_freeFrame f pfn other

end Frames

/-- The frames and one page table. -/
structure Mapping where
  frames : Frames
  table : PageTable

namespace Mapping

/-- `alloc_page` on a table of `size` entries. -/
def alloc (size : Nat) (x : Mapping) (i : Int) (prot : Prot) : Mapping × Bool :=
  match x.frames.findFrame with
  | (frames, none) => ({ x with frames := frames }, false)
  | (frames, some pfn) =>
      if i < size ∧ 0 ≤ i then (⟨frames, createPte x.table i pfn prot⟩, true)
      else ({ x with frames := frames }, false)

/-- `dealloc_page`. -/
def dealloc (size : Nat) (x : Mapping) (i : Int) : Mapping × Bool :=
  if i < size ∧ 0 ≤ i then
    if (x.table i).valid = false then (x, false)
    else (⟨(x.frames.freeFrame (x.table i).pfn).1, (destroyPte x.table i).1⟩,
      (x.frames.freeFrame (x.table i).pfn).2)
  else (x, false)

/-- `undo_allocation`. -/
def undo (size : Nat) (x : Mapping) (first last : Int) : Mapping :=
  (pageRange first last).foldl (fun x i => (dealloc size x i).1) x

/-- The loop that maps pages in order and gives up at the first failure. -/
def allocAll (size : Nat) (x : Mapping) (first : Int) (prot : Prot) : List Int → Mapping × Bool
  | [] => (x, true)
  | i :: rest =>
      match alloc size x i prot with
      | (x, true) => allocAll size x first prot rest
      | (x, false) => (undo size x first i, false)

/-- What a call of `alloc_page` can do. A frame that was found for a page
outside the table is lost. -/
inductive Alloc (size : Nat) (x : Mapping) (i : Int) (prot : Prot) : Mapping × Bool → Prop where
  | full {frames : Frames} (hFull : x.frames.freeCount = 0) (hWf : frames.Wf)
      (hSize : frames.numFrames = x.frames.numFrames) (hSame : frames.inUse = x.frames.inUse) :
      Alloc size x i prot ({ x with frames := frames }, false)
  | mapped {frames : Frames} {pfn : Nat} (hIn : 0 ≤ i ∧ i < size) (hWf : frames.Wf)
      (hSize : frames.numFrames = x.frames.numFrames) (hFree : pfn ∈ x.frames.range \ x.frames.inUse)
      (hMarked : frames.inUse = insert pfn x.frames.inUse) :
      Alloc size x i prot (⟨frames, createPte x.table i pfn prot⟩, true)
  | lost {frames : Frames} {pfn : Nat} (hOut : ¬(0 ≤ i ∧ i < size)) (hWf : frames.Wf)
      (hSize : frames.numFrames = x.frames.numFrames) (hFree : pfn ∈ x.frames.range \ x.frames.inUse)
      (hMarked : frames.inUse = insert pfn x.frames.inUse) :
      Alloc size x i prot ({ x with frames := frames }, false)

variable {size : Nat} {x y z : Mapping} {i a b c : Int} {prot : Prot}

theorem alloc_cases (hWf : x.frames.Wf) (size : Nat) (i : Int) (prot : Prot) :
    Alloc size x i prot (alloc size x i prot) := by
  have hNext := hWf.findFrame
  have hSize := x.frames.findFrame_numFrames
  unfold alloc
  split
  · rename_i frames hNone
    have hFound : x.frames.findFrame.2 = none := by rw [hNone]
    have hMarked := Frames.inUse_findFrame_none hFound
    rw [hNone] at hNext hSize hMarked
    refine .full ?_ hNext hSize hMarked
    rw [Frames.freeCount_eq_zero]
    exact fun pfn hRange => ⟨hRange.1, hRange.2, hWf.all_used hFound hRange.2⟩
  · rename_i frames pfn hSome
    have hFound : x.frames.findFrame.2 = some pfn := by rw [hSome]
    have hFree := (hWf.findFrame_least hFound).1
    have hMarked : x.frames.findFrame.1.inUse = insert pfn x.frames.inUse := by
      ext other
      exact (hWf.findFrame_some hFound).2 other
    rw [hSome] at hNext hSize hMarked
    split_ifs with hIn
    · exact .mapped hIn.symm hNext hSize hFree hMarked
    · exact .lost (fun h => hIn h.symm) hNext hSize hFree hMarked

/-- The entries from `a` up to `b` are mapped to frames that were free. -/
structure Filled (prot : Prot) (a b : Int) (x y : Mapping) : Prop where
  other : ∀ i, ¬(a ≤ i ∧ i < b) → y.table i = x.table i
  entry : ∀ i, a ≤ i → i < b → (y.table i).valid = true ∧ (y.table i).prot = prot
  fresh : ∀ i, a ≤ i → i < b → (y.table i).pfn ∈ x.frames.range \ x.frames.inUse
  apart : ∀ i j, a ≤ i → i < j → j < b → (y.table i).pfn ≠ (y.table j).pfn
  inUse : y.frames.inUse = x.frames.inUse ∪ {pfn | ∃ i, a ≤ i ∧ i < b ∧ (y.table i).pfn = pfn}
  wf : y.frames.Wf
  numFrames : y.frames.numFrames = x.frames.numFrames
  count : y.frames.freeCount + (b - a).toNat = x.frames.freeCount

/-- The valid entries from `a` up to `b` are released. -/
structure Cleared (a b : Int) (x y : Mapping) : Prop where
  other : ∀ i, ¬(a ≤ i ∧ i < b) → y.table i = x.table i
  entry : ∀ i, a ≤ i → i < b → y.table i = { x.table i with valid := false }
  inUse : y.frames.inUse = x.frames.inUse \ heldFrames x.table a b
  wf : y.frames.Wf
  numFrames : y.frames.numFrames = x.frames.numFrames

theorem Filled.nil (hWf : x.frames.Wf) (a : Int) : Filled prot a a x x where
  other _ _ := rfl
  entry _ hLow hHigh := absurd hHigh (not_lt.mpr hLow)
  fresh _ hLow hHigh := absurd hHigh (not_lt.mpr hLow)
  apart _ _ hLow hLess hHigh := by omega
  inUse := by
    ext pfn
    simp only [Set.mem_union, Set.mem_ofPred_eq]
    refine ⟨Or.inl, fun h => h.elim id ?_⟩
    rintro ⟨i, hLow, hHigh, -⟩
    omega
  wf := hWf
  numFrames := rfl
  count := by simp

/-- One more page is mapped. -/
theorem Filled.snoc {pfn : Nat} (h : Filled prot a b x y) (hab : a ≤ b)
    (hTable : z.table = createPte y.table b pfn prot) (hWf : z.frames.Wf)
    (hSize : z.frames.numFrames = y.frames.numFrames) (hFree : pfn ∈ y.frames.range \ y.frames.inUse)
    (hMarked : z.frames.inUse = insert pfn y.frames.inUse) : Filled prot a (b + 1) x z := by
  have hSelf : z.table b = ⟨true, prot, pfn⟩ := by
    rw [hTable]
    exact Function.update_self _ _ _
  have hOther (i : Int) (hi : i ≠ b) : z.table i = y.table i := by
    rw [hTable]
    exact Function.update_of_ne hi _ _
  have hNew : pfn ∉ x.frames.inUse := by
    intro hOld
    refine hFree.2 ?_
    rw [h.inUse]
    exact Or.inl hOld
  have hNone (i : Int) (hLow : a ≤ i) (hHigh : i < b) : (y.table i).pfn ≠ pfn := by
    intro he
    refine hFree.2 ?_
    rw [h.inUse]
    exact Or.inr ⟨i, hLow, hHigh, he⟩
  have hRange : y.frames.range = x.frames.range := Frames.range_of_numFrames h.numFrames
  constructor
  · intro i hOut
    rw [hOther i (by omega)]
    exact h.other i (by omega)
  · intro i hLow hHigh
    by_cases hi : i = b
    · rw [hi, hSelf]
      exact ⟨rfl, rfl⟩
    · rw [hOther i hi]
      exact h.entry i hLow (by omega)
  · intro i hLow hHigh
    by_cases hi : i = b
    · rw [hi, hSelf]
      exact ⟨hRange ▸ hFree.1, hNew⟩
    · rw [hOther i hi]
      exact h.fresh i hLow (by omega)
  · intro i j hLow hLess hHigh
    rw [hOther i (by omega)]
    by_cases hj : j = b
    · rw [hj, hSelf]
      exact hNone i hLow (by omega)
    · rw [hOther j hj]
      exact h.apart i j hLow hLess (by omega)
  · rw [hMarked, h.inUse]
    ext other
    simp only [Set.mem_insert_iff, Set.mem_union, Set.mem_ofPred_eq]
    constructor
    · rintro (rfl | hOld | ⟨i, hLow, hHigh, hPfn⟩)
      · exact Or.inr ⟨b, hab, by omega, by rw [hSelf]⟩
      · exact Or.inl hOld
      · exact Or.inr ⟨i, hLow, by omega, by rw [hOther i (by omega), hPfn]⟩
    · rintro (hOld | ⟨i, hLow, hHigh, hPfn⟩)
      · exact Or.inr (Or.inl hOld)
      · by_cases hi : i = b
        · rw [hi, hSelf] at hPfn
          exact Or.inl hPfn.symm
        · rw [hOther i hi] at hPfn
          exact Or.inr (Or.inr ⟨i, hLow, by omega, hPfn⟩)
  · exact hWf
  · exact hSize.trans h.numFrames
  · have hCount := Frames.freeCount_insert (Frames.range_of_numFrames hSize) hFree hMarked
    have hOld := h.count
    omega

theorem dealloc_wf (hWf : x.frames.Wf) (size : Nat) (i : Int) : (dealloc size x i).1.frames.Wf := by
  unfold dealloc
  split_ifs
  · exact hWf
  · exact hWf.freeFrame _
  · exact hWf

theorem Cleared.nil (hWf : x.frames.Wf) (a : Int) : Cleared a a x x where
  other _ _ := rfl
  entry _ hLow hHigh := absurd hHigh (not_lt.mpr hLow)
  inUse := by
    ext pfn
    simp only [heldFrames, Set.mem_sdiff, Set.mem_ofPred_eq]
    refine ⟨fun h => ⟨h, ?_⟩, fun h => h.1⟩
    rintro ⟨i, hLow, hHigh, -⟩
    omega
  wf := hWf
  numFrames := rfl

/-- One more page is released. -/
theorem Cleared.snoc (h : Cleared a b x y) (hab : a ≤ b) (hLow : 0 ≤ b) (hHigh : b < size) :
    Cleared a (b + 1) x (dealloc size y b).1 := by
  have hSame : y.table b = x.table b := h.other b (by omega)
  by_cases hValid : (x.table b).valid = true
  · have hNext : (dealloc size y b).1 = ⟨(y.frames.freeFrame (x.table b).pfn).1,
        Function.update y.table b { x.table b with valid := false }⟩ := by
      unfold dealloc destroyPte
      rw [if_pos ⟨hHigh, hLow⟩, hSame, if_neg (by simp [hValid])]
    rw [hNext]
    constructor
    · intro i hOut
      exact (Function.update_of_ne (by omega) _ _).trans (h.other i (by omega))
    · intro i hFirst hLast
      by_cases hi : i = b
      · rw [hi]
        exact Function.update_self _ _ _
      · exact (Function.update_of_ne hi _ _).trans (h.entry i hFirst (by omega))
    · rw [Frames.inUse_freeFrame, h.inUse]
      ext pfn
      simp only [heldFrames, Set.mem_sdiff, Set.mem_ofPred_eq, Set.mem_singleton_iff]
      constructor
      · rintro ⟨⟨hUsed, hNone⟩, hNe⟩
        refine ⟨hUsed, ?_⟩
        rintro ⟨i, hFirst, hLast, hOld, hPfn⟩
        by_cases hi : i = b
        · exact hNe (hi ▸ hPfn).symm
        · exact hNone ⟨i, hFirst, by omega, hOld, hPfn⟩
      · rintro ⟨hUsed, hNone⟩
        refine ⟨⟨hUsed, ?_⟩, ?_⟩
        · rintro ⟨i, hFirst, hLast, hOld, hPfn⟩
          exact hNone ⟨i, hFirst, by omega, hOld, hPfn⟩
        · rintro rfl
          exact hNone ⟨b, hab, by omega, hValid, rfl⟩
    · exact h.wf.freeFrame _
    · exact (Frames.freeFrame_numFrames _ _).trans h.numFrames
  · have hInvalid : (x.table b).valid = false := by simpa using hValid
    have hNext : (dealloc size y b).1 = y := by
      unfold dealloc
      rw [if_pos ⟨hHigh, hLow⟩, hSame, if_pos hInvalid]
    rw [hNext]
    constructor
    · exact fun i hOut => h.other i (by omega)
    · intro i hFirst hLast
      by_cases hi : i = b
      · rw [hi, hSame, ← hInvalid]
      · exact h.entry i hFirst (by omega)
    · rw [h.inUse]
      ext pfn
      simp only [heldFrames, Set.mem_sdiff, Set.mem_ofPred_eq]
      refine and_congr_right fun _ => not_congr ⟨?_, ?_⟩
      · rintro ⟨i, hFirst, hLast, hRest⟩
        exact ⟨i, hFirst, by omega, hRest⟩
      · rintro ⟨i, hFirst, hLast, hOld, hPfn⟩
        refine ⟨i, hFirst, ?_, hOld, hPfn⟩
        by_contra hNot
        obtain rfl : i = b := by omega
        exact hValid hOld
    · exact h.wf
    · exact h.numFrames

/-- The entries from `a` up to `c` are invalid, and everything else is as it was,
but for the frames in `lost`. -/
structure Restored (lost : Set Nat) (a c : Int) (x y : Mapping) : Prop where
  other : ∀ i, ¬(a ≤ i ∧ i < c) → y.table i = x.table i
  entry : ∀ i, a ≤ i → i < c → (y.table i).valid = false
  inUse : y.frames.inUse = x.frames.inUse ∪ lost
  wf : y.frames.Wf
  numFrames : y.frames.numFrames = x.frames.numFrames

/-- Pages that were just mapped are released again. -/
theorem Filled.restore {lost : Set Nat} {w : Mapping} (h : Filled prot a c x y) (hTable : w.table = y.table)
    (hSize : w.frames.numFrames = y.frames.numFrames) (hUsed : w.frames.inUse = y.frames.inUse ∪ lost)
    (hLost : ∀ pfn ∈ lost, pfn ∉ y.frames.inUse) (hCleared : Cleared a c w z) : Restored lost a c x z := by
  constructor
  · intro i hOut
    rw [hCleared.other i hOut, hTable, h.other i hOut]
  · intro i hLow hHigh
    rw [hCleared.entry i hLow hHigh]
  · rw [hCleared.inUse, hUsed, h.inUse, hTable]
    ext pfn
    simp only [heldFrames, Set.mem_sdiff, Set.mem_union, Set.mem_ofPred_eq]
    constructor
    · rintro ⟨(hOld | ⟨i, hLow, hHigh, hPfn⟩) | hGone, hNone⟩
      · exact Or.inl hOld
      · exact absurd ⟨i, hLow, hHigh, (h.entry i hLow hHigh).1, hPfn⟩ hNone
      · exact Or.inr hGone
    · rintro (hOld | hGone)
      · refine ⟨Or.inl (Or.inl hOld), ?_⟩
        rintro ⟨i, hLow, hHigh, -, rfl⟩
        exact (h.fresh i hLow hHigh).2 hOld
      · refine ⟨Or.inr hGone, ?_⟩
        rintro ⟨i, hLow, hHigh, -, rfl⟩
        refine hLost _ hGone ?_
        rw [h.inUse]
        exact Or.inr ⟨i, hLow, hHigh, rfl⟩
  · exact hCleared.wf
  · exact hCleared.numFrames.trans (hSize.trans h.numFrames)

theorem Filled.ncard (h : Filled prot a b x y) :
    y.frames.inUse.ncard = x.frames.inUse.ncard + (b - a).toNat := by
  have hOld := x.frames.freeCount_add_inUse
  have hNew := y.frames.freeCount_add_inUse
  rw [Frames.range_of_numFrames h.numFrames] at hNew
  have hCount := h.count
  omega

theorem Filled.mappings_other (h : Filled prot a b x y) {i : Int} (hOut : ¬(a ≤ i ∧ i < b)) :
    mappings y.table i = mappings x.table i := mappings_congr (h.other i hOut)

/-- Valid entries with used frames of their own give them all back. -/
theorem Cleared.ncard (h : Cleared a b x y) (hValid : ∀ i, a ≤ i → i < b → (x.table i).valid = true)
    (hUsed : ∀ i, a ≤ i → i < b → (x.table i).pfn ∈ x.frames.inUse)
    (hApart : ∀ i j, a ≤ i → i < j → j < b → (x.table i).pfn ≠ (x.table j).pfn) :
    y.frames.inUse.ncard + (b - a).toNat = x.frames.inUse.ncard := by
  have hSubset : heldFrames x.table a b ⊆ x.frames.inUse := by
    rintro pfn ⟨i, hLow, hHigh, -, rfl⟩
    exact hUsed i hLow hHigh
  rw [h.inUse, ← ncard_heldFrames hValid hApart]
  exact Set.ncard_sdiff_add_ncard_of_subset hSubset x.frames.finite_inUse

/-- An empty range is filled by clearing nothing. -/
theorem Cleared.filled (h : Cleared a a x y) : Filled prot a a x y where
  other := h.other
  entry _ hLow hHigh := absurd hHigh (not_lt.mpr hLow)
  fresh _ hLow hHigh := absurd hHigh (not_lt.mpr hLow)
  apart _ _ hLow hLess hHigh := by omega
  inUse := by
    rw [h.inUse]
    ext pfn
    simp only [heldFrames, Set.mem_sdiff, Set.mem_union, Set.mem_ofPred_eq]
    constructor
    · exact fun hOld => Or.inl hOld.1
    · rintro (hOld | ⟨i, hLow, hHigh, -⟩)
      · refine ⟨hOld, ?_⟩
        rintro ⟨i, hLow, hHigh, -⟩
        omega
      · omega
  wf := h.wf
  numFrames := h.numFrames
  count := by
    have hOld := x.frames.freeCount_add_inUse
    have hNew := y.frames.freeCount_add_inUse
    rw [Frames.range_of_numFrames h.numFrames] at hNew
    have hUsed := h.ncard (fun i hLow hHigh => absurd hHigh (not_lt.mpr hLow))
      (fun i hLow hHigh => absurd hHigh (not_lt.mpr hLow)) (fun i j hLow hLess hHigh => by omega)
    omega

/-- Entries that were not valid before are not valid again. -/
theorem Restored.mappings {lost : Set Nat} (h : Restored lost a c x y)
    (hInvalid : ∀ i, a ≤ i → i < c → (x.table i).valid = false) : mappings y.table = mappings x.table := by
  funext i
  by_cases hIn : a ≤ i ∧ i < c
  · rw [mappings_invalid (h.entry i hIn.1 hIn.2), mappings_invalid (hInvalid i hIn.1 hIn.2)]
  · exact mappings_congr (h.other i hIn)

theorem cleared_undo (hWf : x.frames.Wf) (hLow : 0 ≤ a) (hab : a ≤ b) (hHigh : b ≤ size) :
    Cleared a b x (undo size x a b) := by
  induction b, hab using Int.leInduction with
  | base =>
      have hNone : pageRange a a = [] := by simp [pageRange]
      rw [undo, hNone]
      exact .nil hWf a
  | succ b hab ih =>
      have hLast : undo size x a (b + 1) = (dealloc size (undo size x a b) b).1 := by
        rw [undo, pageRange_snoc hab, List.foldl_append]
        rfl
      rw [hLast]
      exact (ih (by omega)).snoc hab (by omega) (by omega)

/-- The outcomes of the loop that maps the pages from `a` up to `b`. -/
inductive Attempt (size : Nat) (prot : Prot) (a b : Int) (x : Mapping) : Mapping × Bool → Prop where
  | done {y : Mapping} (hIn : a < b → 0 ≤ a ∧ b ≤ size) (hFilled : Filled prot a b x y) :
      Attempt size prot a b x (y, true)
  | full {y : Mapping} {c : Int} (hLow : a ≤ c) (hHigh : c < b) (hIn : a < c → 0 ≤ a ∧ c ≤ size)
      (hCount : x.frames.freeCount = (c - a).toNat) (hRestored : Restored ∅ a c x y) :
      Attempt size prot a b x (y, false)
  | lost {y : Mapping} {c : Int} {pfn : Nat} (hLow : a ≤ c) (hHigh : c < b) (hIn : a < c → 0 ≤ a ∧ c ≤ size)
      (hOut : ¬(0 ≤ c ∧ c < size)) (hCount : (c - a).toNat < x.frames.freeCount)
      (hFree : pfn ∉ x.frames.inUse) (hRestored : Restored {pfn} a c x y) : Attempt size prot a b x (y, false)

/-- The loop continued at `c`. -/
theorem attempt_from (n : Nat) (hac : a ≤ c) (hn : (b - c).toNat = n) (hcb : c ≤ b) (hIn : a < c → 0 ≤ a ∧ c ≤ size)
    (h : Filled prot a c x y) : Attempt size prot a b x (allocAll size y a prot (pageRange c b)) := by
  induction n generalizing c y with
  | zero =>
      obtain rfl : c = b := by omega
      have hNone : pageRange c c = [] := by simp [pageRange]
      rw [hNone]
      exact .done hIn h
  | succ n ih =>
      have hLess : c < b := by omega
      rw [pageRange_cons hLess]
      have hUndo {w : Mapping} (hw : w.frames.Wf) : Cleared a c w (undo size w a c) := by
        by_cases hSome : a < c
        · exact cleared_undo hw (hIn hSome).1 hac (hIn hSome).2
        · obtain rfl : a = c := by omega
          have hNone : pageRange a a = [] := by simp [pageRange]
          rw [undo, hNone]
          exact .nil hw a
      have hCount := h.count
      have hAlloc := alloc_cases h.wf size c prot
      unfold allocAll
      generalize alloc size y c prot = result at hAlloc ⊢
      cases hAlloc with
      | @full frames hFull hWf hSize hSame =>
          refine .full hac hLess hIn (by omega) ?_
          exact h.restore (w := { y with frames := frames }) rfl hSize (by simp [hSame]) (by simp) (hUndo hWf)
      | mapped hInside hWf hSize hFree hMarked =>
          have hNext := h.snoc (z := ⟨_, createPte y.table c _ prot⟩) hac rfl hWf hSize hFree hMarked
          exact ih (by omega) (by omega) (by omega) (by omega) hNext
      | @lost frames pfn hOut hWf hSize hFree hMarked =>
          have hNew : pfn ∉ x.frames.inUse := by
            intro hOld
            refine hFree.2 ?_
            rw [h.inUse]
            exact Or.inl hOld
          have hSome : y.frames.freeCount ≠ 0 := by
            rw [Ne, Frames.freeCount_eq_zero]
            exact fun hAll => hFree.2 (hAll hFree.1)
          have hRestored : Restored {pfn} a c x (undo size { y with frames := frames } a c) := by
            refine h.restore (w := { y with frames := frames }) rfl hSize ?_ ?_ (hUndo hWf)
            · rw [hMarked, Set.insert_eq, Set.union_comm]
            · intro other hIn
              rw [Set.mem_singleton_iff.mp hIn]
              exact hFree.2
          exact .lost hac hLess hIn hOut (by omega) hNew hRestored

/-- Mapping a range of pages: all of them, or none. -/
theorem attempt (hWf : x.frames.Wf) (hab : a ≤ b) (prot : Prot) :
    Attempt size prot a b x (allocAll size x a prot (pageRange a b)) :=
  attempt_from _ le_rfl rfl hab (fun h => absurd h (lt_irrefl a)) (.nil hWf a)

end Mapping

end Loops

namespace Memory

/-- What `user_memory.c` works on: the table of the active process. -/
def userMapping (m : Memory) : Mapping := ⟨m.frames, m.region1Pt⟩

def withUser (m : Memory) (x : Mapping) : Memory := (m.setFrames x.frames).setRegion1Pt m.active x.table

/-- What `kernel_memory.c` works on. -/
def kernelMapping (m : Memory) : Mapping := ⟨m.frames, m.region0Pt⟩

def withKernel (m : Memory) (x : Mapping) : Memory := { m with frames := x.frames, region0Pt := x.table }

variable {m : Memory} {x y : Mapping}

@[simp] theorem userMapping_withUser (m : Memory) (x : Mapping) : (m.withUser x).userMapping = x := by
  simp [userMapping, withUser, region1Pt, setRegion1Pt, setFrames]

@[simp] theorem withUser_withUser (m : Memory) (x y : Mapping) : (m.withUser x).withUser y = m.withUser y := by
  simp [withUser, setRegion1Pt, setFrames]

@[simp] theorem withUser_active (m : Memory) (x : Mapping) : (m.withUser x).active = m.active := rfl

theorem withUser_frames (m : Memory) (frames : Frames) :
    m.withUser { m.userMapping with frames := frames } = m.setFrames frames := by
  simp [withUser, userMapping, region1Pt, setRegion1Pt, setFrames]

theorem withUser_self (m : Memory) : m.withUser m.userMapping = m := withUser_frames m m.frames

@[simp] theorem kernelMapping_withKernel (m : Memory) (x : Mapping) : (m.withKernel x).kernelMapping = x := rfl

@[simp] theorem withKernel_withKernel (m : Memory) (x y : Mapping) :
    (m.withKernel x).withKernel y = m.withKernel y := rfl

theorem withKernel_self (m : Memory) : m.withKernel m.kernelMapping = m := rfl

end Memory

namespace UserMemory

variable [Hardware] {m : Memory}

theorem allocPage_eq (m : Memory) (vpn : Int) (prot : Prot) : allocPage m vpn prot =
    (m.withUser (Mapping.alloc region1Vpns m.userMapping (vpn - region1BaseVpn) prot).1,
      (Mapping.alloc region1Vpns m.userMapping (vpn - region1BaseVpn) prot).2) := by
  have hFrames : m.userMapping.frames = m.frames := rfl
  unfold allocPage Mapping.alloc
  rw [hFrames]
  cases m.frames.findFrame with
  | mk frames found =>
      cases found with
      | none => exact Prod.ext (m.withUser_frames frames).symm rfl
      | some pfn =>
          dsimp only
          by_cases hIn : inRegion1 vpn
          · have hPage : vpn - region1BaseVpn < region1Vpns ∧ 0 ≤ vpn - region1BaseVpn := hIn
            rw [if_pos hIn, if_pos hPage]
            rfl
          · have hPage : ¬(vpn - region1BaseVpn < region1Vpns ∧ 0 ≤ vpn - region1BaseVpn) := hIn
            rw [if_neg hIn, if_neg hPage]
            exact Prod.ext (m.withUser_frames frames).symm rfl

theorem deallocPage_eq (m : Memory) (vpn : Int) : deallocPage m vpn =
    (m.withUser (Mapping.dealloc region1Vpns m.userMapping (vpn - region1BaseVpn)).1,
      (Mapping.dealloc region1Vpns m.userMapping (vpn - region1BaseVpn)).2) := by
  have hTable : m.userMapping.table = m.region1Pt := rfl
  unfold deallocPage Mapping.dealloc
  rw [hTable]
  by_cases hIn : inRegion1 vpn
  · have hPage : vpn - region1BaseVpn < region1Vpns ∧ 0 ≤ vpn - region1BaseVpn := hIn
    rw [if_pos hIn, if_pos hPage]
    by_cases hValid : (m.region1Pt (vpn - region1BaseVpn)).valid = false
    · rw [if_pos hValid, if_pos hValid]
      exact Prod.ext m.withUser_self.symm rfl
    · rw [if_neg hValid, if_neg hValid]
      rfl
  · have hPage : ¬(vpn - region1BaseVpn < region1Vpns ∧ 0 ≤ vpn - region1BaseVpn) := hIn
    rw [if_neg hIn, if_neg hPage]
    exact Prod.ext m.withUser_self.symm rfl

theorem undoAllocation_eq (m : Memory) (firstVpn lastVpn : Int) : undoAllocation m firstVpn lastVpn =
    m.withUser (Mapping.undo region1Vpns m.userMapping (firstVpn - region1BaseVpn) (lastVpn - region1BaseVpn)) := by
  unfold undoAllocation Mapping.undo
  rw [← pageRange_sub]
  induction pageRange firstVpn lastVpn generalizing m with
  | nil => exact m.withUser_self.symm
  | cons vpn rest ih =>
      rw [List.foldl_cons, ih, List.map_cons, List.foldl_cons, deallocPage_eq]
      simp

theorem allocPages_eq (m : Memory) (firstVpn : Int) (prot : Prot) (pages : List Int) :
    allocPages m firstVpn prot pages =
      (m.withUser (Mapping.allocAll region1Vpns m.userMapping (firstVpn - region1BaseVpn) prot
        (pages.map (· - region1BaseVpn))).1,
      (Mapping.allocAll region1Vpns m.userMapping (firstVpn - region1BaseVpn) prot
        (pages.map (· - region1BaseVpn))).2) := by
  induction pages generalizing m with
  | nil => exact Prod.ext m.withUser_self.symm rfl
  | cons vpn rest ih =>
      rw [allocPages, allocPage_eq, List.map_cons, Mapping.allocAll]
      cases hAlloc : Mapping.alloc region1Vpns m.userMapping (vpn - region1BaseVpn) prot with
      | mk next ok =>
          cases ok with
          | true => simp [ih]
          | false => simp [undoAllocation_eq]

end UserMemory

namespace KernelMemory

variable [Hardware] {m : Memory}

theorem allocPage_eq (m : Memory) (vpn : Int) (prot : Prot) : allocPage m vpn prot =
    (m.withKernel (Mapping.alloc region0Vpns m.kernelMapping vpn prot).1,
      (Mapping.alloc region0Vpns m.kernelMapping vpn prot).2) := by
  have hFrames : m.kernelMapping.frames = m.frames := rfl
  unfold allocPage Mapping.alloc
  rw [hFrames]
  cases m.frames.findFrame with
  | mk frames found =>
      cases found with
      | none => rfl
      | some pfn =>
          dsimp only
          by_cases hIn : inRegion0 vpn
          · have hPage : vpn < region0Vpns ∧ 0 ≤ vpn := hIn
            rw [if_pos hIn, if_pos hPage]
            rfl
          · have hPage : ¬(vpn < region0Vpns ∧ 0 ≤ vpn) := hIn
            rw [if_neg hIn, if_neg hPage]
            rfl

theorem deallocPage_eq (m : Memory) (vpn : Int) : deallocPage m vpn =
    (m.withKernel (Mapping.dealloc region0Vpns m.kernelMapping vpn).1,
      (Mapping.dealloc region0Vpns m.kernelMapping vpn).2) := by
  have hTable : m.kernelMapping.table = m.region0Pt := rfl
  unfold deallocPage Mapping.dealloc
  rw [hTable, ite_not]
  by_cases hIn : inRegion0 vpn
  · have hPage : vpn < region0Vpns ∧ 0 ≤ vpn := hIn
    rw [if_pos hIn, if_pos hPage]
    by_cases hValid : (m.region0Pt vpn).valid = false
    · rw [if_pos hValid, if_pos hValid]
      rfl
    · rw [if_neg hValid, if_neg hValid]
      rfl
  · have hPage : ¬(vpn < region0Vpns ∧ 0 ≤ vpn) := hIn
    rw [if_neg hIn, if_neg hPage]
    rfl

theorem undoAllocation_eq (m : Memory) (firstVpn lastVpn : Int) :
    undoAllocation m firstVpn lastVpn = m.withKernel (Mapping.undo region0Vpns m.kernelMapping firstVpn lastVpn) := by
  unfold undoAllocation Mapping.undo
  induction pageRange firstVpn lastVpn generalizing m with
  | nil => rfl
  | cons vpn rest ih =>
      rw [List.foldl_cons, ih, List.foldl_cons, deallocPage_eq]
      simp

theorem allocPages_eq (m : Memory) (firstVpn : Int) (pages : List Int) : allocPages m firstVpn pages =
    (m.withKernel (Mapping.allocAll region0Vpns m.kernelMapping firstVpn .readWrite pages).1,
      (Mapping.allocAll region0Vpns m.kernelMapping firstVpn .readWrite pages).2) := by
  induction pages generalizing m with
  | nil => rfl
  | cons vpn rest ih =>
      rw [allocPages, allocPage_eq, Mapping.allocAll]
      cases hAlloc : Mapping.alloc region0Vpns m.kernelMapping vpn .readWrite with
      | mk next ok =>
          cases ok with
          | true => simp [ih]
          | false => simp [undoAllocation_eq]

end KernelMemory
end Yalnix
