import Yalnix.Scheduler
import Yalnix.Library.MinHeap
import Mathlib.Data.List.Perm.Basic

/-! The sleep heap. As a collection, sifting only permutes the array; and the
array stays ordered by the times at which the sleepers wake up. -/
namespace Yalnix.Kernel

variable {s t : Kernel} {p : Proc}

theorem perm_swapIfInBounds (arr : Array Proc) (i j : Nat) :
    (arr.swapIfInBounds i j).toList.Perm arr.toList := by
  rw [Array.swapIfInBounds_def]
  split_ifs with hi hj
  · exact (Array.swap_perm hi hj).toList
  · exact .refl _
  · exact .refl _

theorem perm_siftUp (s : Kernel) (fuel : Nat) (arr : Array Proc) (i : Nat) :
    (s.siftUp fuel arr i).toList.Perm arr.toList := by
  induction fuel generalizing arr i with
  | zero => exact .refl _
  | succ fuel ih =>
      unfold siftUp
      dsimp only
      split_ifs
      · exact .refl _
      · exact .refl _
      · exact (ih _ _).trans (perm_swapIfInBounds _ _ _)

theorem perm_siftDown (s : Kernel) (fuel : Nat) (arr : Array Proc) (i : Nat) :
    (s.siftDown fuel arr i).toList.Perm arr.toList := by
  induction fuel generalizing arr i with
  | zero => exact .refl _
  | succ fuel ih =>
      unfold siftDown
      dsimp only
      split_ifs
      · exact .refl _
      · exact (ih _ _).trans (perm_swapIfInBounds _ _ _)

/-- A successful insertion adds exactly the given process. -/
theorem perm_addToHeap {growOk : Bool} (h : s.addToHeap p growOk = some t) :
    t.sleepers.arr.toList.Perm (p :: s.sleepers.arr.toList) ∧
      t = { s with sleepers := t.sleepers } := by
  unfold addToHeap at h
  dsimp only at h
  split_ifs at h <;> cases h <;> refine ⟨(perm_siftUp _ _ _ _).trans ?_, rfl⟩ <;> simp

/-- Swapping the root to the end and dropping it. -/
theorem perm_swap_pop {arr : Array Proc} {root : Proc} (hRoot : arr[0]? = some root) :
    arr.toList.Perm (root :: (arr.swapIfInBounds 0 (arr.size - 1)).pop.toList) := by
  obtain ⟨hSize, hGet⟩ := Array.getElem?_eq_some_iff.mp hRoot
  have hLast : (arr.swapIfInBounds 0 (arr.size - 1)).toList.getLast? = some root := by
    rw [List.getLast?_eq_getElem?]
    simp only [Array.length_toList, Array.size_swapIfInBounds, Array.getElem?_toList]
    rw [Array.getElem?_eq_getElem (by simpa using Nat.sub_lt hSize Nat.one_pos),
      Array.getElem_swapIfInBounds]
    simp only [hSize, hGet, Option.some.injEq]
    split_ifs with hOne <;> simp_all
  refine (perm_swapIfInBounds arr 0 (arr.size - 1)).symm.trans ?_
  rw [Array.toList_pop]
  conv_lhs => rw [← List.dropLast_append_getLast? root hLast]
  exact List.perm_append_comm

/-- A removal takes out exactly the root. -/
theorem perm_removeFromHeap {shrinkOk : Bool} (h : s.removeFromHeap shrinkOk = (t, some p)) :
    s.sleepers.arr.toList.Perm (p :: t.sleepers.arr.toList) ∧
      t = { s with sleepers := t.sleepers } := by
  unfold removeFromHeap at h
  split at h
  · simp at h
  · rename_i root hRoot
    obtain ⟨rfl, hp⟩ := Prod.mk.inj h
    obtain rfl := Option.some.inj hp
    refine ⟨?_, rfl⟩
    exact (perm_swap_pop hRoot).trans ((perm_siftDown _ _ _ _).symm.cons root)

section Order

/-- The time at which the sleeper in a slot wakes up, as the code compares it. -/
def wakeKey (s : Kernel) (arr : Array Proc) (i : Nat) : Int := (s.pcb (arr.getD i 0)).wakeUp.toInt

/-- The array is a heap. -/
def HeapOrdered (s : Kernel) : Prop := MinHeap.Ordered (s.wakeKey s.sleepers.arr) s.sleepers.arr.size

variable {arr : Array Proc} {i j fuel : Nat}

theorem compare_iff (s : Kernel) (arr : Array Proc) (i j : Nat) :
    s.compare (arr.getD i 0) (arr.getD j 0) = true ↔ s.wakeKey arr i < s.wakeKey arr j :=
  BitVec.slt_iff_toInt_lt

theorem getD_swapIfInBounds (hi : i < arr.size) (hj : j < arr.size) (k : Nat) :
    (arr.swapIfInBounds i j).getD k 0 =
      if k = i then arr.getD j 0 else if k = j then arr.getD i 0 else arr.getD k 0 := by
  simp only [Array.getD_eq_getD_getElem?]
  rw [Array.swapIfInBounds_def, dif_pos hi, dif_pos hj, Array.getElem?_swap, Array.getElem?_eq_getElem hi,
    Array.getElem?_eq_getElem hj]
  by_cases hki : k = i
  · subst hki
    by_cases hkj : j = k
    · simp [hkj]
    · simp [hkj]
  · by_cases hkj : k = j
    · subst hkj
      simp [hki]
    · simp [hki, hkj, Ne.symm hki, Ne.symm hkj]

theorem wakeKey_swap (s : Kernel) (hi : i < arr.size) (hj : j < arr.size) (hNe : i ≠ j) :
    s.wakeKey (arr.swapIfInBounds i j) i = s.wakeKey arr j ∧
      s.wakeKey (arr.swapIfInBounds i j) j = s.wakeKey arr i ∧
      ∀ k, k ≠ j → k ≠ i → s.wakeKey (arr.swapIfInBounds i j) k = s.wakeKey arr k := by
  refine ⟨?_, ?_, fun k hkj hki => ?_⟩
  · simp [wakeKey, getD_swapIfInBounds hi hj]
  · simp [wakeKey, getD_swapIfInBounds hi hj, hNe.symm]
  · simp [wakeKey, getD_swapIfInBounds hi hj, hki, hkj]

theorem ordered_siftUp (s : Kernel) (h : MinHeap.Rising (s.wakeKey arr) arr.size i) (hi : i < arr.size)
    (hFuel : i ≤ fuel) : MinHeap.Ordered (s.wakeKey (s.siftUp fuel arr i)) arr.size := by
  induction fuel generalizing arr i with
  | zero => exact h.stop fun hPos => absurd hPos (by omega)
  | succ fuel ih =>
      unfold siftUp
      dsimp only
      by_cases hZero : i = 0
      · rw [if_pos hZero]
        exact h.stop fun hPos => absurd hPos (by omega)
      rw [if_neg hZero]
      have hPos : 0 < i := Nat.pos_of_ne_zero hZero
      by_cases hLess : s.compare (arr.getD ((i - 1) / 2) 0) (arr.getD i 0) = true
      · rw [if_pos hLess]
        exact h.stop fun _ => le_of_lt ((compare_iff s arr _ _).mp hLess)
      · rw [if_neg hLess]
        have hParent := MinHeap.parent_lt hPos
        have hLe : s.wakeKey arr i ≤ s.wakeKey arr (MinHeap.parent i) :=
          le_of_not_gt fun hLt => hLess ((compare_iff s arr _ _).mpr hLt)
        obtain ⟨hTop, hSelf, hOther⟩ := wakeKey_swap s (hParent.trans hi) hi hParent.ne
        have hNext := h.swap hPos hi hLe hSelf hTop hOther
        rw [← Array.size_swapIfInBounds (i := MinHeap.parent i) (j := i)] at hNext ⊢
        exact ih hNext (by rw [Array.size_swapIfInBounds]; omega) (by omega)

/-- The slot to change places with has the least key of all below `i`. -/
theorem least_spec (s : Kernel) (arr : Array Proc) (i : Nat) :
    (s.least arr i = i ∧ ∀ j, 0 < j → j < arr.size → MinHeap.parent j = i → s.wakeKey arr i ≤ s.wakeKey arr j) ∨
      (0 < s.least arr i ∧ MinHeap.parent (s.least arr i) = i ∧ s.least arr i < arr.size ∧
        s.wakeKey arr (s.least arr i) ≤ s.wakeKey arr i ∧
        ∀ j, 0 < j → j < arr.size → MinHeap.parent j = i → s.wakeKey arr (s.least arr i) ≤ s.wakeKey arr j) := by
  have hLeft : MinHeap.parent (2 * i + 1) = i := (MinHeap.parent_eq_iff (by omega)).mpr (Or.inl rfl)
  have hRight : MinHeap.parent (2 * i + 2) = i := (MinHeap.parent_eq_iff (by omega)).mpr (Or.inr rfl)
  unfold least
  simp only [compare_iff]
  by_cases hl : 2 * i + 1 < arr.size ∧ s.wakeKey arr (2 * i + 1) < s.wakeKey arr i
  · rw [if_pos hl]
    by_cases hr : 2 * i + 2 < arr.size ∧ s.wakeKey arr (2 * i + 2) < s.wakeKey arr (2 * i + 1)
    · rw [if_pos hr]
      refine Or.inr ⟨by omega, hRight, hr.1, by omega, fun j hPos hj hParent => ?_⟩
      rcases (MinHeap.parent_eq_iff hPos).mp hParent with rfl | rfl <;> omega
    · rw [if_neg hr]
      refine Or.inr ⟨by omega, hLeft, hl.1, by omega, fun j hPos hj hParent => ?_⟩
      rcases (MinHeap.parent_eq_iff hPos).mp hParent with rfl | rfl <;> omega
  · rw [if_neg hl]
    by_cases hr : 2 * i + 2 < arr.size ∧ s.wakeKey arr (2 * i + 2) < s.wakeKey arr i
    · rw [if_pos hr]
      refine Or.inr ⟨by omega, hRight, hr.1, by omega, fun j hPos hj hParent => ?_⟩
      rcases (MinHeap.parent_eq_iff hPos).mp hParent with rfl | rfl <;> omega
    · rw [if_neg hr]
      refine Or.inl ⟨rfl, fun j hPos hj hParent => ?_⟩
      rcases (MinHeap.parent_eq_iff hPos).mp hParent with rfl | rfl <;> omega

theorem ordered_siftDown (s : Kernel) (h : MinHeap.Sinking (s.wakeKey arr) arr.size i)
    (hFuel : arr.size ≤ fuel + i) : MinHeap.Ordered (s.wakeKey (s.siftDown fuel arr i)) arr.size := by
  induction fuel generalizing arr i with
  | zero =>
      refine h.stop fun j hPos hj hParent => ?_
      have hLt := MinHeap.parent_lt hPos
      omega
  | succ fuel ih =>
      unfold siftDown
      dsimp only
      rcases least_spec s arr i with ⟨hSame, hLeast⟩ | ⟨hPos, hParent, hLt, hLe, hLeast⟩
      · rw [if_pos hSame]
        exact h.stop hLeast
      · have hUnder := MinHeap.parent_lt hPos
        rw [hParent] at hUnder
        rw [if_neg hUnder.ne']
        obtain ⟨hSelf, hTop, hOther⟩ := wakeKey_swap s hLt (hUnder.trans hLt) hUnder.ne'
        have hNext := h.swap hPos hParent hLt hLe hLeast hSelf hTop fun k hk hki => hOther k hki hk
        rw [← Array.size_swapIfInBounds (i := s.least arr i) (j := i)] at hNext ⊢
        exact ih hNext (by rw [Array.size_swapIfInBounds]; omega)

theorem HeapOrdered.congr (h : s.HeapOrdered) (hSleepers : t.sleepers.arr = s.sleepers.arr)
    (hKey : ∀ q ∈ s.sleepers.arr.toList, (t.pcb q).wakeUp = (s.pcb q).wakeUp) : t.HeapOrdered := by
  unfold HeapOrdered
  rw [hSleepers]
  refine MinHeap.Ordered.congr h fun j hj => ?_
  unfold wakeKey
  rw [hKey]
  simp [Array.getD_eq_getD_getElem?, Array.getElem?_eq_getElem hj]

theorem HeapOrdered.addToHeap {growOk : Bool} (h : s.HeapOrdered) (hAdd : s.addToHeap p growOk = some t) :
    t.HeapOrdered := by
  have hSifted : t.sleepers.arr = s.siftUp s.sleepers.arr.size (s.sleepers.arr.push p) s.sleepers.arr.size ∧
      t.pcb = s.pcb := by
    unfold Kernel.addToHeap at hAdd
    dsimp only at hAdd
    split_ifs at hAdd <;> cases hAdd <;> exact ⟨rfl, rfl⟩
  have hKey : t.wakeKey = s.wakeKey := by
    funext arr i
    rw [wakeKey, wakeKey, hSifted.2]
  have hSize := (perm_siftUp s s.sleepers.arr.size (s.sleepers.arr.push p) s.sleepers.arr.size).length_eq
  simp only [Array.length_toList] at hSize
  unfold HeapOrdered
  rw [hKey, hSifted.1, hSize]
  refine ordered_siftUp s ?_ (by simp) (Nat.le_refl _)
  rw [Array.size_push]
  refine MinHeap.Ordered.push h fun j hj => ?_
  simp [wakeKey, Array.getD_eq_getD_getElem?, Array.getElem?_push, hj.ne]

theorem HeapOrdered.removeFromHeap {shrinkOk : Bool} (h : s.HeapOrdered)
    (hRemove : s.removeFromHeap shrinkOk = (t, some p)) : t.HeapOrdered := by
  unfold Kernel.removeFromHeap at hRemove
  split at hRemove
  · simp at hRemove
  · rename_i root hRoot
    obtain ⟨rfl, -⟩ := Prod.mk.inj hRemove
    obtain ⟨hPos, -⟩ := Array.getElem?_eq_some_iff.mp hRoot
    obtain ⟨n, hn⟩ : ∃ n, s.sleepers.arr.size = n + 1 := ⟨_, (Nat.succ_pred_eq_of_pos hPos).symm⟩
    have hSize := (perm_siftDown s (s.sleepers.arr.swapIfInBounds 0 (s.sleepers.arr.size - 1)).pop.size
      (s.sleepers.arr.swapIfInBounds 0 (s.sleepers.arr.size - 1)).pop 0).length_eq
    simp only [Array.length_toList] at hSize
    have hSink : MinHeap.Sinking (s.wakeKey (s.sleepers.arr.swapIfInBounds 0 (s.sleepers.arr.size - 1)).pop)
        (s.sleepers.arr.swapIfInBounds 0 (s.sleepers.arr.size - 1)).pop.size 0 := by
      rw [Array.size_pop, Array.size_swapIfInBounds, hn]
      have hOrder : MinHeap.Ordered (s.wakeKey s.sleepers.arr) (n + 1) := hn ▸ h
      refine hOrder.pop fun j hj0 hj => ?_
      have hPop : (s.sleepers.arr.swapIfInBounds 0 (n + 1 - 1)).pop.getD j 0 =
          (s.sleepers.arr.swapIfInBounds 0 (n + 1 - 1)).getD j 0 := by
        simp only [Array.getD_eq_getD_getElem?, Array.getElem?_pop, Array.size_swapIfInBounds, hn]
        rw [if_pos (by omega)]
      unfold wakeKey
      rw [hPop, getD_swapIfInBounds hPos (by omega), if_neg hj0.ne', if_neg (by omega)]
    have hOrder := ordered_siftDown s hSink (Nat.le_refl _)
    rw [← hSize] at hOrder
    exact hOrder

end Order

end Yalnix.Kernel
