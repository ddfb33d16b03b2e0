import Yalnix.Library.Pool
import Yalnix.Sample

/-! The frame allocator as a whole: every sequence of its calls behaves like an
allocator that hands out the lowest free frame, and which bytes of the bitset
the calls touch. -/
namespace Yalnix

open Hardware Pool

namespace Frames

section Model

variable [Hardware]

/-- The frames the allocator is responsible for. -/
def range (f : Frames) : Set Nat := {pfn | pmemBaseFrame ≤ pfn ∧ pfn - pmemBaseFrame < f.numFrames}

/-- The frames that are marked. -/
def inUse (f : Frames) : Set Nat := {pfn | f.used pfn}

/-- A call of the module, with what it returns. -/
def serve (f : Frames) : Request Nat → Frames × Answer Nat
  | .find => (f.findFrame.1, .found f.findFrame.2)
  | .acquire pfn => ((f.acquireFrame pfn).1, .done (f.acquireFrame pfn).2)
  | .free pfn => ((f.freeFrame pfn).1, .done (f.freeFrame pfn).2)

/-- `acquire_frame` does not check its argument, so its callers have to. -/
def Accepts (f : Frames) : Request Nat → Prop
  | .acquire pfn => pfn ∈ f.range
  | _ => True

instance (f : Frames) (request : Request Nat) : Decidable (f.Accepts request) :=
  match request with
  | .find => .isTrue trivial
  | .acquire pfn =>
      inferInstanceAs (Decidable (pmemBaseFrame ≤ pfn ∧ pfn - pmemBaseFrame < f.numFrames))
  | .free _ => .isTrue trivial

/-- Every sequence of calls after `initialize_frame_tracking`. -/
def allocator (pmemSize : Nat) : Transition.System Frames (Request Nat) Unit where
  initial f := f = initializeFrameTracking pmemSize
  step f request := if f.Accepts request then .ok (f.serve request).1 else .error ()

section Acquire

variable {f : Frames} {pfn : Nat}

theorem acquireFrame_ok : (f.acquireFrame pfn).2 = f.checkIfFree (pfn - pmemBaseFrame) := by
  unfold acquireFrame
  cases f.checkIfFree (pfn - pmemBaseFrame) <;> rfl

theorem used_acquireFrame (hRange : pfn ∈ f.range) (other : Nat) :
    (f.acquireFrame pfn).1.used other ↔ other = pfn ∨ f.used other := by
  have hUsed (hBit : f.checkIfFree (pfn - pmemBaseFrame) = false) : f.used pfn := ⟨hRange.1, hRange.2, hBit⟩
  unfold acquireFrame
  cases hBit : f.checkIfFree (pfn - pmemBaseFrame) with
  | false =>
      simp only [Bool.not_false, if_true]
      constructor
      · exact Or.inr
      · rintro (rfl | hOld)
        · exact hUsed hBit
        · exact hOld
  | true =>
      have hSet := f.checkIfFree_setFrame (pfn - pmemBaseFrame) (other - pmemBaseFrame)
      change pmemBaseFrame ≤ other ∧ other - pmemBaseFrame < f.numFrames ∧
        (f.setFrame _).checkIfFree (other - pmemBaseFrame) = false ↔ _
      have hBase : pmemBaseFrame ≤ pfn := hRange.1
      have hLimit : pfn - pmemBaseFrame < f.numFrames := hRange.2
      rw [hSet]
      constructor
      · rintro ⟨hLow, hHigh, hMarked⟩
        split_ifs at hMarked with he
        · exact Or.inl (by omega)
        · exact Or.inr ⟨hLow, hHigh, hMarked⟩
      · rintro (rfl | ⟨hLow, hHigh, hMarked⟩)
        · exact ⟨hBase, hLimit, by simp⟩
        · exact ⟨hLow, hHigh, by simp [hMarked]⟩

@[simp] theorem acquireFrame_numFrames : (f.acquireFrame pfn).1.numFrames = f.numFrames := by
  unfold acquireFrame
  split_ifs <;> rfl

theorem Wf.acquireFrame (hWf : f.Wf) (pfn : Nat) : (f.acquireFrame pfn).1.Wf := by
  unfold Frames.acquireFrame
  split_ifs
  · exact hWf
  · refine ⟨hWf.next_le, fun n hn => ?_⟩
    change (f.setFrame _).checkIfFree n = false
    rw [checkIfFree_setFrame, hWf.below n hn]
    simp

end Acquire

section Refinement

variable {f : Frames}

/-- The search returns the lowest free frame. -/
theorem Wf.findFrame_least (hWf : f.Wf) {pfn : Nat} (h : f.findFrame.2 = some pfn) :
    IsLeast (f.range \ f.inUse) pfn := by
  obtain ⟨-, hLe, hUsed, hFree⟩ := f.seek_spec hWf.next_le (le_refl _)
  simp only [Frames.findFrame] at h
  split_ifs at h with hEnd
  obtain rfl := Option.some.inj h
  have hLt := lt_of_le_of_ne hLe hEnd
  refine ⟨⟨⟨Nat.le_add_left _ _, by simpa using hLt⟩, fun hTaken => ?_⟩, fun other hOther => ?_⟩
  · have hBit := hTaken.2.2
    rw [Nat.add_sub_cancel, hFree hLt] at hBit
    cases hBit
  · obtain ⟨hRange, hNotUsed⟩ := hOther
    by_contra hLess
    refine hNotUsed ⟨hRange.1, hRange.2, ?_⟩
    have hBase : pmemBaseFrame ≤ other := hRange.1
    by_cases hBelow : other - pmemBaseFrame < f.nextFree
    · exact hWf.below _ hBelow
    · exact hUsed _ (not_lt.mp hBelow) (by omega)

theorem inUse_findFrame_none (h : f.findFrame.2 = none) : f.findFrame.1.inUse = f.inUse := by
  ext pfn
  exact findFrame_none h pfn

/-- The bit-level allocator refines the set of marked frames. -/
theorem Wf.serves (hWf : f.Wf) {request : Request Nat} (hAccepts : f.Accepts request) :
    Serves f.range f.inUse request (f.serve request).2 (f.serve request).1.inUse := by
  cases request with
  | find =>
      change Serves f.range f.inUse .find (.found f.findFrame.2) f.findFrame.1.inUse
      cases hFound : f.findFrame.2 with
      | none =>
          rw [inUse_findFrame_none hFound]
          refine .exhausted fun pfn hRange => ?_
          exact ⟨hRange.1, hRange.2, hWf.all_used hFound hRange.2⟩
      | some pfn =>
          have hMarked : f.findFrame.1.inUse = insert pfn f.inUse := by
            ext other
            exact (hWf.findFrame_some hFound).2 other
          rw [hMarked]
          exact .found (hWf.findFrame_least hFound)
  | acquire pfn =>
      change Serves f.range f.inUse (.acquire pfn) (.done (f.acquireFrame pfn).2) (f.acquireFrame pfn).1.inUse
      have hMarked : (f.acquireFrame pfn).1.inUse = insert pfn f.inUse := by
        ext other
        exact used_acquireFrame hAccepts other
      rw [hMarked, acquireFrame_ok]
      cases hBit : f.checkIfFree (pfn - pmemBaseFrame) with
      | false =>
          have hUsed : pfn ∈ f.inUse := ⟨hAccepts.1, hAccepts.2, hBit⟩
          rw [Set.insert_eq_of_mem hUsed]
          exact .refused hUsed
      | true =>
          refine .acquired fun hUsed => ?_
          have hTaken := hUsed.2.2
          rw [hBit] at hTaken
          cases hTaken
  | free pfn =>
      change Serves f.range f.inUse (.free pfn) (.done (f.freeFrame pfn).2) (f.freeFrame pfn).1.inUse
      have hMarked : (f.freeFrame pfn).1.inUse = f.inUse \ {pfn} := by
        ext other
        exact used_freeFrame f pfn other
      by_cases hUsed : f.used pfn
      · have hOk : (f.freeFrame pfn).2 = true := by
          obtain ⟨hBase, hLimit, hBit⟩ := hUsed
          simp only [Frames.freeFrame]
          rw [if_neg (by omega), if_neg (by simp [hBit])]
        rw [hMarked, hOk]
        exact .freed ⟨hUsed.1, hUsed.2.1⟩ hUsed
      · have hFail := f.freeFrame_of_not_used hUsed
        rw [hFail]
        exact .kept fun _ => hUsed

theorem Wf.serve (hWf : f.Wf) (request : Request Nat) : (f.serve request).1.Wf := by
  cases request with
  | find => exact hWf.findFrame
  | acquire pfn => exact hWf.acquireFrame pfn
  | free pfn => exact hWf.freeFrame pfn

theorem wf_initializeFrameTracking (pmemSize : Nat) : (initializeFrameTracking pmemSize).Wf :=
  ⟨Nat.zero_le _, fun _ hn => absurd hn (Nat.not_lt_zero _)⟩

theorem allocator_wf {pmemSize : Nat} (run : (allocator pmemSize).Reachable f) : f.Wf := by
  refine run.invariant (I := Wf) ?_ fun f request g _ hWf _ hStep => ?_
  · rintro f rfl
    exact wf_initializeFrameTracking pmemSize
  · simp only [allocator] at hStep
    split_ifs at hStep
    obtain rfl := Except.ok.inj hStep
    exact hWf.serve request

end Refinement

section Bitset

/-- The bytes that the search loop looks at. At `NUM_FRAMES` it still tests the
bit before the bound. -/
def seekBytes (f : Frames) : Nat → Nat → List Nat
  | 0, next => [next >>> 3]
  | fuel + 1, next =>
      (next >>> 3) :: if !f.checkIfFree next && next < f.numFrames then seekBytes f fuel (next + 1) else []

/-- The indices of `frame_bitset` that a call reads or writes. -/
def touches (f : Frames) : Request Nat → List Nat
  | .find =>
      let next := f.seek (f.numFrames - f.nextFree) f.nextFree
      f.seekBytes (f.numFrames - f.nextFree) f.nextFree ++ if next = f.numFrames then [] else [next >>> 3]
  | .acquire pfn =>
      let byte := (pfn - pmemBaseFrame) >>> 3
      if !f.checkIfFree (pfn - pmemBaseFrame) then [byte] else [byte, byte]
  | .free pfn =>
      let byte := (pfn - pmemBaseFrame) >>> 3
      if pfn < pmemBaseFrame ∨ f.numFrames ≤ pfn - pmemBaseFrame then []
      else if f.checkIfFree (pfn - pmemBaseFrame) then [byte] else [byte, byte]

variable {f : Frames}

omit [Hardware] in
theorem seekBytes_le {fuel next i : Nat} (hNext : next ≤ f.numFrames) (hi : i ∈ f.seekBytes fuel next) :
    i ≤ f.numFrames / 8 := by
  have hByte : next >>> 3 ≤ f.numFrames / 8 := by
    rw [Nat.shiftRight_eq_div_pow]
    exact Nat.div_le_div_right hNext
  induction fuel generalizing next with
  | zero =>
      rw [seekBytes, List.mem_singleton] at hi
      exact hi ▸ hByte
  | succ fuel ih =>
      unfold seekBytes at hi
      split_ifs at hi with hStep
      · rcases List.mem_cons.mp hi with rfl | hRest
        · exact hByte
        · simp only [Bool.and_eq_true, decide_eq_true_eq] at hStep
          refine ih hStep.2 hRest ?_
          rw [Nat.shiftRight_eq_div_pow]
          exact Nat.div_le_div_right hStep.2
      · rw [List.mem_singleton] at hi
        exact hi ▸ hByte

/-- No call goes beyond the byte of the frame after the last one. -/
theorem Wf.touches_le (hWf : f.Wf) {request : Request Nat} (hAccepts : f.Accepts request) {i : Nat}
    (hi : i ∈ f.touches request) : i ≤ f.numFrames / 8 := by
  have hByte {n : Nat} (hn : n ≤ f.numFrames) : n >>> 3 ≤ f.numFrames / 8 := by
    rw [Nat.shiftRight_eq_div_pow]
    exact Nat.div_le_div_right hn
  cases request with
  | find =>
      obtain ⟨-, hLe, -, -⟩ := f.seek_spec hWf.next_le (le_refl _)
      simp only [touches, List.mem_append] at hi
      rcases hi with hi | hi
      · exact seekBytes_le hWf.next_le hi
      · split_ifs at hi
        · cases hi
        · rw [List.mem_singleton] at hi
          exact hi ▸ hByte hLe
  | acquire pfn =>
      have hLimit : pfn - pmemBaseFrame < f.numFrames := hAccepts.2
      have hOnly : i = (pfn - pmemBaseFrame) >>> 3 := by
        simp only [touches] at hi
        split_ifs at hi <;> simpa using hi
      exact hOnly ▸ hByte hLimit.le
  | free pfn =>
      simp only [touches] at hi
      split_ifs at hi with hRange hFree
      · cases hi
      · have hOnly : i = (pfn - pmemBaseFrame) >>> 3 := by simpa using hi
        exact hOnly ▸ hByte (by omega)
      · have hOnly : i = (pfn - pmemBaseFrame) >>> 3 := by simpa using hi
        exact hOnly ▸ hByte (by omega)

omit [Hardware] in
/-- The macro clears bit 3 of the rounded count, so that the size in bytes is
always even. -/
theorem upToByte_shift {n : Nat} (hn : n < 2 ^ 31) : (upToByte n >>> 3).toNat = 2 * ((n + 7) / 16) := by
  have hSum : (BitVec.ofNat 32 n + 7).toNat = n + 7 := by
    rw [BitVec.toNat_add, BitVec.toNat_ofNat]
    simp only [BitVec.reduceToNat]
    omega
  have hShift : upToByte n >>> 3 = ((BitVec.ofNat 32 n + 7) >>> 4) <<< 1 := by
    rw [upToByte]
    generalize BitVec.ofNat 32 n + 7 = x
    rw [BitVec.eq_of_getLsbD_eq_iff]
    intro i hi
    have hEight : (8 : Word).getLsbD (3 + i) = decide (i = 0) := by
      have hPower : (8 : Word).toNat = 2 ^ 3 := rfl
      rw [BitVec.getLsbD, hPower, Nat.testBit_two_pow]
      exact decide_eq_decide.mpr (by omega)
    simp only [BitVec.getLsbD_ushiftRight, BitVec.getLsbD_and, BitVec.getLsbD_not, hEight,
      BitVec.getLsbD_shiftLeft, hi, decide_true, Bool.true_and]
    by_cases hZero : i = 0
    · simp [hZero]
    · rw [show 4 + (i - 1) = 3 + i by omega]
      by_cases hIn : 3 + i < 32
      · simp only [hZero, hIn, decide_true, decide_false, Bool.not_false, Bool.and_true]
        simp
        omega
      · rw [BitVec.getLsbD_of_ge x _ (by omega)]
        simp
  rw [hShift, BitVec.toNat_shiftLeft, BitVec.toNat_ushiftRight, hSum, Nat.shiftRight_eq_div_pow,
    Nat.shiftLeft_eq]
  omega

/-- After `n` searches the first `n` frames are taken. -/
theorem exists_searched (pmemSize : Nat) {n : Nat} (hn : n ≤ (initializeFrameTracking pmemSize).numFrames) :
    ∃ f, (allocator pmemSize).Reachable f ∧ f.nextFree = n ∧
      f.numFrames = (initializeFrameTracking pmemSize).numFrames ∧
      f.bitsetSize = (initializeFrameTracking pmemSize).bitsetSize ∧
      ∀ k, f.checkIfFree k = decide (n ≤ k) := by
  induction n with
  | zero => exact ⟨_, .initial rfl, rfl, rfl, rfl, fun k => by simp [initializeFrameTracking, checkIfFree]⟩
  | succ n ih =>
      obtain ⟨f, run, hNext, hFrames, hSize, hFree⟩ := ih (Nat.le_of_succ_le hn)
      have hSeek : f.seek (f.numFrames - f.nextFree) f.nextFree = n := by
        have hFuel : f.numFrames - f.nextFree = (f.numFrames - n - 1) + 1 := by omega
        rw [hFuel, hNext]
        simp [seek, hFree]
      have hFound : f.findFrame.1 = { f.setFrame n with nextFree := n + 1 } := by
        simp only [findFrame, hSeek]
        rw [if_neg (by omega)]
      have hStep : (allocator pmemSize).step f .find = .ok f.findFrame.1 := rfl
      refine ⟨f.findFrame.1, .step run trivial hStep, ?_, ?_, ?_, fun k => ?_⟩
      · rw [hFound]
      · rw [hFound]
        exact hFrames
      · rw [hFound]
        exact hSize
      · rw [hFound]
        change (f.setFrame n).checkIfFree k = _
        rw [checkIfFree_setFrame, hFree]
        by_cases hk : k = n
        · simp [hk]
        · simp only [hk, if_false]
          exact decide_eq_decide.mpr (by omega)

omit [Hardware] in
theorem mem_seekBytes_end {fuel next : Nat} (hFuel : f.numFrames - next ≤ fuel) (hNext : next ≤ f.numFrames)
    (hUsed : ∀ k < f.numFrames, f.checkIfFree k = false) : f.numFrames / 8 ∈ f.seekBytes fuel next := by
  have hByte : f.numFrames >>> 3 = f.numFrames / 8 := Nat.shiftRight_eq_div_pow _ 3
  induction fuel generalizing next with
  | zero =>
      obtain rfl : next = f.numFrames := by omega
      simp [seekBytes, hByte]
  | succ fuel ih =>
      unfold seekBytes
      by_cases hEnd : next = f.numFrames
      · rw [hEnd, hByte]
        exact List.mem_cons_self
      · have hLess := Nat.lt_of_le_of_ne hNext hEnd
        rw [if_pos (by simp [hUsed next hLess, hLess])]
        exact List.mem_cons_of_mem _ (ih (by omega) hLess)

theorem constants_reachable {pmemSize : Nat} (run : (allocator pmemSize).Reachable f) :
    f.numFrames = (initializeFrameTracking pmemSize).numFrames ∧
      f.bitsetSize = (initializeFrameTracking pmemSize).bitsetSize := by
  refine run.invariant (I := fun f => f.numFrames = _ ∧ f.bitsetSize = _) ?_ fun f request g _ hOld _ hStep => ?_
  · rintro f rfl
    exact ⟨rfl, rfl⟩
  · simp only [allocator] at hStep
    split_ifs at hStep
    obtain rfl := Except.ok.inj hStep
    refine ⟨Eq.trans ?_ hOld.1, Eq.trans ?_ hOld.2⟩
    · cases request with
      | find => exact findFrame_numFrames f
      | acquire pfn => exact acquireFrame_numFrames
      | free pfn => exact freeFrame_numFrames f pfn
    · cases request with
      | find =>
          simp only [serve, findFrame]
          split_ifs <;> rfl
      | acquire pfn =>
          simp only [serve, acquireFrame]
          split_ifs <;> rfl
      | free pfn =>
          simp only [serve, freeFrame]
          split_ifs <;> rfl

end Bitset

end Model

/-- The frame allocator refines a set of frames: it hands out the lowest free
one, and every other call changes at most the frame it names. -/
theorem allocator_refines [Hardware] {pmemSize : Nat} {f : Frames} (run : (allocator pmemSize).Reachable f) :
    (initializeFrameTracking pmemSize).inUse = ∅ ∧
    ((f.findFrame.2 = none ↔ f.range ⊆ f.inUse) ∧ (f.findFrame.2 = none → f.findFrame.1.inUse = f.inUse) ∧
      ∀ pfn, f.findFrame.2 = some pfn →
        IsLeast (f.range \ f.inUse) pfn ∧ f.findFrame.1.inUse = insert pfn f.inUse) ∧
    (∀ pfn ∈ f.range, ((f.acquireFrame pfn).2 = true ↔ pfn ∉ f.inUse) ∧
      ((f.acquireFrame pfn).2 = true → (f.acquireFrame pfn).1.inUse = insert pfn f.inUse) ∧
      ((f.acquireFrame pfn).2 = false → (f.acquireFrame pfn).1.inUse = f.inUse)) ∧
    (∀ pfn, ((f.freeFrame pfn).2 = true ↔ pfn ∈ f.range ∧ pfn ∈ f.inUse) ∧
      ((f.freeFrame pfn).2 = true → (f.freeFrame pfn).1.inUse = f.inUse \ {pfn}) ∧
      ((f.freeFrame pfn).2 = false → (f.freeFrame pfn).1 = f)) := by
  have hWf := allocator_wf run
  have hFind : Serves f.range f.inUse .find (.found f.findFrame.2) f.findFrame.1.inUse :=
    hWf.serves (trivial : f.Accepts .find)
  refine ⟨?_, ⟨hFind.find_none_iff, inUse_findFrame_none, fun pfn hFound => ?_⟩, fun pfn hRange => ?_, fun pfn => ?_⟩
  · ext pfn
    simp [inUse, used, initializeFrameTracking, checkIfFree]
  · rw [hFound] at hFind
    exact hFind.find_some
  · have hAcquire : Serves f.range f.inUse (.acquire pfn) (.done (f.acquireFrame pfn).2)
        (f.acquireFrame pfn).1.inUse := hWf.serves (hRange : f.Accepts (.acquire pfn))
    obtain ⟨hOk, hAfter⟩ := hAcquire.acquire
    exact ⟨hOk, fun h => by simpa [h] using hAfter, fun h => by simpa [h] using hAfter⟩
  · have hFree : Serves f.range f.inUse (.free pfn) (.done (f.freeFrame pfn).2) (f.freeFrame pfn).1.inUse :=
      hWf.serves (trivial : f.Accepts (.free pfn))
    obtain ⟨hOk, hAfter⟩ := hFree.free
    refine ⟨hOk, fun h => by simpa [h] using hAfter, fun h => ?_⟩
    have hNot : ¬f.used pfn := by
      intro hUsed
      rw [hOk.mpr ⟨⟨hUsed.1, hUsed.2.1⟩, hUsed⟩] at h
      cases h
    rw [f.freeFrame_of_not_used hNot]

open Sample in
/-- The allocator after one search. -/
theorem allocator_refines_second : ∃ f : Frames, (allocator 480).Reachable f ∧ f.findFrame.2 = some 1 ∧
    IsLeast (f.range \ f.inUse) 1 := by
  have hRun : ∃ f : Frames, (allocator 480).Reachable f ∧ f.findFrame.2 = some 1 :=
    Transition.System.exists_reachable [.find] rfl (by decide +kernel)
  obtain ⟨f, run, hFound⟩ := hRun
  exact ⟨f, run, hFound, ((allocator_refines run).2.1.2.2 1 hFound).1⟩

/-- The bitset has a byte for every index that is ever used, the one tested when
all frames are taken included, exactly for these frame counts. -/
theorem bitset_covers_iff [Hardware] {pmemSize : Nat} (hInt : pmemSize < 2 ^ 31) :
    ((initializeFrameTracking pmemSize).numFrames ≤ 8 * (initializeFrameTracking pmemSize).bitsetSize ∧
      ∀ f, (allocator pmemSize).Reachable f → ∀ request, f.Accepts request →
        ∀ i ∈ f.touches request, i < f.bitsetSize) ↔
    9 ≤ (initializeFrameTracking pmemSize).numFrames % 16 := by
  have hCount : (initializeFrameTracking pmemSize).numFrames < 2 ^ 31 := by
    have hDiv : pmemSize / pageSize ≤ pmemSize := Nat.div_le_self _ _
    simp only [initializeFrameTracking]
    omega
  have hSize : (initializeFrameTracking pmemSize).bitsetSize =
      2 * (((initializeFrameTracking pmemSize).numFrames + 7) / 16) := upToByte_shift hCount
  constructor
  · rintro ⟨hEnough, hInside⟩
    obtain ⟨f, run, hNext, hFrames, hSame, hFree⟩ := exists_searched pmemSize (le_refl _)
    have hLast : f.numFrames / 8 ∈ f.touches .find := by
      refine List.mem_append_left _ (mem_seekBytes_end (le_refl _) (by omega) fun k hk => ?_)
      rw [hFree]
      simpa [← hFrames] using hk
    have hLess := hInside f run .find trivial _ hLast
    rw [hFrames, hSame, hSize] at hLess
    rw [hSize] at hEnough
    omega
  · intro hRest
    refine ⟨by omega, fun f run request hAccepts i hi => ?_⟩
    obtain ⟨hFrames, hSame⟩ := constants_reachable run
    have hLe := (allocator_wf run).touches_le hAccepts hi
    rw [hFrames] at hLe
    rw [hSame, hSize]
    omega

open Sample in
/-- For 30 frames the two roundings cancel out. -/
theorem bitset_covers_thirty :
    ((initializeFrameTracking 480).numFrames ≤ 8 * (initializeFrameTracking 480).bitsetSize ∧
      ∀ f, (allocator 480).Reachable f → ∀ request, f.Accepts request →
        ∀ i ∈ f.touches request, i < f.bitsetSize) ↔
    9 ≤ (initializeFrameTracking 480).numFrames % 16 := bitset_covers_iff (by decide)

open Sample in
/-- For 17 frames two bytes are allocated, where three are needed. -/
theorem bitset_covers_fails : (initializeFrameTracking 272).numFrames = 17 ∧
    (initializeFrameTracking 272).bitsetSize = 2 ∧ (initializeFrameTracking 272).Accepts (.acquire 16) ∧
    ∃ i ∈ (initializeFrameTracking 272).touches (.acquire 16), ¬i < (initializeFrameTracking 272).bitsetSize := by
  decide +kernel

end Frames
end Yalnix
