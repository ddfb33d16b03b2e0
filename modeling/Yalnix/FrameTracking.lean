import Yalnix.Hardware
import Mathlib.Tactic.IntervalCases

/-! The physical frame allocator of `frame_tracking.c`: one bit for each frame
and the index below which no frame is free. -/
namespace Yalnix

open Hardware

variable [Hardware]

/-- The statics of the module. Bytes outside the allocated set are kept as
well, so that an access past its end has a value; `bitsetSize` is what was
allocated. -/
structure Frames where
  bitset : Nat → Byte
  bitsetSize : Nat
  nextFree : Nat
  numFrames : Nat

namespace Frames

/-- `UP_TO_BYTE`. The mask is the complement of `BYTE_SIZE` itself. -/
def upToByte (n : Nat) : Word := (BitVec.ofNat 32 n + 7) &&& ~~~8

def initializeFrameTracking (pmemSize : Nat) : Frames :=
  let numFrames := pmemSize / pageSize - pmemBaseFrame
  { bitset := fun _ => 0
    bitsetSize := (upToByte numFrames >>> 3).toNat
    nextFree := 0
    numFrames := numFrames }

/-- `mask` of a frame's bit inside its byte. -/
def mask (frameNum : Nat) : Byte := 1#8 <<< (frameNum &&& 7)

def checkIfFree (f : Frames) (frameNum : Nat) : Bool :=
  if f.bitset (frameNum >>> 3) = 0xff#8 then false
  else f.bitset (frameNum >>> 3) &&& mask frameNum = 0#8

def setFrame (f : Frames) (frameNum : Nat) : Frames :=
  { f with
    bitset := Function.update f.bitset (frameNum >>> 3)
      (f.bitset (frameNum >>> 3) ||| mask frameNum) }

def clearFrame (f : Frames) (frameNum : Nat) : Frames :=
  { f with
    bitset := Function.update f.bitset (frameNum >>> 3)
      (f.bitset (frameNum >>> 3) &&& ~~~mask frameNum) }

/-- The search loop of `find_frame`. It stops at `NUM_FRAMES` at the latest. -/
def seek (f : Frames) : Nat → Nat → Nat
  | 0, next => next
  | fuel + 1, next =>
      if !f.checkIfFree next && next < f.numFrames then seek f fuel (next + 1) else next

/-- `find_frame`; `none` is the return value `ERROR`. -/
def findFrame (f : Frames) : Frames × Option Nat :=
  let next := f.seek (f.numFrames - f.nextFree) f.nextFree
  if next = f.numFrames then ({ f with nextFree := next }, none)
  else ({ f.setFrame next with nextFree := next + 1 }, some (next + pmemBaseFrame))

def acquireFrame (f : Frames) (pfn : Nat) : Frames × Bool :=
  if !f.checkIfFree (pfn - pmemBaseFrame) then (f, false)
  else (f.setFrame (pfn - pmemBaseFrame), true)

def freeFrame (f : Frames) (frameNum : Nat) : Frames × Bool :=
  if frameNum < pmemBaseFrame ∨ f.numFrames ≤ frameNum - pmemBaseFrame then (f, false)
  else if f.checkIfFree (frameNum - pmemBaseFrame) then (f, false)
  else
    let cleared := f.clearFrame (frameNum - pmemBaseFrame)
    ({ cleared with nextFree := min (frameNum - pmemBaseFrame) f.nextFree }, true)

/-- The frame is one of the tracked frames and its bit is set. -/
def used (f : Frames) (pfn : Nat) : Prop :=
  pmemBaseFrame ≤ pfn ∧ pfn - pmemBaseFrame < f.numFrames ∧
    f.checkIfFree (pfn - pmemBaseFrame) = false

instance (f : Frames) (pfn : Nat) : Decidable (f.used pfn) :=
  inferInstanceAs (Decidable (_ ∧ _))

omit [Hardware] in
private theorem shift_eq (frameNum : Nat) : frameNum >>> 3 = frameNum / 8 :=
  Nat.shiftRight_eq_div_pow frameNum 3

omit [Hardware] in
/-- The mask of a frame selects the bit at its position inside the byte. -/
theorem getLsbD_mask (frameNum : Nat) {j : Nat} (hj : j < 8) :
    (mask frameNum).getLsbD j = decide (j = frameNum % 8) := by
  have hMod : frameNum &&& 7 = frameNum % 8 := Nat.and_two_pow_sub_one_eq_mod frameNum 3
  have hLt : frameNum % 8 < 8 := Nat.mod_lt _ (by decide)
  rw [mask, hMod, BitVec.getLsbD_shiftLeft]
  by_cases he : j = frameNum % 8
  · simp [he, hLt]
  · have hCases : j < frameNum % 8 ∨ j - frameNum % 8 ≠ 0 := by omega
    rcases hCases with hLess | hMore
    · simp [hj, hLess, he]
    · simp [hj, hMore, he]

omit [Hardware] in
/-- The full-byte shortcut never changes the answer: a frame is free exactly
when its bit is clear. -/
theorem checkIfFree_eq (f : Frames) (frameNum : Nat) :
    f.checkIfFree frameNum = !(f.bitset (frameNum / 8)).getLsbD (frameNum % 8) := by
  have hLt : frameNum % 8 < 8 := Nat.mod_lt _ (by decide)
  rw [checkIfFree, shift_eq]
  generalize f.bitset (frameNum / 8) = byte
  by_cases hFull : byte = 0xff#8
  · subst hFull
    have hOnes : ∀ i : Fin 8, (0xff#8).getLsbD i.val = true := by decide
    simpa using hOnes ⟨frameNum % 8, hLt⟩
  · rw [if_neg hFull]
    have hBit : byte &&& mask frameNum = 0#8 ↔ byte.getLsbD (frameNum % 8) = false := by
      rw [BitVec.eq_of_getLsbD_eq_iff]
      constructor
      · intro h
        simpa [getLsbD_mask frameNum hLt] using h (frameNum % 8) hLt
      · intro h i hi
        rw [BitVec.getLsbD_and, getLsbD_mask frameNum hi]
        by_cases he : i = frameNum % 8
        · simp [he, h]
        · simp [he]
    cases hb : byte.getLsbD (frameNum % 8) <;> simp [hBit, hb]

omit [Hardware] in
theorem checkIfFree_setFrame (f : Frames) (frameNum other : Nat) :
    (f.setFrame frameNum).checkIfFree other =
      if other = frameNum then false else f.checkIfFree other := by
  simp only [checkIfFree_eq, setFrame, shift_eq]
  by_cases hDiv : other / 8 = frameNum / 8
  · rw [hDiv, Function.update_self, BitVec.getLsbD_or,
      getLsbD_mask frameNum (Nat.mod_lt other (by decide))]
    by_cases he : other = frameNum
    · simp [he]
    · have hMod : other % 8 ≠ frameNum % 8 := by omega
      simp [he, hMod]
  · have he : other ≠ frameNum := by rintro rfl; exact hDiv rfl
    rw [Function.update_of_ne hDiv, if_neg he]

omit [Hardware] in
theorem checkIfFree_clearFrame (f : Frames) (frameNum other : Nat) :
    (f.clearFrame frameNum).checkIfFree other =
      if other = frameNum then true else f.checkIfFree other := by
  have hLt : other % 8 < 8 := Nat.mod_lt _ (by decide)
  simp only [checkIfFree_eq, clearFrame, shift_eq]
  by_cases hDiv : other / 8 = frameNum / 8
  · rw [hDiv, Function.update_self, BitVec.getLsbD_and, BitVec.getLsbD_not,
      getLsbD_mask frameNum hLt]
    by_cases he : other = frameNum
    · simp [he]
    · have hMod : other % 8 ≠ frameNum % 8 := by omega
      simp [he, hMod, hLt]
  · have he : other ≠ frameNum := by rintro rfl; exact hDiv rfl
    rw [Function.update_of_ne hDiv, if_neg he]

/-- Frames outside the tracked range and frames below `next_free` are never
handed out, so the search may start at `next_free`. -/
structure Wf (f : Frames) : Prop where
  next_le : f.nextFree ≤ f.numFrames
  below : ∀ n < f.nextFree, f.checkIfFree n = false

omit [Hardware] in
/-- The search skips only frames in use and stops at a free frame or at the
end, given as many steps as frames are left. -/
theorem seek_spec (f : Frames) {fuel next : Nat} (hNext : next ≤ f.numFrames)
    (hFuel : f.numFrames - next ≤ fuel) :
    next ≤ f.seek fuel next ∧ f.seek fuel next ≤ f.numFrames ∧
      (∀ n, next ≤ n → n < f.seek fuel next → f.checkIfFree n = false) ∧
      (f.seek fuel next < f.numFrames → f.checkIfFree (f.seek fuel next) = true) := by
  induction fuel generalizing next with
  | zero =>
      have hEnd : next = f.numFrames := by omega
      simp only [seek]
      exact ⟨le_refl _, hNext, fun n h h' => by omega, fun h => by omega⟩
  | succ fuel ih =>
      simp only [seek]
      split_ifs with hStep
      · simp only [Bool.and_eq_true, Bool.not_eq_true', decide_eq_true_eq] at hStep
        obtain ⟨hLe, hEnd, hUsed, hFree⟩ := ih (by omega : next + 1 ≤ _) (by omega)
        refine ⟨by omega, hEnd, fun n h h' => ?_, hFree⟩
        by_cases he : n = next
        · exact he ▸ hStep.1
        · exact hUsed n (by omega) h'
      · simp only [Bool.and_eq_true, Bool.not_eq_true', decide_eq_true_eq, not_and]
          at hStep
        refine ⟨le_refl _, hNext, fun n h h' => by omega, fun h => ?_⟩
        by_contra hNot
        exact hStep (by simpa using hNot) h

theorem findFrame_none {f : Frames} (h : f.findFrame.2 = none) :
    ∀ pfn, f.findFrame.1.used pfn ↔ f.used pfn := by
  simp only [findFrame] at h ⊢
  split_ifs at h ⊢ with hEnd
  intro pfn
  rfl

/-- Exhaustion is reported only when every tracked frame is in use. -/
theorem Wf.all_used {f : Frames} (hWf : f.Wf) (h : f.findFrame.2 = none) {n : Nat}
    (hn : n < f.numFrames) : f.checkIfFree n = false := by
  obtain ⟨-, -, hUsed, -⟩ := f.seek_spec hWf.next_le (le_refl _)
  simp only [findFrame] at h
  split_ifs at h with hEnd
  by_cases hBelow : n < f.nextFree
  · exact hWf.below n hBelow
  · exact hUsed n (by omega) (by omega)

/-- A frame handed out was free before, and it alone is marked. -/
theorem Wf.findFrame_some {f : Frames} (hWf : f.Wf) {pfn : Nat}
    (h : f.findFrame.2 = some pfn) :
    ¬ f.used pfn ∧ ∀ other, f.findFrame.1.used other ↔ other = pfn ∨ f.used other := by
  obtain ⟨-, hLe, -, hFree⟩ := f.seek_spec hWf.next_le (le_refl _)
  simp only [findFrame] at h ⊢
  split_ifs at h ⊢ with hEnd
  obtain rfl := Option.some.inj h
  have hLt := lt_of_le_of_ne hLe hEnd
  refine ⟨fun hUsed => ?_, fun other => ?_⟩
  · have hBit := hUsed.2.2
    rw [Nat.add_sub_cancel, hFree hLt] at hBit
    cases hBit
  · have hSet := f.checkIfFree_setFrame (f.seek (f.numFrames - f.nextFree) f.nextFree)
      (other - pmemBaseFrame)
    change pmemBaseFrame ≤ other ∧ other - pmemBaseFrame < f.numFrames ∧
      (f.setFrame _).checkIfFree (other - pmemBaseFrame) = false ↔ _
    rw [hSet]
    constructor
    · rintro ⟨hBase, hRange, hBit⟩
      split_ifs at hBit with he
      · exact Or.inl (by omega)
      · exact Or.inr ⟨hBase, hRange, hBit⟩
    · rintro (rfl | ⟨hBase, hRange, hBit⟩)
      · exact ⟨by omega, by omega, by simp⟩
      · exact ⟨hBase, hRange, by simp [hBit]⟩

theorem Wf.findFrame {f : Frames} (hWf : f.Wf) : f.findFrame.1.Wf := by
  obtain ⟨hNext, hLe, hUsed, -⟩ := f.seek_spec hWf.next_le (le_refl _)
  have hBelow : ∀ n < f.seek (f.numFrames - f.nextFree) f.nextFree, f.checkIfFree n = false := by
    intro n hn
    by_cases hOld : n < f.nextFree
    · exact hWf.below n hOld
    · exact hUsed n (by omega) hn
  simp only [Frames.findFrame]
  split_ifs with hEnd
  · exact ⟨hLe, hBelow⟩
  · refine ⟨Nat.succ_le_of_lt (lt_of_le_of_ne hLe hEnd), fun n hn => ?_⟩
    change (f.setFrame _).checkIfFree n = false
    rw [checkIfFree_setFrame]
    split_ifs with he
    · rfl
    · exact hBelow n (by dsimp only at hn; omega)

/-- Freeing a frame unmarks that frame and no other, also when it fails. -/
theorem used_freeFrame (f : Frames) (pfn other : Nat) :
    (f.freeFrame pfn).1.used other ↔ f.used other ∧ other ≠ pfn := by
  simp only [freeFrame]
  split_ifs with hRange hFree
  · refine ⟨fun h => ⟨h, ?_⟩, fun h => h.1⟩
    rintro rfl
    obtain ⟨hBase, hLt, -⟩ := h
    dsimp only at hLt
    omega
  · refine ⟨fun h => ⟨h, ?_⟩, fun h => h.1⟩
    rintro rfl
    rw [h.2.2] at hFree
    cases hFree
  · change pmemBaseFrame ≤ other ∧ other - pmemBaseFrame < f.numFrames ∧
      (f.clearFrame _).checkIfFree (other - pmemBaseFrame) = false ↔ _
    rw [checkIfFree_clearFrame]
    constructor
    · rintro ⟨hBase, hLt, hBit⟩
      split_ifs at hBit with he
      exact ⟨⟨hBase, hLt, hBit⟩, fun h => he (by rw [h])⟩
    · rintro ⟨⟨hBase, hLt, hBit⟩, hNe⟩
      refine ⟨hBase, hLt, ?_⟩
      rw [if_neg (by omega), hBit]

/-- Freeing a frame that is not marked fails and leaves everything as it is. -/
theorem freeFrame_of_not_used (f : Frames) {pfn : Nat} (h : ¬f.used pfn) : f.freeFrame pfn = (f, false) := by
  simp only [freeFrame]
  split_ifs with hRange hFree
  · rfl
  · rfl
  · exact absurd ⟨by omega, by omega, by simpa using hFree⟩ h

theorem Wf.freeFrame {f : Frames} (hWf : f.Wf) (pfn : Nat) : (f.freeFrame pfn).1.Wf := by
  simp only [Frames.freeFrame]
  split_ifs with hRange hFree
  · exact hWf
  · exact hWf
  · refine ⟨(min_le_right _ _).trans hWf.next_le, fun n hn => ?_⟩
    change n < min (pfn - pmemBaseFrame) f.nextFree at hn
    change (f.clearFrame _).checkIfFree n = false
    rw [lt_min_iff] at hn
    rw [checkIfFree_clearFrame, if_neg (by omega)]
    exact hWf.below n hn.2

@[simp] theorem findFrame_numFrames (f : Frames) : f.findFrame.1.numFrames = f.numFrames := by
  simp only [findFrame]
  split_ifs <;> rfl

@[simp] theorem freeFrame_numFrames (f : Frames) (pfn : Nat) :
    (f.freeFrame pfn).1.numFrames = f.numFrames := by
  simp only [freeFrame]
  split_ifs <;> rfl

end Frames
end Yalnix
