import Yalnix.Library.Segments
import Yalnix.Memory.Pages
import Mathlib.Data.Int.ConditionallyCompleteOrder

/-! The bytes of region 1 as the running process sees them: what a store writes
is found at its address, and the bytes at other addresses stay. -/
namespace Yalnix

open Hardware Segments

namespace Memory

variable [Hardware] {m m' : Memory} {addr x y : Int} {bytes : List Byte}

/-- The byte an address of region 1 denotes. -/
def byteAt (m : Memory) (addr : Int) : Byte := m.pmem (m.frameOf addr) (offsetOf addr)

/-- The address lies on a valid page of region 1. -/
structure Mapped (m : Memory) (addr : Int) : Prop where
  low : vmem1Base ≤ addr
  high : addr < vmem1Limit
  valid : (m.region1Pt (addr / pageSize - region1BaseVpn)).valid = true

/-- Each valid page of region 1 has a frame of its own. -/
def OwnFrames (m : Memory) : Prop :=
  ∀ i j : Int, 0 ≤ i → i < region1Vpns → 0 ≤ j → j < region1Vpns → (m.region1Pt i).valid = true →
    (m.region1Pt j).valid = true → (m.region1Pt i).pfn = (m.region1Pt j).pfn → i = j

theorem page_bounds (hLow : vmem1Base ≤ addr) (hHigh : addr < vmem1Limit) :
    0 ≤ addr / pageSize - region1BaseVpn ∧ addr / pageSize - region1BaseVpn < region1Vpns := by
  have hSize : (0 : Int) < pageSize := Int.natCast_pos.mpr pageSize_pos
  have hFirst : region1BaseVpn ≤ addr / pageSize := (Int.le_ediv_iff_mul_le hSize).mpr hLow
  have hLast : addr / pageSize < region1LimitVpn := (Int.ediv_lt_iff_lt_mul hSize).mpr hHigh
  unfold region1LimitVpn at hLast
  omega

theorem hasPerms_iff {needsWrite : Bool} : m.hasPerms addr needsWrite = true ↔
    m.Mapped addr ∧ (m.region1Pt (addr / pageSize - region1BaseVpn)).prot.read = true ∧
      (needsWrite = true → (m.region1Pt (addr / pageSize - region1BaseVpn)).prot.write = true) := by
  unfold hasPerms
  dsimp only
  split_ifs with hOut
  · simp only [false_iff]
    rintro ⟨hMapped, -⟩
    have hLow := hMapped.low
    have hHigh := hMapped.high
    omega
  · rw [not_or, not_lt, not_le] at hOut
    simp only [Bool.and_eq_true, Bool.or_eq_true, Bool.not_eq_true']
    constructor
    · rintro ⟨hValid, hRead, hWrite⟩
      exact ⟨⟨hOut.1, hOut.2, hValid⟩, hRead, fun hNeeds => hWrite.resolve_left (by simp [hNeeds])⟩
    · rintro ⟨hMapped, hRead, hWrite⟩
      refine ⟨hMapped.valid, hRead, ?_⟩
      cases needsWrite with
      | false => exact Or.inl rfl
      | true => exact Or.inr (hWrite rfl)

/-- Two mapped addresses with one byte are one address. -/
theorem OwnFrames.injective (h : m.OwnFrames) (hx : m.Mapped x) (hy : m.Mapped y)
    (hFrame : m.frameOf x = m.frameOf y) (hOffset : offsetOf x = offsetOf y) : x = y := by
  have hSize : (0 : Int) < pageSize := Int.natCast_pos.mpr pageSize_pos
  obtain ⟨hxLow, hxHigh⟩ := page_bounds hx.low hx.high
  obtain ⟨hyLow, hyHigh⟩ := page_bounds hy.low hy.high
  have hPage : x / pageSize = y / pageSize := by
    have hIndex := h _ _ hxLow hxHigh hyLow hyHigh hx.valid hy.valid hFrame
    omega
  have hRest : x % pageSize = y % pageSize := by
    have hxRest := Int.emod_nonneg x hSize.ne'
    have hyRest := Int.emod_nonneg y hSize.ne'
    unfold offsetOf at hOffset
    omega
  rw [← Int.mul_ediv_add_emod x pageSize, ← Int.mul_ediv_add_emod y pageSize, hPage, hRest]

theorem byteAt_pokeByte (h : m.OwnFrames) (hAddr : m.Mapped addr) (hx : m.Mapped x) (byte : Byte) :
    (m.pokeByte addr byte).byteAt x = Function.update m.byteAt addr byte x := by
  show Function.update m.pmem (m.frameOf addr) (Function.update (m.pmem (m.frameOf addr)) (offsetOf addr) byte)
    (m.frameOf x) (offsetOf x) = _
  by_cases hSame : x = addr
  · subst hSame
    simp only [Function.update_self]
  · rw [Function.update_of_ne hSame]
    by_cases hFrame : m.frameOf x = m.frameOf addr
    · have hOffset : offsetOf x ≠ offsetOf addr := fun hOffset => hSame (h.injective hx hAddr hFrame hOffset)
      rw [hFrame, Function.update_self, Function.update_of_ne hOffset, byteAt, hFrame]
    · rw [Function.update_of_ne hFrame]
      rfl

/-- The table is not changed by a store. -/
theorem region1Pt_storeBytes (h : m.storeBytes addr bytes = .ok m') : m'.region1Pt = m.region1Pt := by
  rw [storeBytes_eq h]
  rfl

/-- A store returns only when all of its bytes could be written. -/
theorem storeBytes_perms (h : m.storeBytes addr bytes = .ok m') (hLow : addr ≤ x) (hHigh : x < addr + bytes.length) :
    m.hasPerms x true = true := by
  induction bytes generalizing m addr with
  | nil =>
      rw [List.length_nil] at hHigh
      omega
  | cons byte rest ih =>
      simp only [storeBytes] at h
      split_ifs at h with hPerms
      by_cases hHere : x = addr
      · rw [hHere, hPerms]
      · rw [List.length_cons] at hHigh
        have hRest : (m.pokeByte addr byte).hasPerms x true = true := ih h (by omega) (by omega)
        exact hRest

/-- The running process may write all bytes of a buffer. -/
def Writable (m : Memory) (addr : Int) (len : Nat) : Prop :=
  ∀ x, addr ≤ x → x < addr + len → m.hasPerms x true = true

/-- A store into such a buffer returns. -/
theorem Writable.exists_store {len : Nat} (h : m.Writable addr len) (hLen : bytes.length ≤ len) :
    ∃ m', m.storeBytes addr bytes = .ok m' := by
  induction bytes generalizing m addr len with
  | nil => exact ⟨m, rfl⟩
  | cons byte rest ih =>
      rw [List.length_cons] at hLen
      have hRest : (m.pokeByte addr byte).Writable (addr + 1) (len - 1) :=
        fun x hLow hHigh => h x (by omega) (by omega)
      obtain ⟨m', hStore⟩ := ih hRest (by omega)
      refine ⟨m', ?_⟩
      rw [storeBytes, if_pos (h addr le_rfl (by omega)), hStore]

/-- A store into another buffer goes astray. -/
theorem exists_wildStore (h : ¬m.Writable addr bytes.length) : ∃ x, m.storeBytes addr bytes = .error (.wildStore x) := by
  induction bytes generalizing m addr with
  | nil => exact absurd (fun x hLow hHigh => by simp at hHigh; omega) h
  | cons byte rest ih =>
      by_cases hPerms : m.hasPerms addr true = true
      · rw [storeBytes, if_pos hPerms]
        refine ih fun hRest => h fun x hLow hHigh => ?_
        by_cases hHere : x = addr
        · rw [hHere, hPerms]
        · rw [List.length_cons] at hHigh
          exact hRest x (by omega) (by omega)
      · exact ⟨addr, by rw [storeBytes, if_neg hPerms]⟩

/-- A store changes bytes of its buffer only, and only those that may be written. -/
theorem pmem_storeBytes (h : m.storeBytes addr bytes = .ok m') {frame offset : Nat}
    (hNew : m'.pmem frame offset ≠ m.pmem frame offset) :
    ∃ x, addr ≤ x ∧ x < addr + bytes.length ∧ m.hasPerms x true = true ∧ m.frameOf x = frame ∧ offsetOf x = offset := by
  induction bytes generalizing m addr with
  | nil =>
      obtain rfl := Except.ok.inj h
      exact absurd rfl hNew
  | cons byte rest ih =>
      simp only [storeBytes] at h
      split_ifs at h with hPerms
      rw [List.length_cons]
      by_cases hRest : m'.pmem frame offset = (m.pokeByte addr byte).pmem frame offset
      · have hHere : Function.update m.pmem (m.frameOf addr) (Function.update (m.pmem (m.frameOf addr))
            (offsetOf addr) byte) frame offset ≠ m.pmem frame offset := fun hSame => hNew (hRest.trans hSame)
        have hFrame : m.frameOf addr = frame := by
          by_contra hOther
          exact hHere (congrFun (Function.update_of_ne (Ne.symm hOther) _ _) offset)
        subst hFrame
        rw [Function.update_self] at hHere
        refine ⟨addr, le_rfl, by omega, hPerms, rfl, ?_⟩
        by_contra hOther
        exact hHere (Function.update_of_ne (Ne.symm hOther) _ _)
      · obtain ⟨x, hLow, hHigh, hIn, hFrame, hOffset⟩ := ih h hRest
        exact ⟨x, by omega, by omega, hIn, hFrame, hOffset⟩

/-- What a store does to the bytes of the valid pages. -/
theorem byteAt_storeBytes (hOwn : m.OwnFrames) (h : m.storeBytes addr bytes = .ok m') (hx : m.Mapped x) :
    m'.byteAt x = write m.byteAt addr bytes x := by
  induction bytes generalizing m addr with
  | nil =>
      obtain rfl := Except.ok.inj h
      rw [write_nil]
  | cons byte rest ih =>
      simp only [storeBytes] at h
      split_ifs at h with hPerms
      have hAddr : m.Mapped addr := (hasPerms_iff.mp hPerms).1
      have hMapped : (m.pokeByte addr byte).Mapped x := ⟨hx.low, hx.high, hx.valid⟩
      have hRest : m'.byteAt x = write (m.pokeByte addr byte).byteAt (addr + 1) rest x := ih hOwn h hMapped
      rw [hRest, write_cons]
      unfold write
      rw [byteAt_pokeByte hOwn hAddr hx]

/-- Only the bytes in `changed` may have changed: the pages that are valid, their
frames, and all other bytes are the same. -/
structure Rewrites (m m' : Memory) (changed : Set Int) : Prop where
  frames : m'.frames = m.frames
  valid : ∀ i, (m'.region1Pt i).valid = (m.region1Pt i).valid
  pfn : ∀ i, (m'.region1Pt i).pfn = (m.region1Pt i).pfn
  outside : ∀ x, m.Mapped x → x ∉ changed → m'.byteAt x = m.byteAt x

namespace Rewrites

variable {n : Memory} {changed more : Set Int} {a : Int}

/-- Nothing but protections and bounds has changed. -/
theorem of_view (hFrames : m'.frames = m.frames) (hValid : ∀ i, (m'.region1Pt i).valid = (m.region1Pt i).valid)
    (hPfn : ∀ i, (m'.region1Pt i).pfn = (m.region1Pt i).pfn) (hPmem : m'.pmem = m.pmem) : Rewrites m m' ∅ where
  frames := hFrames
  valid := hValid
  pfn := hPfn
  outside x _ _ := by rw [byteAt, byteAt, hPmem, frameOf, frameOf, hPfn]

theorem mapped (h : Rewrites m m' changed) (hx : m.Mapped x) : m'.Mapped x :=
  ⟨hx.low, hx.high, (h.valid _).trans hx.valid⟩

theorem own (h : Rewrites m m' changed) (hOwn : m.OwnFrames) : m'.OwnFrames := by
  intro i j hiLow hiHigh hjLow hjHigh hiValid hjValid hSame
  rw [h.valid] at hiValid hjValid
  rw [h.pfn, h.pfn] at hSame
  exact hOwn i j hiLow hiHigh hjLow hjHigh hiValid hjValid hSame

theorem trans (h : Rewrites m n changed) (hNext : Rewrites n m' more) : Rewrites m m' (changed ∪ more) where
  frames := hNext.frames.trans h.frames
  valid i := (hNext.valid i).trans (h.valid i)
  pfn i := (hNext.pfn i).trans (h.pfn i)
  outside x hx hOut := by
    rw [hNext.outside x (h.mapped hx) fun hIn => hOut (Or.inr hIn), h.outside x hx fun hIn => hOut (Or.inl hIn)]

theorem mono (h : Rewrites m m' changed) (hSubset : changed ⊆ more) : Rewrites m m' more :=
  ⟨h.frames, h.valid, h.pfn, fun x hx hOut => h.outside x hx fun hIn => hOut (hSubset hIn)⟩

/-- What lies on mapped pages beside the changed bytes stays there. -/
theorem holds (h : Rewrites m m' changed) (hHolds : Holds m.byteAt a bytes)
    (hMapped : ∀ x, a ≤ x → x < a + bytes.length → m.Mapped x)
    (hApart : ∀ x, a ≤ x → x < a + bytes.length → x ∉ changed) : Holds m'.byteAt a bytes :=
  hHolds.congr fun x hLow hHigh => h.outside x (hMapped x hLow hHigh) (hApart x hLow hHigh)

end Rewrites

theorem mapped_storeBytes (h : m.storeBytes addr bytes = .ok m') (hLow : addr ≤ x)
    (hHigh : x < addr + bytes.length) : m.Mapped x := (hasPerms_iff.mp (storeBytes_perms h hLow hHigh)).1

theorem rewrites_storeBytes (hOwn : m.OwnFrames) (h : m.storeBytes addr bytes = .ok m') :
    Rewrites m m' (Set.Ico addr (addr + bytes.length)) where
  frames := by rw [storeBytes_eq h]
  valid i := by rw [region1Pt_storeBytes h]
  pfn i := by rw [region1Pt_storeBytes h]
  outside x hx hOut := by
    rw [Set.mem_Ico] at hOut
    rw [byteAt_storeBytes hOwn h hx, write_outside (by omega)]

theorem holds_storeBytes (hOwn : m.OwnFrames) (h : m.storeBytes addr bytes = .ok m') :
    Holds m'.byteAt addr bytes :=
  holds_write.congr fun _ hLow hHigh => byteAt_storeBytes hOwn h (mapped_storeBytes h hLow hHigh)

theorem hasPerms_congr (h : m'.region1Pt = m.region1Pt) (addr : Int) (needsWrite : Bool) :
    m'.hasPerms addr needsWrite = m.hasPerms addr needsWrite := by
  rw [hasPerms, hasPerms, h]

theorem loadByte_of_perms (h : m.hasPerms x false = true) : m.loadByte x = .ok (m.byteAt x) := by
  rw [loadByte, if_pos h, byteAt]

/-- Bytes that lie on readable pages are loaded. -/
theorem loadBytes_of_holds (h : Holds m.byteAt addr bytes)
    (hPerms : ∀ x, addr ≤ x → x < addr + bytes.length → m.hasPerms x false = true) :
    m.loadBytes addr bytes.length = .ok bytes := by
  induction bytes generalizing addr with
  | nil => rfl
  | cons byte rest ih =>
      obtain ⟨hFirst, hRest⟩ := holds_cons.mp h
      rw [List.length_cons] at hPerms
      rw [List.length_cons, loadBytes, loadByte_of_perms (hPerms addr le_rfl (by omega)), hFirst,
        ih hRest fun x hLow hHigh => hPerms x (by omega) (by omega)]
      rfl

omit [Hardware] in
@[simp] theorem length_wordBytes (value : Word) : (wordBytes value).length = 4 := rfl

omit [Hardware] in
/-- The four bytes of a word, put together again. -/
theorem append_wordBytes (value : Word) : value.extractLsb' 24 8 ++ value.extractLsb' 16 8 ++
    value.extractLsb' 8 8 ++ value.extractLsb' 0 8 = value := by
  apply BitVec.eq_of_getLsbD_eq
  intro i hi
  simp only [BitVec.getLsbD_append, BitVec.getLsbD_extractLsb', Nat.zero_add]
  by_cases h0 : i < 8
  · simp [h0]
  by_cases h1 : i - 8 < 8
  · have hIndex : 8 + (i - 8) = i := by omega
    simp [h0, h1, hIndex]
  by_cases h2 : i - 8 - 8 < 8
  · have hIndex : 16 + (i - 8 - 8) = i := by omega
    simp [h0, h1, h2, hIndex]
  · have hIndex : 24 + (i - 8 - 8 - 8) = i := by omega
    have hLast : i - 8 - 8 - 8 < 8 := by omega
    simp [h0, h1, h2, hLast, hIndex]

/-- A word that lies on readable pages is loaded. -/
theorem loadWord_of_holds {value : Word} (h : Holds m.byteAt addr (wordBytes value))
    (hPerms : ∀ x, addr ≤ x → x < addr + 4 → m.hasPerms x false = true) : m.loadWord addr = .ok value := by
  simp only [wordBytes, holds_cons] at h
  obtain ⟨h0, h1, h2, h3, -⟩ := h
  rw [show addr + 1 + 1 = addr + 2 by omega] at h2 h3
  rw [show addr + 2 + 1 = addr + 3 by omega] at h3
  unfold loadWord
  rw [loadByte_of_perms (hPerms addr le_rfl (by omega)), loadByte_of_perms (hPerms (addr + 1) (by omega) (by omega)),
    loadByte_of_perms (hPerms (addr + 2) (by omega) (by omega)),
    loadByte_of_perms (hPerms (addr + 3) (by omega) (by omega)), h0, h1, h2, h3]
  exact congrArg Except.ok (append_wordBytes value)

end Memory
end Yalnix
