import Yalnix.Memory.Stages
import Yalnix.Sample

/-! What a successful `LoadProgram` leaves behind: the arguments on the stack, the
page table of the new program, and the contents of its segments. -/
namespace Yalnix.LoadProgram

open Hardware Transition Segments UserMemory

section

variable [Hardware] {m m' : Memory} {uc : UserContext} {li : LoadInfo} {file : File} {args : List (List Byte)}
  {argsOk : Bool} {loaded : Outcome} {text data : List Byte}

/-- The stack decodes to the arguments. -/
structure Delivered (m : Memory) (lay : Layout) (args : List (List Byte)) (sp : Word) : Prop where
  argc : ∃ word, m.loadWord lay.cpp = .ok word ∧ word.toNat = args.length
  argv : ∀ i (h : i < args.length), ∃ word, m.loadWord (lay.cpp + 4 + 4 * i) = .ok word ∧
    word.toInt = argAddr lay.cp args i ∧ StringAt m (argAddr lay.cp args i) args[i]
  nulls : m.loadWord (lay.cpp + 4 + 4 * args.length) = .ok 0 ∧
    m.loadWord (lay.cpp + 4 + 4 * args.length + 4) = .ok 0
  first : argAddr lay.cp args 0 = lay.cp
  next : ∀ i (h : i < args.length), argAddr lay.cp args (i + 1) = argAddr lay.cp args i + args[i].length + 1
  last : argAddr lay.cp args args.length = vmem1Limit
  apart : lay.cpp + 4 * (args.length + 3) ≤ lay.cp
  aligned : lay.cpp % 8 = 0
  pointer : sp.toInt = lay.sp
  onStack : ∀ addr ∈ [lay.cpp, lay.sp],
    region1LimitVpn - lay.stackNpg ≤ addr / pageSize ∧ addr / pageSize < region1LimitVpn ∧ m.Mapped addr

namespace Stages

variable (st : Stages m li text data args m')

include st

/-- The bytes of the stack from `cpp` on can be read and written. -/
theorem perms_stack {x : Int} (hx : x ∈ argBytes ((layout li args).cpp + 4) (layout li args).cp args ∪
    Set.Ico (layout li args).cpp ((layout li args).cpp + 4)) : m'.hasPerms x true = true := by
  have hTable : m'.region1Pt = st.counted.region1Pt := by
    have hSame := congrArg Memory.region1Pt st.built.same
    exact hSame
  rw [Memory.hasPerms_congr hTable]
  rcases hx with hx | hx
  · exact st.built.perms x hx
  · rw [Memory.hasPerms_congr (Memory.region1Pt_storeBytes st.count)]
    exact Memory.storeBytes_perms st.count hx.1 hx.2

theorem holds_argc : Holds m'.byteAt (layout li args).cpp (Memory.wordBytes (BitVec.ofNat 32 args.length)) := by
  obtain ⟨-, hPointers, -, -⟩ := layout_order li args
  refine st.built.rewrites.holds (Memory.holds_storeBytes st.own_wiped st.count) (fun x hLow hHigh => ?_) ?_
  · exact st.rewrites_counted.mapped (Memory.mapped_storeBytes st.count hLow hHigh)
  · intro x hLow hHigh hx
    rw [Memory.length_wordBytes] at hHigh
    simp only [argBytes, Set.mem_union, Set.mem_Ico, length_pointerBytes] at hx
    push_cast at hx
    omega

/-- The stack lies in region 1. -/
theorem stack_bounds : vmem1Base ≤ (layout li args).sp ∧ 0 ≤ vmem1Base ∧ vmem1Limit < 2 ^ 31 := by
  have hSize : (0 : Int) < pageSize := Int.natCast_pos.mpr pageSize_pos
  have hStack := st.allocated.stackHigh
  have hPage := (layout_stack li args).1
  have hLimit : region1LimitVpn = region1BaseVpn + region1Vpns := rfl
  refine ⟨?_, ?_, ?_⟩
  · have hLow : region1BaseVpn ≤ (layout li args).sp / pageSize := by omega
    exact (Int.le_ediv_iff_mul_le hSize).mp hLow
  · exact Int.mul_nonneg (Int.natCast_nonneg _) hSize.le
  · have hAddresses := addresses_nonneg
    have hCast : vmem1Limit = ((region0Vpns + region1Vpns) * 2 ^ pageShift : Nat) := by
      unfold vmem1Limit region1LimitVpn region1BaseVpn pageSize
      push_cast
      rfl
    rw [hCast]
    exact_mod_cast hAddresses

/-- An address of the stack as the word that is stored. -/
theorem toInt_stack {addr : Int} (hLow : (layout li args).sp ≤ addr) (hHigh : addr ≤ vmem1Limit) :
    (BitVec.ofInt 32 addr).toInt = addr := by
  obtain ⟨hBase, hNonneg, hLimit⟩ := st.stack_bounds
  rw [BitVec.toInt_ofInt, Int.bmod_eq_of_le]
  all_goals omega

theorem mapped_stack {addr : Int} (hLow : (layout li args).sp ≤ addr) (hHigh : addr < vmem1Limit) :
    region1LimitVpn - (layout li args).stackNpg ≤ addr / pageSize ∧ addr / pageSize < region1LimitVpn ∧
      m'.Mapped addr := by
  have hSize : (0 : Int) < pageSize := Int.natCast_pos.mpr pageSize_pos
  obtain ⟨hBase, -, -⟩ := st.stack_bounds
  have hPage := (layout_stack li args).1
  have hFirst : (layout li args).sp / pageSize ≤ addr / pageSize := Int.ediv_le_ediv hSize hLow
  have hLast : addr / pageSize < region1LimitVpn := (Int.ediv_lt_iff_lt_mul hSize).mpr hHigh
  have hLimit : region1LimitVpn = region1BaseVpn + region1Vpns := rfl
  have hStack := st.allocated.stackHigh
  refine ⟨by omega, hLast, by omega, hHigh, ?_⟩
  exact (st.valid_iff (by omega) (by omega)).mpr (Or.inr (Or.inr (by omega)))

theorem delivered (hNul : ∀ arg ∈ args, 0 ∉ arg) :
    Delivered m' (layout li args) args (BitVec.ofInt 32 (layout li args).sp) := by
  obtain ⟨hSp, hPointers, hStrings, hAligned⟩ := layout_order li args
  obtain ⟨hBase, hNonneg, hLimit⟩ := st.stack_bounds
  have hRead {x : Int} (hx : x ∈ argBytes ((layout li args).cpp + 4) (layout li args).cp args ∪
      Set.Ico (layout li args).cpp ((layout li args).cpp + 4)) : m'.hasPerms x false = true := by
    obtain ⟨hMapped, hRead, -⟩ := Memory.hasPerms_iff.mp (st.perms_stack hx)
    exact Memory.hasPerms_iff.mpr ⟨hMapped, hRead, by simp⟩
  constructor
  · refine ⟨_, Memory.loadWord_of_holds st.holds_argc fun x hLow hHigh => hRead (Or.inr ⟨hLow, hHigh⟩), ?_⟩
    rw [BitVec.toNat_ofNat, Nat.mod_eq_of_lt (by omega)]
  · intro i hi
    obtain ⟨hFirst, hLast⟩ := argAddr_bounds (layout li args).cp hi
    refine ⟨_, Memory.loadWord_of_holds (holds_pointer st.built.pointers hi) fun x hLow hHigh => hRead (Or.inl ?_),
      st.toInt_stack (by omega) (by omega), hNul _ (List.getElem_mem hi), ?_⟩
    · simp only [argBytes, Set.mem_union, Set.mem_Ico, length_pointerBytes]
      push_cast
      omega
    · have hLength : args[i].length + 1 = (args[i] ++ [0]).length := by simp
      rw [hLength]
      refine Memory.loadBytes_of_holds (holds_string st.built.strings hi) fun x hLow hHigh => hRead (Or.inl ?_)
      rw [← hLength] at hHigh
      simp only [argBytes, Set.mem_union, Set.mem_Ico]
      push_cast at hHigh
      omega
  · obtain ⟨hFirst, hSecond⟩ := holds_nulls st.built.pointers
    refine ⟨Memory.loadWord_of_holds hFirst fun x hLow hHigh => hRead (Or.inl ?_),
      Memory.loadWord_of_holds hSecond fun x hLow hHigh => hRead (Or.inl ?_)⟩
    all_goals
      simp only [argBytes, Set.mem_union, Set.mem_Ico, length_pointerBytes]
      push_cast
      omega
  · simp [argAddr, stringBytes]
  · exact fun i hi => argAddr_next _ hi
  · rw [argAddr_last, hStrings]
  · exact hPointers
  · exact hAligned
  · exact st.toInt_stack le_rfl (by omega)
  · intro addr hAddr
    simp only [List.mem_cons, List.not_mem_nil, or_false] at hAddr
    rcases hAddr with rfl | rfl
    · exact st.mapped_stack hSp (by omega)
    · exact st.mapped_stack le_rfl (by omega)

end Stages

/-- The arguments of a successful `Exec` are found on the new stack. -/
theorem exec_delivers_args (hWf : m.frames.Wf) (hNul : ∀ arg ∈ args, 0 ∉ arg)
    (h : loadProgram m uc file args argsOk = .ok loaded) (hResult : loaded.result = .success) :
    ∃ li text data, file = .image li text data ∧
      Delivered loaded.mem (layout li args) args loaded.uc.sp := by
  obtain ⟨li, text, data, hSucceeded⟩ := loadProgram_success h hResult
  obtain ⟨st⟩ := hSucceeded.stages hWf
  obtain ⟨_, _, withData, -, -, -, hFinish⟩ := hSucceeded.steps
  obtain ⟨_, _, _, -, -, -, -, hUc⟩ := finish_steps hFinish
  refine ⟨li, text, data, hSucceeded.file_eq, ?_⟩
  rw [hUc]
  exact st.delivered hNul

/-- Text pages, and behind them data pages: first the initialized data, then the
uninitialized data. -/
structure WellFormed (li : LoadInfo) : Prop where
  textAligned : li.tVaddr.toInt % pageSize = 0
  dataAligned : li.idVaddr.toInt % pageSize = 0
  textLow : vmem1Base ≤ li.tVaddr.toInt
  textBelowData : li.tVaddr.toInt + li.tNpg * pageSize ≤ li.idVaddr.toInt
  initLow : li.idVaddr.toInt ≤ li.idEnd.toInt
  initHigh : li.idEnd.toInt ≤ li.idVaddr.toInt + li.idNpg * pageSize
  uninitLow : li.idEnd.toInt ≤ li.udEnd.toInt
  uninitHigh : li.udEnd.toInt ≤ li.idVaddr.toInt + (li.idNpg + li.udNpg) * pageSize

/-- The address space is that of the program. Its text and data come from the
file, its break is at the end of the data, and its frames replace the old ones. -/
structure Loaded (m m' : Memory) (li : LoadInfo) (text data : List Byte) (lay : Layout) : Prop where
  valid : ∀ i : Int, 0 ≤ i → i < region1Vpns → ((m'.region1Pt i).valid = true ↔
    lay.textPg1 ≤ i ∧ i < lay.textPg1 + li.tNpg ∨ lay.dataPg1 ≤ i ∧ i < lay.dataPg1 + lay.dataNpg ∨
      region1Vpns - lay.stackNpg ≤ i)
  textProt : ∀ i : Int, lay.textPg1 ≤ i → i < lay.textPg1 + li.tNpg → (m'.region1Pt i).prot = .readExec
  dataProt : ∀ i : Int, lay.dataPg1 ≤ i → i < lay.dataPg1 + lay.dataNpg → (m'.region1Pt i).prot = .readWrite
  stackProt : ∀ i : Int, region1Vpns - lay.stackNpg ≤ i → i < region1Vpns → (m'.region1Pt i).prot = .readWrite
  own : m'.OwnFrames
  fresh : ∀ i : Int, 0 ≤ i → i < region1Vpns → (m'.region1Pt i).valid = true →
    (m'.region1Pt i).pfn ∈ m'.frames.inUse ∧
      (m'.region1Pt i).pfn ∉ m.frames.inUse \ heldFrames m.region1Pt 0 region1Vpns
  textBytes : (text.take (li.tNpg * pageSize)).length = li.tNpg * pageSize ∧
    Holds m'.byteAt li.tVaddr.toInt (text.take (li.tNpg * pageSize))
  dataBytes : (data.take (li.idEnd.toInt - li.idVaddr.toInt).toNat).length = li.idEnd.toInt - li.idVaddr.toInt ∧
    Holds m'.byteAt li.idVaddr.toInt (data.take (li.idEnd.toInt - li.idVaddr.toInt).toNat)
  zero : ∀ x, li.idEnd.toInt ≤ x → x < li.udEnd.toInt → m'.byteAt x = 0
  origBrk : (m'.ctx m'.active).origBrkPage = region1BaseVpn + lay.dataPg1 + lay.dataNpg
  currBrk : (m'.ctx m'.active).currBrkPage = region1BaseVpn + lay.dataPg1 + lay.dataNpg
  guard : (m'.region1Pt (lay.dataPg1 + lay.dataNpg)).valid = false
  count : (m'.frames.inUse.ncard : Int) - m.frames.inUse.ncard =
    (m'.userMapping.pages region1Vpns).ncard - (m.userMapping.pages region1Vpns).ncard

/-- The sections of a program in pages: text, data and stack do not overlap. -/
structure Apart (li : LoadInfo) (lay : Layout) : Prop where
  textData : lay.textPg1 + li.tNpg ≤ lay.dataPg1
  dataStack : lay.dataPg1 + lay.dataNpg < region1Vpns - lay.stackNpg
  dataEnd : li.idVaddr.toInt + (li.idNpg + li.udNpg) * pageSize ≤ lay.sp

omit [Hardware] in
/-- The pages of three sections that do not overlap. -/
theorem ncard_sections {t tn d dn v s : Int} (ht : 0 ≤ t) (htn : 0 ≤ tn) (hdn : 0 ≤ dn) (hs : 0 ≤ s)
    (htd : t + tn ≤ d) (hds : d + dn < v - s) :
    {i : Int | 0 ≤ i ∧ i < v ∧ (t ≤ i ∧ i < t + tn ∨ d ≤ i ∧ i < d + dn ∨ v - s ≤ i)}.ncard =
      tn.toNat + dn.toNat + s.toNat := by
  have hSet : {i : Int | 0 ≤ i ∧ i < v ∧ (t ≤ i ∧ i < t + tn ∨ d ≤ i ∧ i < d + dn ∨ v - s ≤ i)} =
      ((Finset.Ico t (t + tn) ∪ Finset.Ico d (d + dn) ∪ Finset.Ico (v - s) v : Finset Int) : Set Int) := by
    ext i
    simp only [Set.mem_ofPred_eq, Finset.coe_union, Finset.coe_Ico, Set.mem_union, Set.mem_Ico]
    omega
  rw [hSet, Set.ncard_coe_finset, Finset.card_union_of_disjoint, Finset.card_union_of_disjoint, Int.card_Ico,
    Int.card_Ico, Int.card_Ico]
  · omega
  · rw [Finset.disjoint_left]
    intro i hi hj
    rw [Finset.mem_Ico] at hi hj
    omega
  · rw [Finset.disjoint_left]
    intro i hi hj
    rw [Finset.mem_union, Finset.mem_Ico, Finset.mem_Ico] at hi
    rw [Finset.mem_Ico] at hj
    omega

/-- The address of an aligned segment is the start of its first page. -/
theorem segment_page {addr : Int} (hAligned : addr % pageSize = 0) :
    vmem1Base + (addr - vmem1Base) / pageSize * pageSize = addr := by
  have hBase : (addr - vmem1Base) % pageSize = 0 := by
    unfold vmem1Base
    rw [Int.sub_emod, hAligned, Int.mul_emod_left]
    simp
  have hDiv := Int.mul_ediv_add_emod (addr - vmem1Base) pageSize
  rw [hBase, Int.mul_comm] at hDiv
  omega

theorem WellFormed.apart (h : WellFormed li) (hRoom : (layout li args).stackNpg + (layout li args).dataPg1 +
    (layout li args).dataNpg < region1Vpns) : Apart li (layout li args) := by
  have hSize : (0 : Int) < pageSize := Int.natCast_pos.mpr pageSize_pos
  have hText : vmem1Base + (layout li args).textPg1 * pageSize = li.tVaddr.toInt := segment_page h.textAligned
  have hData : vmem1Base + (layout li args).dataPg1 * pageSize = li.idVaddr.toInt := segment_page h.dataAligned
  have hPages : (layout li args).dataNpg = li.idNpg + li.udNpg := rfl
  have hStack := (layout_stack li args).1
  refine ⟨?_, by omega, ?_⟩
  · have hBelow := h.textBelowData
    rw [← hText, ← hData] at hBelow
    refine le_of_mul_le_mul_right ?_ hSize
    rw [add_mul]
    omega
  · have hLimit : region1LimitVpn = region1BaseVpn + region1Vpns := rfl
    have hPage : region1BaseVpn + (layout li args).dataPg1 + (layout li args).dataNpg ≤
        (layout li args).sp / pageSize := by omega
    have hBytes := (Int.le_ediv_iff_mul_le hSize).mp hPage
    rw [add_mul, add_mul, hPages] at hBytes
    rw [← hData]
    exact hBytes

namespace Stages

variable (st : Stages m li text data args m')

include st

theorem invalid_cleared {i : Int} (hLow : 0 ≤ i) (hHigh : i < region1Vpns) : (st.x.table i).valid = false := by
  rw [st.cleared.entry i hLow hHigh]

/-- What lies below the stack after the bounds are recorded stays there. -/
theorem holds_below {a : Int} {bytes : List Byte} (h : Holds st.zeroed.byteAt a bytes)
    (hMapped : ∀ x, a ≤ x → x < a + bytes.length → st.zeroed.Mapped x)
    (hBelow : a + bytes.length ≤ (layout li args).sp) : Holds m'.byteAt a bytes := by
  obtain ⟨hSp, -, -, -⟩ := layout_order li args
  refine st.rewrites_stack.holds (st.rewrites_record.holds h hMapped fun x _ _ => Set.notMem_empty x)
    (fun x hLow hHigh => st.rewrites_record.mapped (hMapped x hLow hHigh)) fun x hLow hHigh hx => ?_
  have hFirst := hx.1
  omega

/-- What was read and lies below the uninitialized data stays there. -/
theorem holds_read (hForm : WellFormed li) (hApart : Apart li (layout li args)) {a : Int} {bytes : List Byte}
    (h : Holds st.withData.byteAt a bytes) (hMapped : ∀ x, a ≤ x → x < a + bytes.length → st.withData.Mapped x)
    (hBelow : a + bytes.length ≤ li.idEnd.toInt) : Holds m'.byteAt a bytes := by
  have hMid := hForm.uninitLow
  have hUninit := hForm.uninitHigh
  have hEnd := hApart.dataEnd
  have hLocked (x : Int) (hLow : a ≤ x) (hHigh : x < a + bytes.length) : st.locked.Mapped x :=
    st.rewrites_locked.mapped (hMapped x hLow hHigh)
  have hKept := st.rewrites_locked.holds h hMapped fun x _ _ => Set.notMem_empty x
  refine st.holds_below (st.rewrites_zeroed.holds hKept hLocked fun x hLow hHigh hx => ?_)
    (fun x hLow hHigh => st.rewrites_zeroed.mapped (hLocked x hLow hHigh)) (by omega)
  have hFirst := hx.1
  omega

theorem holds_text (hForm : WellFormed li) (hApart : Apart li (layout li args)) :
    Holds m'.byteAt li.tVaddr.toInt (text.take (li.tNpg * pageSize)) := by
  have hInit := hForm.initLow
  have hOrder : li.tVaddr.toInt + (text.take (li.tNpg * pageSize)).length ≤ li.idVaddr.toInt := by
    rw [st.lengthText]
    push_cast
    exact hForm.textBelowData
  have hMapped (x : Int) (hLow : li.tVaddr.toInt ≤ x)
      (hHigh : x < li.tVaddr.toInt + (text.take (li.tNpg * pageSize)).length) : st.withText.Mapped x :=
    st.rewrites_text.mapped (Memory.mapped_storeBytes st.storeText hLow hHigh)
  refine st.holds_read hForm hApart (st.rewrites_data.holds (Memory.holds_storeBytes st.own_mapped st.storeText) hMapped
    fun x hLow hHigh hx => ?_) (fun x hLow hHigh => st.rewrites_data.mapped (hMapped x hLow hHigh)) (by omega)
  have hFirst := hx.1
  omega

/-- The initialized data ends inside the pages that were read. -/
theorem holds_data (hForm : WellFormed li) (hApart : Apart li (layout li args)) :
    ((data.take (li.idEnd.toInt - li.idVaddr.toInt).toNat).length : Int) = li.idEnd.toInt - li.idVaddr.toInt ∧
      Holds m'.byteAt li.idVaddr.toInt (data.take (li.idEnd.toInt - li.idVaddr.toInt).toNat) := by
  have hInit := hForm.initLow
  have hHigh := hForm.initHigh
  have hCount : (li.idEnd.toInt - li.idVaddr.toInt).toNat ≤ li.idNpg * pageSize := by
    have hCast : ((li.idNpg * pageSize : Nat) : Int) = li.idNpg * pageSize := by push_cast; rfl
    omega
  have hTake : (data.take (li.idNpg * pageSize)).take (li.idEnd.toInt - li.idVaddr.toInt).toNat =
      data.take (li.idEnd.toInt - li.idVaddr.toInt).toNat := by
    rw [List.take_take, Nat.min_eq_left hCount]
  have hLength : (data.take (li.idEnd.toInt - li.idVaddr.toInt).toNat).length =
      (li.idEnd.toInt - li.idVaddr.toInt).toNat := by
    rw [← hTake, List.length_take, st.lengthData, Nat.min_eq_left hCount]
  refine ⟨by omega, st.holds_read hForm hApart ?_ (fun x hFirst hLast => ?_) (by omega)⟩
  · rw [← hTake]
    exact (Memory.holds_storeBytes st.own_text st.storeData).take _
  · refine st.rewrites_data.mapped (Memory.mapped_storeBytes st.storeData hFirst ?_)
    rw [st.lengthData]
    omega

theorem zero_bytes (hForm : WellFormed li) (hApart : Apart li (layout li args)) {x : Int}
    (hLow : li.idEnd.toInt ≤ x) (hHigh : x < li.udEnd.toInt) : m'.byteAt x = 0 := by
  have hUninit := hForm.uninitHigh
  have hEnd := hApart.dataEnd
  have hLength : (List.replicate (li.udEnd.toInt - li.idEnd.toInt).toNat (0 : Byte)).length =
      (li.udEnd.toInt - li.idEnd.toInt).toNat := List.length_replicate
  have hZeros := st.holds_below (Memory.holds_storeBytes st.own_locked st.storeZeros)
    (fun x hFirst hLast => st.rewrites_zeroed.mapped (Memory.mapped_storeBytes st.storeZeros hFirst hLast)) (by omega)
  have hIndex : li.idEnd.toInt + ((x - li.idEnd.toInt).toNat : Int) = x := by omega
  have hByte := hZeros (x - li.idEnd.toInt).toNat (by omega)
  rwa [hIndex, List.getElem_replicate] at hByte

/-- The new pages take the place of the old ones. -/
theorem count_pages (hApart : Apart li (layout li args)) (hOwned : Mapping.Owned region1Vpns m.userMapping) :
    (m'.frames.inUse.ncard : Int) - m.frames.inUse.ncard =
      (m'.userMapping.pages region1Vpns).ncard - (m.userMapping.pages region1Vpns).ncard := by
  have hDataPages : 0 ≤ (layout li args).dataNpg := by
    unfold layout
    dsimp only
    omega
  have hReleased : st.x.frames.inUse.ncard + (m.userMapping.pages region1Vpns).ncard = m.frames.inUse.ncard := by
    rw [st.cleared.inUse, ← hOwned.ncard_heldFrames]
    exact Set.ncard_sdiff_add_ncard_of_subset hOwned.heldFrames_subset m.frames.finite_inUse
  have hPages : m'.userMapping.pages region1Vpns = {i : Int | 0 ≤ i ∧ i < region1Vpns ∧
      ((layout li args).textPg1 ≤ i ∧ i < (layout li args).textPg1 + li.tNpg ∨
        (layout li args).dataPg1 ≤ i ∧ i < (layout li args).dataPg1 + (layout li args).dataNpg ∨
        region1Vpns - (layout li args).stackNpg ≤ i)} := by
    ext i
    simp only [Mapping.pages, Set.mem_ofPred_eq]
    exact and_congr_right fun hLow => and_congr_right fun hHigh => st.valid_iff hLow hHigh
  have hTaken := st.allocated.count
  rw [hPages, ncard_sections st.allocated.textLow (Int.natCast_nonneg _) hDataPages (layout_stack li args).2.le
    hApart.textData hApart.dataStack, st.frames_eq, hTaken]
  push_cast
  omega

/-- The context of the process is the one that was recorded. -/
theorem ctx_eq : m'.ctx m'.active = (record st.zeroed (layout li args)).ctx
    (record st.zeroed (layout li args)).active := by
  have hBuilt := congrArg (fun n : Memory => n.ctx n.active) st.built.same
  have hCounted := congrArg (fun n : Memory => n.ctx n.active) (Memory.storeBytes_eq st.count)
  have hWiped := congrArg (fun n : Memory => n.ctx n.active) (Memory.storeBytes_eq st.wipe)
  exact hBuilt.trans (hCounted.trans hWiped)

theorem bounds_eq : (m'.ctx m'.active).origBrkPage = region1BaseVpn + (layout li args).dataPg1 +
      (layout li args).dataNpg ∧
    (m'.ctx m'.active).currBrkPage = region1BaseVpn + (layout li args).dataPg1 + (layout li args).dataNpg := by
  rw [st.ctx_eq]
  simp only [record, Function.update_self]
  exact ⟨by omega, by omega⟩

theorem data_eq : (m'.ctx m'.active).dataStartPage = region1BaseVpn + (layout li args).dataPg1 := by
  rw [st.ctx_eq]
  simp only [record, Function.update_self]
  omega

theorem is_loaded (hForm : WellFormed li) (hApart : Apart li (layout li args))
    (hOwned : Mapping.Owned region1Vpns m.userMapping) : Loaded m m' li text data (layout li args) := by
  have hTextLow := st.allocated.textLow
  have hTextHigh := st.allocated.textHigh
  have hDataLow := st.allocated.dataLow
  have hStackHigh := st.allocated.stackHigh
  have hTextData := hApart.textData
  have hDataStack := hApart.dataStack
  have hStackPages := (layout_stack li args).2
  have hDataPages : 0 ≤ (layout li args).dataNpg := by
    unfold layout
    dsimp only
    omega
  have hFresh {i : Int} (hLow : 0 ≤ i) (hHigh : i < region1Vpns) (hValid : (st.y.table i).valid = true) :=
    st.allocated.fresh (fun i => st.invalid_cleared) hLow hHigh hValid
  have hWrite {i : Int} (hLow : 0 ≤ i) (hHigh : i < region1Vpns)
      (hNotText : ¬((layout li args).textPg1 ≤ i ∧ i < (layout li args).textPg1 + li.tNpg))
      (hPage : (m'.region1Pt i).valid = true) : (m'.region1Pt i).prot = .readWrite := by
    rw [st.valid_eq] at hPage
    rw [st.entry_eq, if_neg fun h => hNotText ⟨h.1, h.2.1⟩]
    exact (hFresh hLow hHigh hPage).1
  constructor
  · exact fun i => st.valid_iff
  · intro i hLow hHigh
    have hValid := (st.valid_iff (by omega) (by omega)).mpr (Or.inl ⟨hLow, hHigh⟩)
    rw [st.valid_eq] at hValid
    rw [st.entry_eq, if_pos ⟨hLow, hHigh, hValid⟩]
  · intro i hLow hHigh
    exact hWrite (by omega) (by omega) (by omega)
      ((st.valid_iff (by omega) (by omega)).mpr (Or.inr (Or.inl ⟨hLow, hHigh⟩)))
  · intro i hLow hHigh
    exact hWrite (by omega) hHigh (by omega) ((st.valid_iff (by omega) hHigh).mpr (Or.inr (Or.inr hLow)))
  · exact st.rewrites_stack.own st.own_record
  · intro i hLow hHigh hValid
    rw [st.valid_eq] at hValid
    rw [st.pfn_eq, st.frames_eq]
    refine ⟨(st.allocated.owned st.cleared.owned).marked i hLow hHigh hValid, ?_⟩
    have hUnused := (hFresh hLow hHigh hValid).2
    rwa [st.cleared.inUse] at hUnused
  · exact ⟨st.lengthText, st.holds_text hForm hApart⟩
  · exact st.holds_data hForm hApart
  · exact fun x => st.zero_bytes hForm hApart
  · exact st.bounds_eq.1
  · exact st.bounds_eq.2
  · have hNot : ¬(m'.region1Pt ((layout li args).dataPg1 + (layout li args).dataNpg)).valid = true := by
      rw [st.valid_iff (by omega) (by omega)]
      omega
    simpa using hNot
  · exact st.count_pages hApart hOwned

end Stages

/-- A successful `Exec` builds exactly the address space of the program. -/
theorem exec_builds_program (hWf : m.frames.Wf) (hOwned : Mapping.Owned region1Vpns m.userMapping)
    (hForm : ∀ li text data, file = .image li text data → WellFormed li)
    (h : loadProgram m uc file args argsOk = .ok loaded) (hResult : loaded.result = .success) :
    ∃ li text data, file = .image li text data ∧ Loaded m loaded.mem li text data (layout li args) := by
  obtain ⟨li, text, data, hSucceeded⟩ := loadProgram_success h hResult
  obtain ⟨st⟩ := hSucceeded.stages hWf
  have hLi := hForm li text data hSucceeded.file_eq
  exact ⟨li, text, data, hSucceeded.file_eq, st.is_loaded hLi (hLi.apart hSucceeded.room) hOwned⟩

end

section Sample

open Sample

/-- Two arguments, the second one empty, for the program of the sample machine. -/
theorem exec_delivers_two : ∃ (li : LoadInfo) (loaded : Outcome),
    Delivered loaded.mem (layout li [[65, 66], []]) [[65, 66], []] loaded.uc.sp := by
  have hRun : ((loadProgram (after turn).mem (context []) program [[65, 66], []] true).toOption.any
      fun loaded => decide (loaded.result = .success)) = true := by decide +kernel
  obtain ⟨loaded, hLoaded, hResult⟩ := (Option.any_eq_true _ _).mp hRun
  have hWf : (after turn).mem.frames.Wf := ⟨by decide +kernel, by decide +kernel⟩
  obtain ⟨li, -, -, -, hDelivered⟩ := exec_delivers_args hWf (by decide) (mem_toOption.mp hLoaded)
    (of_decide_eq_true hResult)
  exact ⟨li, loaded, hDelivered⟩

/-- The program of the sample machine, loaded once more. -/
theorem exec_builds_sample : ∃ loaded : Outcome, ∃ li text data, program = .image li text data ∧
    Loaded (after turn).mem loaded.mem li text data (layout li []) := by
  have hRun : ((loadProgram (after turn).mem (context []) program [] true).toOption.any
      fun loaded => decide (loaded.result = .success)) = true := by decide +kernel
  obtain ⟨loaded, hLoaded, hResult⟩ := (Option.any_eq_true _ _).mp hRun
  have hWf : (after turn).mem.frames.Wf := ⟨by decide +kernel, by decide +kernel⟩
  have hOwned : Mapping.Owned region1Vpns (after turn).mem.userMapping := by
    constructor
    · unfold Frames.inUse
      decide +kernel
    · intro i j hiLow hiHigh hjLow hjHigh hiValid hjValid hSame
      have hPages : ∀ i : Int, 0 ≤ i → i < 6 → ∀ j : Int, 0 ≤ j → j < 6 →
          ((after turn).mem.userMapping.table i).valid = true → ((after turn).mem.userMapping.table j).valid = true →
          ((after turn).mem.userMapping.table i).pfn = ((after turn).mem.userMapping.table j).pfn → i = j := by
        decide +kernel
      exact hPages i hiLow hiHigh j hjLow hjHigh hiValid hjValid hSame
  have hForm (li : LoadInfo) (text data : List Byte) (hFile : program = .image li text data) : WellFormed li := by
    obtain ⟨rfl, rfl, rfl⟩ := File.image.inj hFile
    constructor
    all_goals decide +kernel
  exact ⟨loaded, exec_builds_program hWf hOwned hForm (mem_toOption.mp hLoaded) (of_decide_eq_true hResult)⟩

end Sample
end Yalnix.LoadProgram
