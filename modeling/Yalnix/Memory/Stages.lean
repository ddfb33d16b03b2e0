import Yalnix.Memory.Arguments
import Yalnix.Memory.KernelSide
import Yalnix.Memory.Regions

/-! The stages of a successful `LoadProgram`: the old pages are released, text, data
and stack are mapped, the segments are read, and the stack is written. Each stage
writes its own range of addresses and keeps the frames of the pages. -/
namespace Yalnix.LoadProgram

open Hardware Transition Segments UserMemory

variable [Hardware] {m m' : Memory} {uc uc' : UserContext} {li : LoadInfo} {lay : Layout} {file : File}
  {args : List (List Byte)} {argsOk : Bool} {loaded : Outcome} {text data : List Byte}

/-- The pages of text, data and stack are mapped one after the other. -/
structure Allocated (li : LoadInfo) (lay : Layout) (x y : Mapping) : Prop where
  textLow : 0 ≤ lay.textPg1
  textHigh : lay.textPg1 + li.tNpg ≤ region1Vpns
  dataLow : 0 ≤ lay.dataPg1
  dataHigh : lay.dataPg1 + lay.dataNpg ≤ region1Vpns
  stackHigh : lay.stackNpg ≤ region1Vpns
  filled : ∃ text data, Mapping.Filled .readWrite lay.textPg1 (lay.textPg1 + li.tNpg) x text ∧
    Mapping.Filled .readWrite lay.dataPg1 (lay.dataPg1 + lay.dataNpg) text data ∧
    Mapping.Filled .readWrite (region1Vpns - lay.stackNpg) region1Vpns data y

theorem allocSegments_eq (hWf : m.frames.Wf) (hData : 0 ≤ lay.dataNpg) (hStack : 0 ≤ lay.stackNpg)
    (h : allocSegments m li lay = (m', 3)) :
    ∃ x, m' = m.withUser x ∧ Allocated li lay m.userMapping x := by
  have hLimit : region1LimitVpn = region1BaseVpn + region1Vpns := rfl
  unfold allocSegments at h
  dsimp only at h
  split at h
  · cases (Prod.mk.inj h).2
  rename_i m₁ hText
  obtain ⟨hTextLow, hTextHigh, text, rfl, hTextFilled⟩ := allocRegion_eq hWf (by omega) hText
  split at h
  · cases (Prod.mk.inj h).2
  rename_i m₂ hDataAlloc
  obtain ⟨hDataLow, hDataHigh, data, rfl, hDataFilled⟩ := allocRegion_eq hTextFilled.wf (by omega) hDataAlloc
  rw [Memory.userMapping_withUser] at hDataFilled
  split at h
  · cases (Prod.mk.inj h).2
  rename_i m₃ hStackAlloc
  rw [Memory.withUser_withUser] at hStackAlloc
  obtain ⟨hStackLow, hStackHigh, stack, rfl, hStackFilled⟩ := allocRegion_eq hDataFilled.wf (by omega) hStackAlloc
  rw [Memory.userMapping_withUser] at hStackFilled
  obtain rfl := (Prod.mk.inj h).1
  rw [Memory.withUser_withUser]
  refine ⟨stack, rfl, by omega, by omega, by omega, by omega, by omega, text, data, ?_, ?_, ?_⟩
  · convert hTextFilled using 1 <;> omega
  · convert hDataFilled using 1 <;> omega
  · convert hStackFilled using 1 <;> omega

/-- A segment that was read completely. -/
theorem readSegment_eq {vaddr : Word} {npg : Nat} {bytes : List Byte} (h : readSegment m vaddr npg bytes = (m', true)) :
    m.storeBytes vaddr.toInt (bytes.take (npg * pageSize)) = .ok m' ∧
      (bytes.take (npg * pageSize)).length = npg * pageSize := by
  unfold readSegment at h
  dsimp only at h
  split at h
  · cases (Prod.mk.inj h).2
  · rename_i next hStore
    obtain ⟨rfl, hLength⟩ := Prod.mk.inj h
    exact ⟨hStore, by simpa using hLength⟩

/-- The steps of `LoadProgram` when it returns `SUCCESS`. -/
structure Succeeded (m : Memory) (file : File) (args : List (List Byte)) (uc : UserContext) (li : LoadInfo)
    (text data : List Byte) (loaded : Outcome) : Prop where
  file_eq : file = .image li text data
  room : (layout li args).stackNpg + (layout li args).dataPg1 + (layout li args).dataNpg < region1Vpns
  steps : ∃ mapped withText withData,
    allocSegments (deallocateRegion1 m) li (layout li args) = (mapped, 3) ∧
    readSegment mapped li.tVaddr li.tNpg text = (withText, true) ∧
    readSegment withText li.idVaddr li.idNpg data = (withData, true) ∧
    finish withData { uc with sp := BitVec.ofInt 32 (layout li args).sp } li (layout li args) args =
      .ok (loaded.mem, loaded.uc)

theorem loadProgram_success (h : loadProgram m uc file args argsOk = .ok loaded) (hResult : loaded.result = .success) :
    ∃ li text data, Succeeded m file args uc li text data loaded := by
  unfold loadProgram at h
  split at h
  · obtain rfl := Except.ok.inj h
    cases hResult
  · obtain rfl := Except.ok.inj h
    cases hResult
  · rename_i li text data
    dsimp only at h
    split_ifs at h with hEntry hRoom hArgs
    · obtain rfl := Except.ok.inj h
      cases hResult
    · obtain rfl := Except.ok.inj h
      cases hResult
    · obtain rfl := Except.ok.inj h
      cases hResult
    · split at h
      · rename_i mapped hAlloc
        split at h
        · obtain rfl := Except.ok.inj h
          cases hResult
        · rename_i withText hText
          split at h
          · obtain rfl := Except.ok.inj h
            cases hResult
          · rename_i withData hData
            obtain ⟨⟨last, lastUc⟩, hFinish, h⟩ := bind_eq_ok.mp h
            obtain rfl := Except.ok.inj h
            have hMax : (maxPtLen : Int) = region1Vpns := by rw [maxPtLen_eq]
            exact ⟨li, text, data, rfl, by omega, mapped, withText, withData, hAlloc, hText, hData, hFinish⟩
      · obtain rfl := Except.ok.inj h
        cases hResult
      · obtain rfl := Except.ok.inj h
        cases hResult

/-- The order of the areas at the top of region 1. -/
theorem layout_order (li : LoadInfo) (args : List (List Byte)) :
    (layout li args).sp ≤ (layout li args).cpp ∧
      (layout li args).cpp + 4 * (args.length + 3) ≤ (layout li args).cp ∧
      (layout li args).cp + (stringBytes args).length = vmem1Limit ∧ (layout li args).cpp % 8 = 0 := by
  rw [length_stringBytes]
  unfold layout
  dsimp only
  generalize (args.map fun arg => (arg.length : Int) + 1).sum = size
  omega

/-- The stack pages are those from the page of the stack pointer on. -/
theorem layout_stack (li : LoadInfo) (args : List (List Byte)) :
    (layout li args).sp / pageSize = region1LimitVpn - (layout li args).stackNpg ∧
      0 < (layout li args).stackNpg := by
  have hSize : (0 : Int) < pageSize := Int.natCast_pos.mpr pageSize_pos
  obtain ⟨hSp, hPointers, hStrings, -⟩ := layout_order li args
  have hPage : (layout li args).sp / pageSize < region1LimitVpn := by
    refine (Int.ediv_lt_iff_lt_mul hSize).mpr ?_
    show (layout li args).sp < vmem1Limit
    omega
  have hStack : (layout li args).stackNpg = region1LimitVpn - (layout li args).sp / pageSize := rfl
  omega

namespace Allocated

variable {x y : Mapping}

/-- The valid entries are those of text, data and stack. -/
theorem valid_iff (h : Allocated li lay x y)
    (hInvalid : ∀ i : Int, 0 ≤ i → i < region1Vpns → (x.table i).valid = false) {i : Int} (hLow : 0 ≤ i)
    (hHigh : i < region1Vpns) : (y.table i).valid = true ↔
      lay.textPg1 ≤ i ∧ i < lay.textPg1 + li.tNpg ∨ lay.dataPg1 ≤ i ∧ i < lay.dataPg1 + lay.dataNpg ∨
        region1Vpns - lay.stackNpg ≤ i := by
  obtain ⟨text, data, hText, hData, hTop⟩ := h.filled
  by_cases hIsTop : region1Vpns - lay.stackNpg ≤ i
  · exact iff_of_true (hTop.entry i hIsTop hHigh).1 (Or.inr (Or.inr hIsTop))
  rw [hTop.other i (by omega)]
  by_cases hIsData : lay.dataPg1 ≤ i ∧ i < lay.dataPg1 + lay.dataNpg
  · exact iff_of_true (hData.entry i hIsData.1 hIsData.2).1 (Or.inr (Or.inl hIsData))
  rw [hData.other i hIsData]
  by_cases hIsText : lay.textPg1 ≤ i ∧ i < lay.textPg1 + li.tNpg
  · exact iff_of_true (hText.entry i hIsText.1 hIsText.2).1 (Or.inl hIsText)
  rw [hText.other i hIsText, hInvalid i hLow hHigh]
  exact iff_of_false Bool.false_ne_true (by tauto)

/-- The frames of the new pages were free after the old ones were released. -/
theorem fresh (h : Allocated li lay x y) (hInvalid : ∀ i : Int, 0 ≤ i → i < region1Vpns → (x.table i).valid = false)
    {i : Int} (hLow : 0 ≤ i) (hHigh : i < region1Vpns) (hValid : (y.table i).valid = true) :
    (y.table i).prot = .readWrite ∧ (y.table i).pfn ∉ x.frames.inUse := by
  obtain ⟨text, data, hText, hData, hTop⟩ := h.filled
  by_cases hIsTop : region1Vpns - lay.stackNpg ≤ i
  · refine ⟨(hTop.entry i hIsTop hHigh).2, fun hUsed => (hTop.fresh i hIsTop hHigh).2 ?_⟩
    rw [hData.inUse, hText.inUse]
    exact Or.inl (Or.inl hUsed)
  rw [hTop.other i (by omega)] at hValid ⊢
  by_cases hIsData : lay.dataPg1 ≤ i ∧ i < lay.dataPg1 + lay.dataNpg
  · refine ⟨(hData.entry i hIsData.1 hIsData.2).2, fun hUsed => (hData.fresh i hIsData.1 hIsData.2).2 ?_⟩
    rw [hText.inUse]
    exact Or.inl hUsed
  rw [hData.other i hIsData] at hValid ⊢
  by_cases hIsText : lay.textPg1 ≤ i ∧ i < lay.textPg1 + li.tNpg
  · exact ⟨(hText.entry i hIsText.1 hIsText.2).2, (hText.fresh i hIsText.1 hIsText.2).2⟩
  rw [hText.other i hIsText, hInvalid i hLow hHigh] at hValid
  cases hValid

/-- The frames taken for the new pages. -/
theorem count (h : Allocated li lay x y) : y.frames.inUse.ncard =
    x.frames.inUse.ncard + li.tNpg + lay.dataNpg.toNat + lay.stackNpg.toNat := by
  obtain ⟨text, data, hText, hData, hTop⟩ := h.filled
  rw [hTop.ncard, hData.ncard, hText.ncard]
  omega

theorem owned (h : Allocated li lay x y) (hOwned : Mapping.Owned region1Vpns x) : Mapping.Owned region1Vpns y := by
  obtain ⟨text, data, hText, hData, hStack⟩ := h.filled
  exact ((hOwned.filled hText).filled hData).filled hStack

end Allocated

/-- The steps of the last part of the loader. -/
theorem finish_steps (h : finish m uc li lay args = .ok (m', uc')) : ∃ zeroed cleared counted,
    (protRegion m (lay.textPg1 + region1BaseVpn) (lay.textPg1 + region1BaseVpn + li.tNpg) .readExec).storeBytes
      li.idEnd.toInt (List.replicate (li.udEnd.toInt - li.idEnd.toInt).toNat 0) = .ok zeroed ∧
    Memory.storeBytes { zeroed with
      ctx := Function.update zeroed.ctx zeroed.active { zeroed.ctx zeroed.active with
        txtStartPage := lay.textPg1 + region1BaseVpn
        dataStartPage := lay.dataPg1 + region1BaseVpn
        origBrkPage := lay.dataPg1 + region1BaseVpn + lay.dataNpg
        currBrkPage := lay.dataPg1 + region1BaseVpn + lay.dataNpg } }
      lay.cpp (List.replicate (vmem1Limit - lay.cpp).toNat 0) = .ok cleared ∧
    cleared.storeBytes lay.cpp (Memory.wordBytes (BitVec.ofNat 32 args.length)) = .ok counted ∧
    buildArgs counted (lay.cpp + 4) lay.cp args = .ok m' ∧ uc' = { uc with pc := li.entry } := by
  unfold finish at h
  obtain ⟨zeroed, hZeroed, h⟩ := bind_eq_ok.mp h
  obtain ⟨cleared, hCleared, h⟩ := bind_eq_ok.mp h
  obtain ⟨counted, hCounted, h⟩ := bind_eq_ok.mp h
  obtain ⟨built, hBuilt, h⟩ := bind_eq_ok.mp h
  obtain ⟨rfl, rfl⟩ := Prod.mk.inj (Except.ok.inj h)
  exact ⟨zeroed, cleared, counted, store_eq_ok.mp hZeroed, store_eq_ok.mp hCleared, store_eq_ok.mp hCounted, hBuilt,
    rfl⟩

/-- The bounds that the loader records. -/
def record (m : Memory) (lay : Layout) : Memory :=
  { m with
    ctx := Function.update m.ctx m.active { m.ctx m.active with
      txtStartPage := lay.textPg1 + region1BaseVpn
      dataStartPage := lay.dataPg1 + region1BaseVpn
      origBrkPage := lay.dataPg1 + region1BaseVpn + lay.dataNpg
      currBrkPage := lay.dataPg1 + region1BaseVpn + lay.dataNpg } }

theorem region1Pt_record (m : Memory) (lay : Layout) : (record m lay).region1Pt = m.region1Pt := by
  simp [record, Memory.region1Pt]

/-- The memory after each stage of a successful `LoadProgram`. -/
structure Stages (m : Memory) (li : LoadInfo) (text data : List Byte) (args : List (List Byte)) (m' : Memory) where
  (x y : Mapping)
  (withText withData locked zeroed wiped counted : Memory)
  cleared : Mapping.Cleared 0 region1Vpns m.userMapping x
  allocated : Allocated li (layout li args) x y
  storeText : (m.withUser y).storeBytes li.tVaddr.toInt (text.take (li.tNpg * pageSize)) = .ok withText
  lengthText : (text.take (li.tNpg * pageSize)).length = li.tNpg * pageSize
  storeData : withText.storeBytes li.idVaddr.toInt (data.take (li.idNpg * pageSize)) = .ok withData
  lengthData : (data.take (li.idNpg * pageSize)).length = li.idNpg * pageSize
  lock : locked = protRegion withData ((layout li args).textPg1 + region1BaseVpn)
    ((layout li args).textPg1 + region1BaseVpn + li.tNpg) .readExec
  storeZeros : locked.storeBytes li.idEnd.toInt
    (List.replicate (li.udEnd.toInt - li.idEnd.toInt).toNat 0) = .ok zeroed
  wipe : (record zeroed (layout li args)).storeBytes (layout li args).cpp
    (List.replicate (vmem1Limit - (layout li args).cpp).toNat 0) = .ok wiped
  count : wiped.storeBytes (layout li args).cpp (Memory.wordBytes (BitVec.ofNat 32 args.length)) = .ok counted
  build : buildArgs counted ((layout li args).cpp + 4) (layout li args).cp args = .ok m'

theorem Succeeded.stages (h : Succeeded m file args uc li text data loaded) (hWf : m.frames.Wf) :
    Nonempty (Stages m li text data args loaded.mem) := by
  obtain ⟨x, hDealloc, hCleared⟩ := deallocateRegion1_eq hWf
  obtain ⟨mapped, withText, withData, hAlloc, hText, hData, hFinish⟩ := h.steps
  rw [hDealloc] at hAlloc
  have hDataPages : 0 ≤ (layout li args).dataNpg := by
    unfold layout
    dsimp only
    omega
  obtain ⟨y, hMapped, hAllocated⟩ := allocSegments_eq (m := m.withUser x) hCleared.wf hDataPages
    (layout_stack li args).2.le hAlloc
  rw [Memory.withUser_withUser] at hMapped
  rw [Memory.userMapping_withUser] at hAllocated
  subst hMapped
  obtain ⟨hStoreText, hLengthText⟩ := readSegment_eq hText
  obtain ⟨hStoreData, hLengthData⟩ := readSegment_eq hData
  obtain ⟨zeroed, wiped, counted, hZeroed, hWiped, hCounted, hBuilt, -⟩ := finish_steps hFinish
  exact ⟨{
    x := x
    y := y
    withText := withText
    withData := withData
    locked := _
    zeroed := zeroed
    wiped := wiped
    counted := counted
    cleared := hCleared
    allocated := hAllocated
    storeText := hStoreText
    lengthText := hLengthText
    storeData := hStoreData
    lengthData := hLengthData
    lock := rfl
    storeZeros := hZeroed
    wipe := hWiped
    count := hCounted
    build := hBuilt }⟩

namespace Stages

variable (st : Stages m li text data args m')

include st

theorem own_mapped : (m.withUser st.y).OwnFrames := by
  have hOwned := (st.allocated.owned st.cleared.owned).apart
  have hTable : (m.withUser st.y).region1Pt = st.y.table := congrArg Mapping.table (m.userMapping_withUser st.y)
  unfold Memory.OwnFrames
  rw [hTable]
  exact hOwned

theorem rewrites_text : Memory.Rewrites (m.withUser st.y) st.withText (Set.Ico li.tVaddr.toInt
    (li.tVaddr.toInt + (li.tNpg * pageSize : Nat))) := by
  have hRewrites := Memory.rewrites_storeBytes st.own_mapped st.storeText
  rwa [st.lengthText] at hRewrites

theorem own_text : st.withText.OwnFrames := st.rewrites_text.own st.own_mapped

theorem rewrites_data : Memory.Rewrites st.withText st.withData (Set.Ico li.idVaddr.toInt
    (li.idVaddr.toInt + (li.idNpg * pageSize : Nat))) := by
  have hRewrites := Memory.rewrites_storeBytes st.own_text st.storeData
  rwa [st.lengthData] at hRewrites

theorem own_data : st.withData.OwnFrames := st.rewrites_data.own st.own_text

theorem region1Pt_data : st.withData.region1Pt = st.y.table := by
  rw [Memory.region1Pt_storeBytes st.storeData, Memory.region1Pt_storeBytes st.storeText]
  exact congrArg Mapping.table (m.userMapping_withUser st.y)

/-- The table once the text is protected. -/
theorem locked_eq : ∃ pt, st.locked = st.withData.setRegion1Pt st.withData.active pt ∧
    ∀ i, pt i = if (layout li args).textPg1 ≤ i ∧ i < (layout li args).textPg1 + li.tNpg ∧
      (st.y.table i).valid = true then { st.y.table i with prot := .readExec } else st.y.table i := by
  have hLow := st.allocated.textLow
  have hHigh := st.allocated.textHigh
  have hLimit : region1LimitVpn = region1BaseVpn + region1Vpns := rfl
  have hFirst : region1BaseVpn ≤ (layout li args).textPg1 + region1BaseVpn := by omega
  have hLast : (layout li args).textPg1 + region1BaseVpn + li.tNpg ≤ region1LimitVpn := by omega
  obtain ⟨pt, hEq, hEntry⟩ := protRegion_eq (m := st.withData) hFirst hLast (by omega) .readExec
  refine ⟨pt, st.lock.trans hEq, fun i => ?_⟩
  rw [hEntry i, st.region1Pt_data]
  refine if_congr ?_ rfl rfl
  rw [← and_assoc, ← and_assoc]
  exact and_congr_left fun _ => by omega

theorem rewrites_locked : Memory.Rewrites st.withData st.locked ∅ := by
  obtain ⟨pt, hEq, hEntry⟩ := st.locked_eq
  have hTable : st.locked.region1Pt = pt := by
    rw [hEq]
    simp [Memory.setRegion1Pt, Memory.region1Pt]
  apply Memory.Rewrites.of_view
  · rw [hEq]
    rfl
  · intro i
    rw [hTable, hEntry i, st.region1Pt_data]
    split_ifs <;> rfl
  · intro i
    rw [hTable, hEntry i, st.region1Pt_data]
    split_ifs <;> rfl
  · rw [hEq]
    rfl

theorem own_locked : st.locked.OwnFrames := st.rewrites_locked.own st.own_data

theorem rewrites_zeroed : Memory.Rewrites st.locked st.zeroed (Set.Ico li.idEnd.toInt
    (li.idEnd.toInt + (li.udEnd.toInt - li.idEnd.toInt).toNat)) := by
  have hRewrites := Memory.rewrites_storeBytes st.own_locked st.storeZeros
  rwa [List.length_replicate] at hRewrites

theorem own_zeroed : st.zeroed.OwnFrames := st.rewrites_zeroed.own st.own_locked

theorem rewrites_record : Memory.Rewrites st.zeroed (record st.zeroed (layout li args)) ∅ :=
  .of_view rfl (fun i => by rw [region1Pt_record]) (fun i => by rw [region1Pt_record]) rfl

theorem own_record : (record st.zeroed (layout li args)).OwnFrames := st.rewrites_record.own st.own_zeroed

theorem rewrites_wiped : Memory.Rewrites (record st.zeroed (layout li args)) st.wiped
    (Set.Ico (layout li args).cpp vmem1Limit) := by
  obtain ⟨-, hPointers, hStrings, -⟩ := layout_order li args
  have hRewrites := Memory.rewrites_storeBytes st.own_record st.wipe
  rw [List.length_replicate] at hRewrites
  have hEnd : (layout li args).cpp + ((vmem1Limit - (layout li args).cpp).toNat : Int) = vmem1Limit := by omega
  rwa [hEnd] at hRewrites

theorem own_wiped : st.wiped.OwnFrames := st.rewrites_wiped.own st.own_record

theorem rewrites_counted : Memory.Rewrites st.wiped st.counted
    (Set.Ico (layout li args).cpp ((layout li args).cpp + 4)) :=
  Memory.rewrites_storeBytes st.own_wiped st.count

theorem own_counted : st.counted.OwnFrames := st.rewrites_counted.own st.own_wiped

theorem built : Built st.counted m' ((layout li args).cpp + 4) (layout li args).cp args := by
  obtain ⟨-, hPointers, -, -⟩ := layout_order li args
  exact buildArgs_built st.own_counted (by omega) st.build

/-- The last three stages write to the stack from `cpp` on. -/
theorem rewrites_stack : Memory.Rewrites (record st.zeroed (layout li args)) m'
    (Set.Ico (layout li args).cpp vmem1Limit) := by
  obtain ⟨-, hPointers, hStrings, -⟩ := layout_order li args
  refine ((st.rewrites_wiped.trans st.rewrites_counted).trans st.built.rewrites).mono ?_
  intro x hx
  simp only [argBytes, Set.mem_union, Set.mem_Ico, length_pointerBytes] at hx ⊢
  push_cast at hx
  omega

/-- The table that the program gets. -/
theorem region1Pt_eq : m'.region1Pt = st.locked.region1Pt := by
  have hBuilt : m'.region1Pt = st.counted.region1Pt := by
    have hSame := congrArg Memory.region1Pt st.built.same
    exact hSame
  rw [hBuilt, Memory.region1Pt_storeBytes st.count, Memory.region1Pt_storeBytes st.wipe, region1Pt_record,
    Memory.region1Pt_storeBytes st.storeZeros]

/-- The entries of the table that the program gets. -/
theorem entry_eq (i : Int) : m'.region1Pt i =
    if (layout li args).textPg1 ≤ i ∧ i < (layout li args).textPg1 + li.tNpg ∧ (st.y.table i).valid = true then
      { st.y.table i with prot := .readExec } else st.y.table i := by
  obtain ⟨pt, hEq, hEntry⟩ := st.locked_eq
  rw [st.region1Pt_eq, hEq, ← hEntry i]
  simp [Memory.setRegion1Pt, Memory.region1Pt]

theorem valid_eq (i : Int) : (m'.region1Pt i).valid = (st.y.table i).valid := by
  rw [st.entry_eq]
  split_ifs <;> rfl

theorem pfn_eq (i : Int) : (m'.region1Pt i).pfn = (st.y.table i).pfn := by
  rw [st.entry_eq]
  split_ifs <;> rfl

theorem frames_eq : m'.frames = st.y.frames := by
  rw [st.rewrites_stack.frames, st.rewrites_record.frames, st.rewrites_zeroed.frames, st.rewrites_locked.frames,
    st.rewrites_data.frames, st.rewrites_text.frames]
  rfl

/-- The valid pages are those of text, data and stack. -/
theorem valid_iff {i : Int} (hLow : 0 ≤ i) (hHigh : i < region1Vpns) : (m'.region1Pt i).valid = true ↔
    (layout li args).textPg1 ≤ i ∧ i < (layout li args).textPg1 + li.tNpg ∨
      (layout li args).dataPg1 ≤ i ∧ i < (layout li args).dataPg1 + (layout li args).dataNpg ∨
      region1Vpns - (layout li args).stackNpg ≤ i := by
  rw [st.valid_eq]
  refine st.allocated.valid_iff (fun i hLow hHigh => ?_) hLow hHigh
  rw [st.cleared.entry i hLow hHigh]

end Stages

end Yalnix.LoadProgram
