import Yalnix.Memory.Resources

/-! What `LoadProgram` comes to. The file, the arguments and the number of frames that
are free without the old program decide whether it refuses, kills, faults or loads. -/
namespace Yalnix.LoadProgram

open Hardware UserMemory Transition

variable [Hardware] {m m' : Memory} {uc : UserContext} {file : File} {args : List (List Byte)} {argsOk : Bool}
  {li : LoadInfo} {lay : Layout} {text data : List Byte} {x y : Mapping}

/-- There is room for the sections, and the file holds both segments. -/
structure Placed (free : Nat) (li : LoadInfo) (lay : Layout) (text data : List Byte) : Prop
    extends SegmentsFit free li lay where
  stack : li.tNpg + lay.dataNpg + lay.stackNpg ≤ free
  text : Readable li lay li.tVaddr li.tNpg text
  data : Readable li lay li.idVaddr li.idNpg data

/-- The page can be written once the text is protected. -/
def Unlocked (li : LoadInfo) (lay : Layout) (page : Int) : Prop :=
  Covered li lay page ∧ ¬(lay.textPg1 ≤ page ∧ page < lay.textPg1 + li.tNpg)

/-- The loader may clear the uninitialized data and write the stack. -/
structure Stores (li : LoadInfo) (lay : Layout) : Prop where
  zeros : ∀ addr, li.idEnd.toInt ≤ addr → addr < li.udEnd.toInt →
    Unlocked li lay (addr / pageSize - region1BaseVpn)
  stack : ∀ addr, lay.cpp ≤ addr → addr < vmem1Limit → Unlocked li lay (addr / pageSize - region1BaseVpn)

theorem store_fails_iff {addr : Int} {bytes : List Byte} :
    Fails (store m addr bytes) ↔ ¬m.Writable addr bytes.length := by
  unfold store
  by_cases hBuf : m.Writable addr bytes.length
  · obtain ⟨m', hStore⟩ := hBuf.exists_store le_rfl
    rw [hStore]
    exact iff_of_false (not_fails_ok _) (not_not.mpr hBuf)
  · obtain ⟨wild, hStore⟩ := Memory.exists_wildStore hBuf
    rw [hStore]
    exact iff_of_true (fails_error _) hBuf

theorem hasPerms_store {addr : Int} {bytes : List Byte} (h : store m addr bytes = .ok m') (other : Int) :
    m'.hasPerms other true = m.hasPerms other true :=
  Memory.hasPerms_congr (Memory.region1Pt_storeBytes (store_eq_ok.mp h)) other true

theorem exists_store (m : Memory) (addr : Int) (bytes : List Byte) (h : m.Writable addr bytes.length) :
    ∃ m', store m addr bytes = .ok m' := by
  obtain ⟨m', hStore⟩ := h.exists_store le_rfl
  exact ⟨m', store_eq_ok.mpr hStore⟩

/-- The arguments can be written when the whole area above `low` can. -/
theorem buildArgs_returns {cpp cp low high : Int}
    (hPerms : ∀ addr, low ≤ addr → addr < high → m.hasPerms addr true = true)
    (hPointers : cpp + 4 * (args.length + 2) ≤ high) (hStrings : cp + (stringBytes args).length ≤ high)
    (hCpp : low ≤ cpp) (hCp : low ≤ cp) : ∃ m', buildArgs m cpp cp args = .ok m' := by
  induction args generalizing m cpp cp with
  | nil =>
      refine exists_store m cpp _ fun addr hLow hHigh => hPerms addr (by omega) ?_
      simp only [List.length_append, Memory.length_wordBytes] at hHigh
      simp only [List.length_nil] at hPointers
      omega
  | cons arg rest ih =>
      simp only [stringBytes, List.length_append, List.length_cons, List.length_nil] at hPointers hStrings
      push_cast at hPointers hStrings
      obtain ⟨withPointer, hPointer⟩ := exists_store m cpp
        (Memory.wordBytes (BitVec.ofInt 32 cp)) fun addr hLow hHigh => by
          rw [Memory.length_wordBytes] at hHigh
          exact hPerms addr (by omega) (by omega)
      have hPerms₁ (addr : Int) (hLow : low ≤ addr) (hHigh : addr < high) : withPointer.hasPerms addr true = true := by
        rw [hasPerms_store hPointer]
        exact hPerms addr hLow hHigh
      obtain ⟨withString, hString⟩ := exists_store withPointer cp (arg ++ [0])
        fun addr hLow hHigh => by
          rw [List.length_append, List.length_singleton] at hHigh
          push_cast at hHigh
          exact hPerms₁ addr (by omega) (by omega)
      obtain ⟨m', hRest⟩ : ∃ m', buildArgs withString (cpp + 4) (cp + arg.length + 1) rest = .ok m' := by
        refine ih (fun addr hLow hHigh => ?_) (by omega) (by omega) (by omega) (by omega)
        rw [hasPerms_store hString]
        exact hPerms₁ addr hLow hHigh
      refine ⟨m', ?_⟩
      rw [buildArgs, hPointer]
      refine bind_eq_ok.mpr ⟨withPointer, rfl, ?_⟩
      rw [hString]
      exact bind_eq_ok.mpr ⟨withString, rfl, hRest⟩

/-- What may be written once the text is protected. -/
theorem hasPerms_locked (hCleared : Mapping.Cleared 0 region1Vpns m.userMapping x) (hAllocated : Allocated li lay x y)
    (hTable : m'.region1Pt = y.table) (addr : Int) :
    (protRegion m' (lay.textPg1 + region1BaseVpn) (lay.textPg1 + region1BaseVpn + li.tNpg) .readExec).hasPerms addr
      true = true ↔ Unlocked li lay (addr / pageSize - region1BaseVpn) := by
  have hLow := hAllocated.textLow
  have hHigh := hAllocated.textHigh
  have hLimit : region1LimitVpn = region1BaseVpn + region1Vpns := rfl
  have hFirst : region1BaseVpn ≤ lay.textPg1 + region1BaseVpn := by omega
  have hLast : lay.textPg1 + region1BaseVpn + li.tNpg ≤ region1LimitVpn := by omega
  obtain ⟨pt, hEq, hEntry⟩ := protRegion_eq (m := m') hFirst hLast (by omega) .readExec
  have hLocked : (m'.setRegion1Pt m'.active pt).region1Pt = pt := by simp [Memory.setRegion1Pt, Memory.region1Pt]
  have hText (i : Int) : (lay.textPg1 + region1BaseVpn - region1BaseVpn ≤ i ∧
      i < lay.textPg1 + region1BaseVpn + li.tNpg - region1BaseVpn) ↔
      lay.textPg1 ≤ i ∧ i < lay.textPg1 + li.tNpg := by omega
  rw [hEq, Memory.hasPerms_iff, hLocked, hEntry]
  have hBefore := hasPerms_covered hCleared hAllocated hTable addr
  rw [Memory.hasPerms_iff] at hBefore
  unfold Unlocked
  rw [← hBefore, ← hText (addr / pageSize - region1BaseVpn)]
  have hMapped : (m'.setRegion1Pt m'.active pt).Mapped addr ↔ m'.Mapped addr := by
    have hValid : (pt (addr / pageSize - region1BaseVpn)).valid =
        (m'.region1Pt (addr / pageSize - region1BaseVpn)).valid := by
      rw [hEntry]
      split_ifs <;> rfl
    constructor
    · exact fun h => ⟨h.low, h.high, by rw [← hValid, ← hLocked]; exact h.valid⟩
    · exact fun h => ⟨h.low, h.high, by rw [hLocked, hValid]; exact h.valid⟩
  rw [hMapped]
  split_ifs with hIn
  · refine iff_of_false (fun h => ?_) fun h => h.2 ⟨hIn.1, hIn.2.1⟩
    exact absurd (h.2.2 rfl) Bool.false_ne_true
  · exact ⟨fun h => ⟨h, fun hText => hIn ⟨hText.1, hText.2, h.1.valid⟩⟩, fun h => h.1⟩

/-- The stack is written when all of it can be. -/
theorem stack_returns {uc' : UserContext} (hPerms : ∀ addr, (layout li args).cpp ≤ addr → addr < vmem1Limit →
    m.hasPerms addr true = true) :
    ¬Fails (do
      let m ← store m (layout li args).cpp (List.replicate (vmem1Limit - (layout li args).cpp).toNat 0)
      let m ← store m (layout li args).cpp (Memory.wordBytes (BitVec.ofNat 32 args.length))
      let m ← buildArgs m ((layout li args).cpp + 4) (layout li args).cp args
      return (m, uc')) := by
  obtain ⟨-, hPointers, hStrings, -⟩ := layout_order li args
  obtain ⟨wiped, hWiped⟩ := exists_store m (layout li args).cpp
    (List.replicate (vmem1Limit - (layout li args).cpp).toNat 0) fun addr hLow hHigh => by
      rw [List.length_replicate] at hHigh
      exact hPerms addr hLow (by omega)
  obtain ⟨counted, hCounted⟩ := exists_store wiped (layout li args).cpp
    (Memory.wordBytes (BitVec.ofNat 32 args.length)) fun addr hLow hHigh => by
      rw [Memory.length_wordBytes] at hHigh
      rw [hasPerms_store hWiped]
      exact hPerms addr hLow (by omega)
  have hArea (addr : Int) (hLow : (layout li args).cpp ≤ addr) (hHigh : addr < vmem1Limit) :
      counted.hasPerms addr true = true := by
    rw [hasPerms_store hCounted, hasPerms_store hWiped]
    exact hPerms addr hLow hHigh
  obtain ⟨built, hBuilt⟩ : ∃ built,
      buildArgs counted ((layout li args).cpp + 4) (layout li args).cp args = .ok built :=
    buildArgs_returns hArea (by omega) (by omega) (by omega) (by omega)
  rw [hWiped]
  show ¬Fails (do
    let m ← store wiped (layout li args).cpp (Memory.wordBytes (BitVec.ofNat 32 args.length))
    let m ← buildArgs m ((layout li args).cpp + 4) (layout li args).cp args
    return (m, uc'))
  rw [hCounted]
  show ¬Fails (do
    let m ← buildArgs counted ((layout li args).cpp + 4) (layout li args).cp args
    return (m, uc'))
  rw [hBuilt]
  exact not_fails_ok _

/-- The last part of the loader faults when it may not store. -/
theorem finish_fails_iff (hCleared : Mapping.Cleared 0 region1Vpns m.userMapping x)
    (hAllocated : Allocated li (layout li args) x y) (hTable : m'.region1Pt = y.table) (uc : UserContext) :
    Fails (finish m' uc li (layout li args) args) ↔ ¬Stores li (layout li args) := by
  obtain ⟨-, hPointers, hStrings, -⟩ := layout_order li args
  have hLocked := hasPerms_locked hCleared hAllocated hTable
  unfold finish
  dsimp only
  generalize protRegion m' ((layout li args).textPg1 + region1BaseVpn)
    ((layout li args).textPg1 + region1BaseVpn + li.tNpg) .readExec = locked at hLocked ⊢
  rw [fails_bind, store_fails_iff, List.length_replicate]
  by_cases hZeros : locked.Writable li.idEnd.toInt (li.udEnd.toInt - li.idEnd.toInt).toNat
  swap
  · refine iff_of_true (Or.inl hZeros) fun h => hZeros fun addr hLow hHigh => ?_
    exact (hLocked addr).mpr (h.zeros addr hLow (by omega))
  obtain ⟨zeroed, hZeroed⟩ := exists_store locked li.idEnd.toInt
    (List.replicate (li.udEnd.toInt - li.idEnd.toInt).toNat 0) (by rwa [List.length_replicate])
  have hStores : Stores li (layout li args) ↔ ∀ addr, (layout li args).cpp ≤ addr → addr < vmem1Limit →
      locked.hasPerms addr true = true := by
    refine ⟨fun h addr hLow hHigh => (hLocked addr).mpr (h.stack addr hLow hHigh), fun h => ⟨?_, ?_⟩⟩
    · exact fun addr hLow hHigh => (hLocked addr).mp (hZeros addr hLow (by omega))
    · exact fun addr hLow hHigh => (hLocked addr).mp (h addr hLow hHigh)
  rw [hStores, or_iff_right (not_not.mpr hZeros)]
  have hRecord (cleared : Memory) (hOk : store locked li.idEnd.toInt
      (List.replicate (li.udEnd.toInt - li.idEnd.toInt).toNat 0) = .ok cleared) (addr : Int) :
      (record cleared (layout li args)).hasPerms addr true = locked.hasPerms addr true :=
    (Memory.hasPerms_congr (region1Pt_record cleared (layout li args)) addr true).trans (hasPerms_store hOk addr)
  constructor
  · rintro ⟨cleared, hOk, hFails⟩ hAll
    have hPerms (addr : Int) (hLow : (layout li args).cpp ≤ addr) (hHigh : addr < vmem1Limit) :
        (record cleared (layout li args)).hasPerms addr true = true :=
      (hRecord cleared hOk addr).trans (hAll addr hLow hHigh)
    exact stack_returns hPerms hFails
  · intro hNot
    refine ⟨zeroed, hZeroed, fails_bind.mpr (Or.inl (store_fails_iff.mpr fun hBuf => hNot fun addr hLow hHigh => ?_))⟩
    rw [← hRecord zeroed hZeroed addr]
    rw [List.length_replicate] at hBuf
    exact hBuf addr hLow (by omega)

/-- The loader touches a page that is not mapped for it. -/
def IsFault (stop : Stop) : Prop := ∃ addr, stop = .fault addr

theorem faults_store (m : Memory) (addr : Int) (bytes : List Byte) : StopsOnly IsFault (store m addr bytes) := by
  intro stop h
  unfold store at h
  cases hStore : m.storeBytes addr bytes with
  | ok m' => simp [hStore, Except.mapError] at h
  | error other =>
      rw [hStore] at h
      exact ⟨addr, (Except.error.inj h).symm⟩

theorem faults_buildArgs (m : Memory) (cpp cp : Int) (args : List (List Byte)) :
    StopsOnly IsFault (buildArgs m cpp cp args) := by
  induction args generalizing m cpp cp with
  | nil => exact faults_store _ _ _
  | cons arg rest ih => exact (faults_store _ _ _).bind fun _ => (faults_store _ _ _).bind fun _ => ih _ _ _

theorem faults_finish (m : Memory) (uc : UserContext) (li : LoadInfo) (lay : Layout) (args : List (List Byte)) :
    StopsOnly IsFault (finish m uc li lay args) :=
  (faults_store _ _ _).bind fun _ => (faults_store _ _ _).bind fun _ =>
    (faults_store _ _ _).bind fun _ => (faults_buildArgs _ _ _ _).bind fun _ => .ok _

theorem faults_loadProgram (m : Memory) (uc : UserContext) (file : File) (args : List (List Byte)) (argsOk : Bool) :
    StopsOnly IsFault (loadProgram m uc file args argsOk) := by
  unfold loadProgram
  split
  · exact .ok _
  · exact .ok _
  · dsimp only
    split_ifs
    · exact .ok _
    · exact .ok _
    · exact .ok _
    · split
      · split
        · exact .ok _
        · split
          · exact .ok _
          · exact (faults_finish _ _ _ _ _).bind fun _ => .ok _
      · exact .ok _
      · exact .ok _

/-- What a call of `LoadProgram` comes to: it refuses before it has changed anything,
kills the process when the program cannot be placed, faults when it may not store where
the program wants it to, and loads the program otherwise. -/
inductive Verdict (m : Memory) (uc : UserContext) (file : File) (args : List (List Byte)) (argsOk : Bool) :
    Except Stop Outcome → Prop where
  | refused {outcome : Outcome} (hNot : ∀ li text data, ¬Commits file args argsOk li text data)
      (hResult : outcome.result = .error) : Verdict m uc file args argsOk (.ok outcome)
  | killed {li : LoadInfo} {text data : List Byte} {outcome : Outcome}
      (hCommits : Commits file args argsOk li text data)
      (hNot : ¬Placed (deallocateRegion1 m).frames.freeCount li (layout li args) text data)
      (hResult : outcome.result = .kill) : Verdict m uc file args argsOk (.ok outcome)
  | faulted {li : LoadInfo} {text data : List Byte} {addr : Int} (hCommits : Commits file args argsOk li text data)
      (hPlaced : Placed (deallocateRegion1 m).frames.freeCount li (layout li args) text data)
      (hNot : ¬Stores li (layout li args)) : Verdict m uc file args argsOk (.error (.fault addr))
  | loaded {li : LoadInfo} {text data : List Byte} {outcome : Outcome}
      (hCommits : Commits file args argsOk li text data)
      (hPlaced : Placed (deallocateRegion1 m).frames.freeCount li (layout li args) text data)
      (hStores : Stores li (layout li args)) (hResult : outcome.result = .success)
      (hUc : outcome.uc = { uc with pc := li.entry, sp := BitVec.ofInt 32 (layout li args).sp }) :
      Verdict m uc file args argsOk (.ok outcome)

/-- The loader commits itself to one program. -/
theorem Commits.unique {li' : LoadInfo} {text' data' : List Byte} (h : Commits file args argsOk li text data)
    (hOther : Commits file args argsOk li' text' data') : li = li' ∧ text = text' ∧ data = data' :=
  File.image.inj (h.file_eq.symm.trans hOther.file_eq)

/-- A loader that has committed itself. -/
theorem verdict_committed (hWf : m.frames.Wf) (hCommits : Commits file args argsOk li text data) :
    Verdict m uc file args argsOk (loadProgram m uc file args argsOk) := by
  obtain ⟨x, hDealloc, hCleared⟩ := deallocateRegion1_eq hWf
  have hRoom : (layout li args).stackNpg + (layout li args).dataPg1 + (layout li args).dataNpg < region1Vpns := by
    have hMax : (maxPtLen : Int) = region1Vpns := by rw [maxPtLen_eq]
    rw [← hMax]
    exact hCommits.room
  have hData : 0 ≤ (layout li args).dataNpg := by
    unfold layout
    dsimp only
    omega
  have hFrames : (deallocateRegion1 m).frames.Wf := by
    rw [hDealloc]
    exact hCleared.wf
  have hSame := hCommits
  obtain rfl := hSame.file_eq
  unfold loadProgram
  dsimp only
  rw [if_neg (not_lt.mpr hCommits.entry), if_neg (not_le.mpr hCommits.room),
    if_neg (by rw [hCommits.buffer]; decide)]
  rcases allocSegments_cases li hFrames hData (layout_stack li args).2.le hRoom with
    ⟨hFit, hStack, mapped, hEq⟩ | ⟨hFit, hStack, mapped, hEq⟩ | ⟨hNoFit, mapped, n, hn, hEq⟩
  · rw [hDealloc] at hEq
    obtain ⟨y, hMapped, hAllocated⟩ := allocSegments_eq (m := m.withUser x) hCleared.wf hData
      (layout_stack li args).2.le hEq
    rw [Memory.userMapping_withUser] at hAllocated
    have hTable : mapped.region1Pt = y.table := by
      rw [hMapped, Memory.withUser_withUser]
      exact congrArg Mapping.table (m.userMapping_withUser y)
    rw [← hDealloc] at hEq
    simp only [hEq]
    have hText := readSegment_iff mapped li.tVaddr li.tNpg text
    simp only [hasPerms_covered hCleared hAllocated hTable] at hText
    split
    · rename_i withText hRead
      rw [hRead] at hText
      exact .killed hCommits (fun h => Bool.false_ne_true (hText.mpr h.text)) rfl
    rename_i withText hRead
    have hTextRead := hText.mp (congrArg Prod.snd hRead)
    have hKept : withText.region1Pt = y.table := by
      rw [Memory.region1Pt_storeBytes (readSegment_eq hRead).1, hTable]
    have hDataRead := readSegment_iff withText li.idVaddr li.idNpg data
    simp only [hasPerms_covered hCleared hAllocated hKept] at hDataRead
    split
    · rename_i withData hRead
      rw [hRead] at hDataRead
      exact .killed hCommits (fun h => Bool.false_ne_true (hDataRead.mpr h.data)) rfl
    rename_i withData hRead
    have hPlaced : Placed (deallocateRegion1 m).frames.freeCount li (layout li args) text data :=
      ⟨hFit, hStack, hTextRead, hDataRead.mp (congrArg Prod.snd hRead)⟩
    have hLast : withData.region1Pt = y.table := by
      rw [Memory.region1Pt_storeBytes (readSegment_eq hRead).1, hKept]
    have hFails := finish_fails_iff hCleared hAllocated hLast { uc with sp := BitVec.ofInt 32 (layout li args).sp }
    cases hFinish : finish withData { uc with sp := BitVec.ofInt 32 (layout li args).sp } li (layout li args) args with
    | error stop =>
        obtain ⟨addr, rfl⟩ := faults_finish _ _ _ _ _ _ hFinish
        rw [hFinish] at hFails
        exact .faulted hCommits hPlaced (hFails.mp (fails_error _))
    | ok done =>
        obtain ⟨_, _, _, -, -, -, -, hUc⟩ := finish_steps hFinish
        rw [hFinish] at hFails
        exact .loaded hCommits hPlaced (not_not.mp fun hNot => not_fails_ok _ (hFails.mpr hNot)) rfl hUc
  · rw [hEq]
    exact .killed hCommits (fun h => hStack h.stack) rfl
  · rw [hEq]
    rcases Nat.le_one_iff_eq_zero_or_eq_one.mp (Nat.lt_succ_iff.mp hn) with rfl | rfl
    · exact .killed hCommits (fun h => hNoFit h.toSegmentsFit) rfl
    · exact .killed hCommits (fun h => hNoFit h.toSegmentsFit) rfl

theorem loadProgram_verdict (hWf : m.frames.Wf) (uc : UserContext) (file : File) (args : List (List Byte))
    (argsOk : Bool) : Verdict m uc file args argsOk (loadProgram m uc file args argsOk) := by
  by_cases hCommits : ∃ li text data, Commits file args argsOk li text data
  · obtain ⟨li, text, data, hCommits⟩ := hCommits
    exact verdict_committed hWf hCommits
  · have hNone (li : LoadInfo) (text data : List Byte) : ¬Commits file args argsOk li text data :=
      fun hIs => hCommits ⟨li, text, data, hIs⟩
    unfold loadProgram
    split
    · exact .refused hNone rfl
    · exact .refused hNone rfl
    · dsimp only
      split_ifs with hEntry hRoom hArgs
      · exact .refused hNone rfl
      · exact .refused hNone rfl
      · exact .refused hNone rfl
      · exact absurd ⟨rfl, not_lt.mp hEntry, not_le.mp hRoom, by simpa using hArgs⟩ (hNone _ _ _)

/-- The loader succeeds exactly with a program that it can place and store. -/
theorem Verdict.success_iff {r : Except Stop Outcome} (h : Verdict m uc file args argsOk r) :
    (∃ outcome, r = .ok outcome ∧ outcome.result = .success) ↔ ∃ li text data,
      Commits file args argsOk li text data ∧
        Placed (deallocateRegion1 m).frames.freeCount li (layout li args) text data ∧ Stores li (layout li args) := by
  constructor
  · rintro ⟨outcome, rfl, hSuccess⟩
    cases h with
    | loaded hCommits hPlaced hStores => exact ⟨_, _, _, hCommits, hPlaced, hStores⟩
    | refused _ hResult | killed _ _ hResult =>
        rw [hResult] at hSuccess
        cases hSuccess
  · rintro ⟨li, text, data, hCommits, hPlaced, hStores⟩
    cases h with
    | loaded _ _ _ hResult => exact ⟨_, rfl, hResult⟩
    | refused hNot => exact absurd hCommits (hNot _ _ _)
    | killed hAlso hNot =>
        obtain ⟨rfl, rfl, rfl⟩ := hCommits.unique hAlso
        exact absurd hPlaced hNot
    | faulted hAlso _ hNot =>
        obtain ⟨rfl, rfl, rfl⟩ := hCommits.unique hAlso
        exact absurd hStores hNot

end Yalnix.LoadProgram
