import Yalnix.Memory.Stages
import Yalnix.Sample

/-! The descriptor and the argument buffer of `LoadProgram`. Its exits differ in
what they give back, so the resources that are left depend on how far it gets. -/
namespace Yalnix

open Hardware UserMemory Transition

section

variable [Hardware] {m m' : Memory}

theorem Memory.storeBytes_iff (addr : Int) (bytes : List Byte) : (∃ m', m.storeBytes addr bytes = .ok m') ↔
    ∀ k : Nat, k < bytes.length → m.hasPerms (addr + k) true = true := by
  induction bytes generalizing m addr with
  | nil => simp [storeBytes]
  | cons byte rest ih =>
      simp only [storeBytes, List.length_cons]
      split_ifs with hPerms
      · have hSame (x : Int) : (m.pokeByte addr byte).hasPerms x true = m.hasPerms x true := rfl
        rw [ih]
        constructor
        · intro hRest k hk
          cases k with
          | zero => simpa using hPerms
          | succ k =>
              have hNext := hRest k (by omega)
              rw [hSame] at hNext
              rw [← hNext]
              congr 1
              push_cast
              omega
        · intro hAll k hk
          rw [hSame]
          have hNext := hAll (k + 1) (by omega)
          rw [← hNext]
          congr 1
          push_cast
          omega
      · simp only [exists_false, false_iff, not_forall]
        exact ⟨0, by omega, by simpa using hPerms⟩

/-- A region is allocated exactly when it lies in region 1 and there are frames for it. -/
theorem UserMemory.allocRegion_cases (first last : Int) (prot : Prot) (hWf : m.frames.Wf) (hOrder : first ≤ last) :
    ((region1BaseVpn ≤ first ∧ last ≤ region1LimitVpn ∧ last - first ≤ m.frames.freeCount) ∧
      ∃ x, allocRegion m first last prot = (m.withUser x, true) ∧
        Mapping.Filled prot (first - region1BaseVpn) (last - region1BaseVpn) m.userMapping x) ∨
    (¬(region1BaseVpn ≤ first ∧ last ≤ region1LimitVpn ∧ last - first ≤ m.frames.freeCount) ∧
      ∃ m', allocRegion m first last prot = (m', false)) := by
  have hLimit : region1LimitVpn = region1BaseVpn + region1Vpns := rfl
  have hFrames : m.userMapping.frames = m.frames := rfl
  unfold allocRegion
  split_ifs with hRange
  · exact Or.inr ⟨by omega, m, rfl⟩
  · rw [allocPages_eq, pageRange_sub]
    have hAttempt : Mapping.Attempt region1Vpns prot _ _ m.userMapping _ :=
      Mapping.attempt hWf (sub_le_sub_right hOrder region1BaseVpn) prot
    generalize Mapping.allocAll region1Vpns m.userMapping (first - region1BaseVpn) prot
      (pageRange (first - region1BaseVpn) (last - region1BaseVpn)) = result at hAttempt
    cases hAttempt with
    | @done y hIn hFilled =>
        have hCount := hFilled.count
        rw [hFrames] at hCount
        exact Or.inl ⟨⟨by omega, by omega, by omega⟩, y, rfl, hFilled⟩
    | @full y c hLow hHigh hIn hCount hRestored =>
        rw [hFrames] at hCount
        exact Or.inr ⟨by omega, _, rfl⟩
    | @lost y c pfn hLow hHigh hIn hOut hCount hFree hRestored => omega

end

namespace LoadProgram

section

variable [Hardware] {m m' : Memory} {uc : UserContext} {file : File} {args : List (List Byte)} {argsOk : Bool}
  {li : LoadInfo} {lay : Layout} {text data : List Byte} {loaded : Outcome}

omit [Hardware] in
/-- What was acquired was given back exactly once. -/
def Released (resources : List Resource) : Prop :=
  (.opened ∈ resources → resources.count .closed = 1) ∧
    (.argsAllocated ∈ resources → resources.count .argsFreed = 1)

instance (resources : List Resource) : Decidable (Released resources) := inferInstanceAs (Decidable (_ ∧ _))

/-- The loader passes its checks and gets its argument buffer. -/
structure Commits (file : File) (args : List (List Byte)) (argsOk : Bool) (li : LoadInfo) (text data : List Byte) :
    Prop where
  file_eq : file = .image li text data
  entry : vmem1Base ≤ li.entry.toInt
  room : (layout li args).stackNpg + (layout li args).dataPg1 + (layout li args).dataNpg < maxPtLen
  buffer : argsOk = true

/-- The regions of text and data lie in region 1, and `free` frames are enough for them. -/
structure SegmentsFit (free : Nat) (li : LoadInfo) (lay : Layout) : Prop where
  textLow : 0 ≤ lay.textPg1
  textHigh : lay.textPg1 + li.tNpg ≤ region1Vpns
  dataLow : 0 ≤ lay.dataPg1
  dataHigh : lay.dataPg1 + lay.dataNpg ≤ region1Vpns
  frames : li.tNpg + lay.dataNpg ≤ free

/-- The page belongs to text, data or stack. -/
def Covered (li : LoadInfo) (lay : Layout) (page : Int) : Prop :=
  0 ≤ page ∧ page < region1Vpns ∧ (lay.textPg1 ≤ page ∧ page < lay.textPg1 + li.tNpg ∨
    lay.dataPg1 ≤ page ∧ page < lay.dataPg1 + lay.dataNpg ∨ region1Vpns - lay.stackNpg ≤ page)

/-- The file holds the whole segment, and all of its bytes belong to the new program. -/
def Readable (li : LoadInfo) (lay : Layout) (vaddr : Word) (npg : Nat) (bytes : List Byte) : Prop :=
  npg * pageSize ≤ bytes.length ∧
    ∀ k : Nat, k < npg * pageSize → Covered li lay ((vaddr.toInt + k) / pageSize - region1BaseVpn)

/-- A loader that has committed itself gets past the regions of text and data, and
past both segments if it gets a stack. -/
def GetsThrough (m : Memory) (file : File) (args : List (List Byte)) (argsOk : Bool) : Prop :=
  ∀ li text data, Commits file args argsOk li text data →
    SegmentsFit (deallocateRegion1 m).frames.freeCount li (layout li args) ∧
      (li.tNpg + (layout li args).dataNpg + (layout li args).stackNpg ≤ (deallocateRegion1 m).frames.freeCount →
        Readable li (layout li args) li.tVaddr li.tNpg text ∧ Readable li (layout li args) li.idVaddr li.idNpg data)

/-- How far the three allocations get. -/
theorem allocSegments_cases (li : LoadInfo) {lay : Layout} (hWf : m.frames.Wf) (hData : 0 ≤ lay.dataNpg) (hStack : 0 ≤ lay.stackNpg)
    (hRoom : lay.stackNpg + lay.dataPg1 + lay.dataNpg < region1Vpns) :
    (SegmentsFit m.frames.freeCount li lay ∧ li.tNpg + lay.dataNpg + lay.stackNpg ≤ m.frames.freeCount ∧
      ∃ m', allocSegments m li lay = (m', 3)) ∨
    (SegmentsFit m.frames.freeCount li lay ∧ ¬li.tNpg + lay.dataNpg + lay.stackNpg ≤ m.frames.freeCount ∧
      ∃ m', allocSegments m li lay = (m', 2)) ∨
    (¬SegmentsFit m.frames.freeCount li lay ∧ ∃ m' n, n < 2 ∧ allocSegments m li lay = (m', n)) := by
  have hLimit : region1LimitVpn = region1BaseVpn + region1Vpns := rfl
  unfold allocSegments
  dsimp only
  rcases allocRegion_cases (lay.textPg1 + region1BaseVpn) (lay.textPg1 + region1BaseVpn + li.tNpg) .readWrite
    hWf (by omega) with ⟨hText, x, hEq, hFilled⟩ | ⟨hNo, m₁, hEq⟩
  · rw [hEq]
    have hTextCount := hFilled.count
    have hFrames : m.userMapping.frames = m.frames := rfl
    rw [hFrames] at hTextCount
    rcases allocRegion_cases (m := m.withUser x) (lay.dataPg1 + region1BaseVpn)
      (lay.dataPg1 + region1BaseVpn + lay.dataNpg) .readWrite hFilled.wf (by omega) with
      ⟨hDataIn, y, hEq, hDataFilled⟩ | ⟨hNo, m₂, hEq⟩
    · dsimp only
      rw [hEq, Memory.withUser_withUser]
      have hDataCount := hDataFilled.count
      rw [Memory.userMapping_withUser] at hDataCount
      have hSame : (m.withUser x).frames = x.frames := rfl
      rw [hSame] at hDataIn
      have hFit : SegmentsFit m.frames.freeCount li lay := ⟨by omega, by omega, by omega, by omega, by omega⟩
      rcases allocRegion_cases (m := m.withUser y) (region1LimitVpn - lay.stackNpg) region1LimitVpn .readWrite
        hDataFilled.wf (by omega) with ⟨hStackIn, z, hEq, hStackFilled⟩ | ⟨hNo, m₃, hEq⟩
      · dsimp only
        rw [hEq]
        have hLast : (m.withUser y).frames = y.frames := rfl
        rw [hLast] at hStackIn
        exact Or.inl ⟨hFit, by omega, _, rfl⟩
      · dsimp only
        rw [hEq]
        have hLast : (m.withUser y).frames = y.frames := rfl
        rw [hLast] at hNo
        have hLow := hFit.dataLow
        exact Or.inr (Or.inl ⟨hFit, by omega, _, rfl⟩)
    · dsimp only
      rw [hEq]
      have hSame : (m.withUser x).frames = x.frames := rfl
      rw [hSame] at hNo
      refine Or.inr (Or.inr ⟨fun hFit => hNo ?_, _, 1, by decide, rfl⟩)
      have hLow := hFit.dataLow
      have hHigh := hFit.dataHigh
      have hFew := hFit.frames
      omega
  · rw [hEq]
    refine Or.inr (Or.inr ⟨fun hFit => hNo ?_, _, 0, by decide, rfl⟩)
    have hLow := hFit.textLow
    have hHigh := hFit.textHigh
    have hFew := hFit.frames
    omega

theorem readSegment_iff (m : Memory) (vaddr : Word) (npg : Nat) (bytes : List Byte) :
    (readSegment m vaddr npg bytes).2 = true ↔ npg * pageSize ≤ bytes.length ∧
      ∀ k : Nat, k < npg * pageSize → m.hasPerms (vaddr.toInt + k) true = true := by
  have hLength : (bytes.take (npg * pageSize)).length = min (npg * pageSize) bytes.length := List.length_take
  have hStored := Memory.storeBytes_iff (m := m) vaddr.toInt (bytes.take (npg * pageSize))
  rw [hLength] at hStored
  unfold readSegment
  dsimp only
  split
  · rename_i stop hFail
    rw [hFail] at hStored
    simp only [Bool.false_eq_true, false_iff]
    rintro ⟨hLong, hPerms⟩
    rw [Nat.min_eq_left hLong] at hStored
    obtain ⟨_, hOk⟩ := hStored.mpr hPerms
    cases hOk
  · rename_i next hStore
    simp only [hLength, decide_eq_true_eq]
    constructor
    · intro hMin
      rw [hMin] at hStored
      exact ⟨by omega, hStored.mp ⟨next, hStore⟩⟩
    · exact fun hLong => Nat.min_eq_left hLong.1

/-- A byte may be stored exactly where text, data or stack are mapped. -/
theorem hasPerms_covered {x y : Mapping} (hCleared : Mapping.Cleared 0 region1Vpns m.userMapping x)
    (hAllocated : Allocated li lay x y) {n : Memory} (hTable : n.region1Pt = y.table) (addr : Int) :
    n.hasPerms addr true = true ↔ Covered li lay (addr / pageSize - region1BaseVpn) := by
  have hInvalid (i : Int) (hLow : 0 ≤ i) (hHigh : i < region1Vpns) : (x.table i).valid = false := by
    rw [hCleared.entry i hLow hHigh]
  have hSize : (0 : Int) < pageSize := Int.natCast_pos.mpr pageSize_pos
  rw [Memory.hasPerms_iff, hTable]
  unfold Covered
  constructor
  · rintro ⟨hMapped, -⟩
    obtain ⟨hLow, hHigh⟩ := Memory.page_bounds hMapped.low hMapped.high
    have hValid := hMapped.valid
    rw [hTable] at hValid
    exact ⟨hLow, hHigh, (hAllocated.valid_iff hInvalid hLow hHigh).mp hValid⟩
  · rintro ⟨hLow, hHigh, hPage⟩
    have hValid := (hAllocated.valid_iff hInvalid hLow hHigh).mpr hPage
    have hProt := (hAllocated.fresh hInvalid hLow hHigh hValid).1
    refine ⟨⟨?_, ?_, hTable ▸ hValid⟩, ?_, fun _ => ?_⟩
    · exact (Int.le_ediv_iff_mul_le hSize).mp (by omega)
    · refine (Int.ediv_lt_iff_lt_mul hSize).mp ?_
      unfold region1LimitVpn
      omega
    · rw [hProt]
      rfl
    · rw [hProt]
      rfl

/-- The condition for a loader that has committed itself. -/
theorem getsThrough_iff (h : Commits file args argsOk li text data) : GetsThrough m file args argsOk ↔
    SegmentsFit (deallocateRegion1 m).frames.freeCount li (layout li args) ∧
      (li.tNpg + (layout li args).dataNpg + (layout li args).stackNpg ≤ (deallocateRegion1 m).frames.freeCount →
        Readable li (layout li args) li.tVaddr li.tNpg text ∧
          Readable li (layout li args) li.idVaddr li.idNpg data) := by
  constructor
  · exact fun hAll => hAll li text data h
  · intro hThis li' text' data' h'
    obtain ⟨rfl, rfl, rfl⟩ := File.image.inj (h.file_eq.symm.trans h'.file_eq)
    exact hThis

/-- The exits before the argument buffer is there are clean. -/
theorem getsThrough_early (h : ∀ li text data, ¬Commits file args argsOk li text data) :
    GetsThrough m file args argsOk := fun li text data hCommits => absurd hCommits (h li text data)

/-- The exits of a loader that has committed itself. -/
theorem released_committed (hWf : m.frames.Wf) (hCommits : Commits file args argsOk li text data)
    (h : loadProgram m uc file args argsOk = .ok loaded) :
    Released loaded.resources ↔ GetsThrough m file args argsOk := by
  rw [getsThrough_iff hCommits]
  obtain rfl := hCommits.file_eq
  obtain ⟨x, hDealloc, hCleared⟩ := deallocateRegion1_eq hWf
  have hRoom : (layout li args).stackNpg + (layout li args).dataPg1 + (layout li args).dataNpg < region1Vpns := by
    have hMax : (maxPtLen : Int) = region1Vpns := by rw [maxPtLen_eq]
    rw [← hMax]
    exact hCommits.room
  have hData : 0 ≤ (layout li args).dataNpg := by
    unfold layout
    dsimp only
    omega
  have hFrames : (deallocateRegion1 m).frames.Wf := by
    rw [hDealloc]
    exact hCleared.wf
  unfold loadProgram at h
  dsimp only at h
  rw [if_neg (not_lt.mpr hCommits.entry), if_neg (not_le.mpr hCommits.room),
    if_neg (by rw [hCommits.buffer]; decide)] at h
  rcases allocSegments_cases li hFrames hData (layout_stack li args).2.le hRoom with
    ⟨hFit, hStack, mapped, hEq⟩ | ⟨hFit, hStack, mapped, hEq⟩ | ⟨hNoFit, mapped, n, hn, hEq⟩
  · rw [hDealloc] at hEq
    obtain ⟨y, hMapped, hAllocated⟩ := allocSegments_eq (m := m.withUser x) hCleared.wf hData
      (layout_stack li args).2.le hEq
    rw [Memory.userMapping_withUser] at hAllocated
    have hTable : mapped.region1Pt = y.table := by
      rw [hMapped, Memory.withUser_withUser]
      exact congrArg Mapping.table (m.userMapping_withUser y)
    have hText := readSegment_iff mapped li.tVaddr li.tNpg text
    simp only [hasPerms_covered hCleared hAllocated hTable] at hText
    rw [← hDealloc] at hEq
    simp only [hEq] at h
    rw [and_iff_right hFit, imp_iff_right hStack]
    split at h
    · rename_i withText hRead
      obtain rfl := Except.ok.inj h
      rw [hRead] at hText
      have hKept : ¬Released [.opened, .argsAllocated, .closed] := by decide
      refine iff_of_false hKept fun hBoth => ?_
      cases hText.mpr hBoth.1
    · rename_i withText hRead
      have hTextRead := hText.mp (congrArg Prod.snd hRead)
      have hSame : withText.region1Pt = y.table := by
        rw [Memory.region1Pt_storeBytes (readSegment_eq hRead).1, hTable]
      have hDataRead := readSegment_iff withText li.idVaddr li.idNpg data
      simp only [hasPerms_covered hCleared hAllocated hSame] at hDataRead
      split at h
      · rename_i withData hRead
        obtain rfl := Except.ok.inj h
        rw [hRead] at hDataRead
        have hKept : ¬Released [.opened, .argsAllocated, .closed] := by decide
        refine iff_of_false hKept fun hBoth => ?_
        cases hDataRead.mpr hBoth.2
      · rename_i withData hRead
        obtain ⟨last, -, h⟩ := bind_eq_ok.mp h
        obtain rfl := Except.ok.inj h
        have hGiven : Released [.opened, .argsAllocated, .closed, .argsFreed] := by decide
        exact iff_of_true hGiven ⟨hTextRead, hDataRead.mp (congrArg Prod.snd hRead)⟩
  · simp only [hEq] at h
    obtain rfl := Except.ok.inj h
    have hGiven : Released [.opened, .argsAllocated, .argsFreed, .closed] := by decide
    exact iff_of_true hGiven ⟨hFit, fun hEnough => absurd hEnough hStack⟩
  · have hKept : ¬Released [.opened, .argsAllocated] := by decide
    refine iff_of_false ?_ fun hBoth => hNoFit hBoth.1
    rcases Nat.le_one_iff_eq_zero_or_eq_one.mp (Nat.lt_succ_iff.mp hn) with rfl | rfl
    · simp only [hEq] at h
      obtain rfl := Except.ok.inj h
      exact hKept
    · simp only [hEq] at h
      obtain rfl := Except.ok.inj h
      exact hKept

/-- `LoadProgram` gives back what it acquires, exactly once, exactly if it does not
give up between the allocation of the argument buffer and the allocation of the stack,
nor at a short read. -/
theorem exec_releases_iff (hWf : m.frames.Wf) (h : loadProgram m uc file args argsOk = .ok loaded) :
    Released loaded.resources ↔ GetsThrough m file args argsOk := by
  by_cases hCommits : ∃ li text data, Commits file args argsOk li text data
  · obtain ⟨li, text, data, hCommits⟩ := hCommits
    exact released_committed hWf hCommits h
  · have hNone (li : LoadInfo) (text data : List Byte) : ¬Commits file args argsOk li text data :=
      fun hIs => hCommits ⟨li, text, data, hIs⟩
    have hNothing : Released [] := by decide
    have hClosed : Released [.opened, .closed] := by decide
    refine iff_of_true ?_ (getsThrough_early hNone)
    unfold loadProgram at h
    dsimp only at h
    split at h
    · obtain rfl := Except.ok.inj h
      exact hNothing
    · obtain rfl := Except.ok.inj h
      exact hClosed
    · rename_i li text data
      split_ifs at h with hEntry hRoom hArgs
      · obtain rfl := Except.ok.inj h
        exact hClosed
      · obtain rfl := Except.ok.inj h
        exact hClosed
      · obtain rfl := Except.ok.inj h
        exact hClosed
      · exact absurd ⟨rfl, not_lt.mp hEntry, not_le.mp hRoom, by simpa using hArgs⟩ (hNone li text data)

end

section

open Sample

/-- The program of the sample machine is loaded, and nothing is left open. -/
theorem exec_releases_program : GetsThrough (after turn).mem program [] true := by
  have hRun : ((loadProgram (after turn).mem (context []) program [] true).toOption.any
      fun loaded => decide (Released loaded.resources)) = true := by decide +kernel
  obtain ⟨loaded, hLoaded, hReleased⟩ := (Option.any_eq_true _ _).mp hRun
  have hWf : (after turn).mem.frames.Wf := ⟨by decide +kernel, by decide +kernel⟩
  exact (exec_releases_iff hWf (mem_toOption.mp hLoaded)).mp (of_decide_eq_true hReleased)

/-- A file that ends within its page of data. -/
def truncated : File := .image ⟨192, 192, 1, 208, 1, 224, 0, 224⟩ (List.replicate 16 0) (List.replicate 8 0)

/-- The process is killed, and its argument buffer is never freed. -/
theorem exec_releases_fails : KernelStart.system.Reachable (after turn) ∧ ∃ loaded : Outcome,
    loadProgram (after turn).mem (context []) truncated [[65]] true = .ok loaded ∧ loaded.result = .kill ∧
      ¬Released loaded.resources := by
  have hRun : ((loadProgram (after turn).mem (context []) truncated [[65]] true).toOption.any
      fun loaded => decide (loaded.result = .kill ∧ ¬Released loaded.resources)) = true := by decide +kernel
  obtain ⟨loaded, hLoaded, hResult⟩ := (Option.any_eq_true _ _).mp hRun
  exact ⟨reachable_after (by decide +kernel), loaded, mem_toOption.mp hLoaded, of_decide_eq_true hResult⟩

end

end LoadProgram
end Yalnix
