import Yalnix.Memory.Resources

/-! Memories that differ in the contents of frames only. Pages are mapped and released
without a look at what lies in them, and a store writes the same bytes to both. -/
namespace Yalnix

open Hardware Transition

namespace Memory

/-- The same memory with other contents. -/
def setPmem (m : Memory) (pmem : Nat → Nat → Byte) : Memory := { m with pmem := pmem }

@[simp] theorem userMapping_setPmem (m : Memory) (pmem : Nat → Nat → Byte) :
    (m.setPmem pmem).userMapping = m.userMapping := rfl

@[simp] theorem region1Pt_setPmem (m : Memory) (pmem : Nat → Nat → Byte) :
    (m.setPmem pmem).region1Pt = m.region1Pt := rfl

@[simp] theorem ctx_setPmem (m : Memory) (pmem : Nat → Nat → Byte) : (m.setPmem pmem).ctx = m.ctx := rfl

@[simp] theorem active_setPmem (m : Memory) (pmem : Nat → Nat → Byte) :
    (m.setPmem pmem).active = m.active := rfl

theorem withUser_setPmem (m : Memory) (pmem : Nat → Nat → Byte) (x : Mapping) :
    (m.setPmem pmem).withUser x = (m.withUser x).setPmem pmem := rfl

end Memory

namespace UserMemory

variable [Hardware] (m : Memory) (pmem : Nat → Nat → Byte)

theorem undoAllocation_setPmem (firstVpn lastVpn : Int) :
    undoAllocation (m.setPmem pmem) firstVpn lastVpn = (undoAllocation m firstVpn lastVpn).setPmem pmem := by
  rw [undoAllocation_eq, undoAllocation_eq, Memory.userMapping_setPmem, Memory.withUser_setPmem]

theorem allocPages_setPmem (firstVpn : Int) (prot : Prot) (pages : List Int) :
    allocPages (m.setPmem pmem) firstVpn prot pages =
      ((allocPages m firstVpn prot pages).1.setPmem pmem, (allocPages m firstVpn prot pages).2) := by
  rw [allocPages_eq, allocPages_eq, Memory.userMapping_setPmem, Memory.withUser_setPmem]

theorem allocRegion_setPmem (startVpn endVpn : Int) (prot : Prot) :
    allocRegion (m.setPmem pmem) startVpn endVpn prot =
      ((allocRegion m startVpn endVpn prot).1.setPmem pmem, (allocRegion m startVpn endVpn prot).2) := by
  unfold allocRegion
  split_ifs
  · rfl
  · exact allocPages_setPmem m pmem _ _ _

theorem changeProt_setPmem (vpn : Int) (prot : Prot) :
    changeProt (m.setPmem pmem) vpn prot = (changeProt m vpn prot).setPmem pmem := by
  unfold changeProt
  rw [Memory.region1Pt_setPmem]
  split_ifs <;> rfl

theorem protRegion_setPmem (startVpn endVpn : Int) (prot : Prot) :
    protRegion (m.setPmem pmem) startVpn endVpn prot = (protRegion m startVpn endVpn prot).setPmem pmem := by
  unfold protRegion
  split_ifs
  · rfl
  · induction pageRange startVpn endVpn generalizing m with
    | nil => rfl
    | cons vpn rest ih => rw [List.foldl_cons, changeProt_setPmem, ih, List.foldl_cons]

theorem growStack_setPmem (pages : List Int) :
    growStack (m.setPmem pmem) pages = (growStack m pages).setPmem pmem := by
  induction pages generalizing m with
  | nil => rfl
  | cons vpn rest ih =>
      rw [growStack, growStack, Memory.region1Pt_setPmem]
      split_ifs
      · rfl
      · rw [allocPage_eq, allocPage_eq, Memory.userMapping_setPmem, Memory.withUser_setPmem, ih]

theorem kernelBrkImpl_setPmem (addr sp : Word) : kernelBrkImpl (m.setPmem pmem) addr sp =
    ((kernelBrkImpl m addr sp).1.setPmem pmem, (kernelBrkImpl m addr sp).2) := by
  unfold kernelBrkImpl
  simp only [allocPages_setPmem, undoAllocation_setPmem, Memory.ctx_setPmem, Memory.active_setPmem]
  split_ifs
  · rfl
  · generalize allocPages m _ _ _ = result
    obtain ⟨n, ok⟩ := result
    cases ok <;> rfl
  · rfl

theorem expandStack_setPmem (sp : Word) : expandStack (m.setPmem pmem) sp =
    ((expandStack m sp).1.setPmem pmem, (expandStack m sp).2) := by
  unfold expandStack
  dsimp only
  rw [growStack_setPmem, Memory.ctx_setPmem, Memory.active_setPmem]
  split_ifs <;> rfl

theorem deallocateRegion1_setPmem :
    deallocateRegion1 (m.setPmem pmem) = (deallocateRegion1 m).setPmem pmem := undoAllocation_setPmem m pmem _ _

end UserMemory

namespace Mapping

variable [Hardware] {size : Nat} {x y : Mapping} {i j : Int} {prot : Prot}

/-- Pages that are still valid after a release are the pages they were. -/
theorem dealloc_survivor (h : ((dealloc size x i).1.table j).valid = true) :
    (dealloc size x i).1.table j = x.table j := by
  unfold dealloc at h ⊢
  split_ifs at h ⊢
  · rfl
  · by_cases hSame : j = i
    · rw [hSame] at h
      simp [destroyPte] at h
    · exact Function.update_of_ne hSame _ _
  · rfl

theorem undo_survivor (first last : Int) (h : ((undo size x first last).table j).valid = true) :
    (undo size x first last).table j = x.table j := by
  unfold undo at h ⊢
  generalize pageRange first last = pages at h ⊢
  induction pages generalizing x with
  | nil => rfl
  | cons i rest ih =>
      rw [List.foldl_cons] at h ⊢
      have hRest := ih h
      rw [hRest] at h
      rw [hRest, dealloc_survivor h]

theorem alloc_other (h : alloc size x i prot = (y, true)) (hj : j ≠ i) : y.table j = x.table j := by
  unfold alloc at h
  split at h
  · cases (Prod.mk.inj h).2
  · split_ifs at h
    · obtain rfl := (Prod.mk.inj h).1
      exact Function.update_of_ne hj _ _
    · cases (Prod.mk.inj h).2

/-- A range that was mapped completely leaves the other pages alone. -/
theorem allocAll_other {first : Int} {pages : List Int} (hAll : allocAll size x first prot pages = (y, true))
    (hj : j ∉ pages) : y.table j = x.table j := by
  induction pages generalizing x with
  | nil =>
      obtain rfl := (Prod.mk.inj hAll).1
      rfl
  | cons i rest ih =>
      rw [List.mem_cons, not_or] at hj
      rw [allocAll] at hAll
      split at hAll
      · rename_i z hAlloc
        rw [ih hAll hj.2, alloc_other hAlloc hj.1]
      · cases (Prod.mk.inj hAll).2

end Mapping

namespace LoadProgram

variable [Hardware] {m m' n n' : Memory} {known more : Set Int} {addr cpp cp : Int} {bytes : List Byte}
  {args : List (List Byte)} {li : LoadInfo} {file : File} {uc : UserContext} {argsOk : Bool} {loaded loaded' : Outcome}

open UserMemory in
theorem allocSegments_setPmem (m : Memory) (pmem : Nat → Nat → Byte) (li : LoadInfo) (lay : Layout) :
    allocSegments (m.setPmem pmem) li lay =
      ((allocSegments m li lay).1.setPmem pmem, (allocSegments m li lay).2) := by
  unfold allocSegments
  dsimp only
  rw [allocRegion_setPmem]
  generalize allocRegion m _ _ _ = text
  obtain ⟨text, textOk⟩ := text
  cases textOk with
  | false => rfl
  | true =>
      dsimp only
      rw [allocRegion_setPmem]
      generalize allocRegion text _ _ _ = data
      obtain ⟨data, dataOk⟩ := data
      cases dataOk with
      | false => rfl
      | true =>
          dsimp only
          rw [allocRegion_setPmem]
          generalize allocRegion data _ _ _ = stack
          obtain ⟨stack, stackOk⟩ := stack
          cases stackOk <;> rfl

end LoadProgram

namespace Memory

variable [Hardware] {m m' n n' : Memory} {known more : Set Int} {addr x : Int} {bytes : List Byte}

/-- Two memories that agree in everything but the contents of frames, and in the
bytes that lie at the `known` addresses. -/
structure Alike (known : Set Int) (m m' : Memory) : Prop where
  eq : m' = m.setPmem m'.pmem
  bytes : ∀ x ∈ known, m'.byteAt x = m.byteAt x

namespace Alike

theorem mono (h : Alike known m m') (hLess : more ⊆ known) : Alike more m m' :=
  ⟨h.eq, fun x hx => h.bytes x (hLess hx)⟩

theorem region1Pt (h : Alike known m m') : m'.region1Pt = m.region1Pt := by rw [h.eq, region1Pt_setPmem]

theorem hasPerms (h : Alike known m m') (x : Int) (needsWrite : Bool) :
    m'.hasPerms x needsWrite = m.hasPerms x needsWrite := hasPerms_congr h.region1Pt x needsWrite

theorem frameOf (h : Alike known m m') (x : Int) : m'.frameOf x = m.frameOf x := by
  rw [Memory.frameOf, Memory.frameOf, h.region1Pt]

/-- A byte that is written to both is known afterwards. -/
theorem pokeByte (h : Alike known m m') (addr : Int) (byte : Byte) :
    Alike (insert addr known) (m.pokeByte addr byte) (m'.pokeByte addr byte) where
  eq := by
    rw [h.eq]
    rfl
  bytes x hx := by
    show Function.update m'.pmem (m'.frameOf addr) (Function.update (m'.pmem (m'.frameOf addr)) (offsetOf addr) byte)
      (m'.frameOf x) (offsetOf x) = Function.update m.pmem (m.frameOf addr)
      (Function.update (m.pmem (m.frameOf addr)) (offsetOf addr) byte) (m.frameOf x) (offsetOf x)
    rw [h.frameOf, h.frameOf]
    by_cases hFrame : m.frameOf x = m.frameOf addr
    · rw [hFrame, Function.update_self, Function.update_self]
      by_cases hOffset : offsetOf x = offsetOf addr
      · rw [hOffset, Function.update_self, Function.update_self]
      · have hOther : x ≠ addr := fun hSame => hOffset (congrArg offsetOf hSame)
        have hByte := h.bytes x (hx.resolve_left hOther)
        rw [Function.update_of_ne hOffset, Function.update_of_ne hOffset, ← hFrame]
        rwa [byteAt, byteAt, h.frameOf] at hByte
    · have hOther : x ≠ addr := fun hSame => hFrame (congrArg m.frameOf hSame)
      have hByte := h.bytes x (hx.resolve_left hOther)
      rw [Function.update_of_ne hFrame, Function.update_of_ne hFrame]
      rwa [byteAt, byteAt, h.frameOf] at hByte

/-- So are the bytes of a store. -/
theorem storeBytes (h : Alike known m m') (hStore : m.storeBytes addr bytes = .ok n)
    (hStore' : m'.storeBytes addr bytes = .ok n') :
    Alike (known ∪ Set.Ico addr (addr + bytes.length)) n n' := by
  induction bytes generalizing m m' addr known with
  | nil =>
      obtain rfl := Except.ok.inj hStore
      obtain rfl := Except.ok.inj hStore'
      simpa using h
  | cons byte rest ih =>
      simp only [Memory.storeBytes] at hStore hStore'
      split_ifs at hStore hStore' with hPerms hPerms'
      refine (ih (h.pokeByte addr byte) hStore hStore').mono ?_
      rintro x (hx | ⟨hLow, hHigh⟩)
      · exact Or.inl (Or.inr hx)
      · rw [List.length_cons] at hHigh
        by_cases hHere : x = addr
        · exact Or.inl (Or.inl hHere)
        · exact Or.inr ⟨by omega, by omega⟩

/-- Pages that have kept their frames. -/
theorem restrict (h : Alike known m m') (hPmem : n.pmem = m.pmem)
    (hKept : ∀ x ∈ more, x ∈ known ∧ n.frameOf x = m.frameOf x) : Alike more n (n.setPmem m'.pmem) where
  eq := rfl
  bytes x hx := by
    obtain ⟨hBefore, hFrame⟩ := hKept x hx
    have hByte := h.bytes x hBefore
    rw [byteAt, byteAt, h.frameOf] at hByte
    show m'.pmem (n.frameOf x) (offsetOf x) = n.pmem (n.frameOf x) (offsetOf x)
    rw [hFrame, hPmem, hByte]

end Alike
end Memory

namespace UserMemory

variable [Hardware] {m m' n : Memory} {i : Int} {known : Set Int}

theorem changeProt_entry (m : Memory) (vpn : Int) (prot : Prot) (i : Int) :
    ∃ p, (changeProt m vpn prot).region1Pt i = { m.region1Pt i with prot := p } := by
  unfold changeProt
  split_ifs
  · exact ⟨_, rfl⟩
  · simp only [Memory.setRegion1Pt, Memory.region1Pt, Function.update_self]
    by_cases hHere : i = vpn - region1BaseVpn
    · rw [hHere, Function.update_self]
      exact ⟨prot, rfl⟩
    · rw [Function.update_of_ne hHere]
      exact ⟨_, rfl⟩
  · exact ⟨_, rfl⟩

/-- A change of protections keeps the valid pages and their frames. -/
theorem protRegion_entry (m : Memory) (startVpn endVpn : Int) (prot : Prot) (i : Int) :
    ∃ p, (protRegion m startVpn endVpn prot).region1Pt i = { m.region1Pt i with prot := p } := by
  unfold protRegion
  split_ifs
  · exact ⟨_, rfl⟩
  · induction pageRange startVpn endVpn generalizing m with
    | nil => exact ⟨_, rfl⟩
    | cons vpn rest ih =>
        obtain ⟨p, hHere⟩ := changeProt_entry m vpn prot i
        obtain ⟨q, hRest⟩ := ih (changeProt m vpn prot)
        exact ⟨q, by rw [List.foldl_cons, hRest, hHere]⟩

theorem alike_protRegion (h : Memory.Alike known m m') (startVpn endVpn : Int) (prot : Prot) :
    Memory.Alike known (protRegion m startVpn endVpn prot) (protRegion m' startVpn endVpn prot) := by
  have hPmem (m : Memory) : (protRegion m startVpn endVpn prot).pmem = m.pmem := by
    have hSame := congrArg Memory.pmem (protRegion_setPmem m m.pmem startVpn endVpn prot)
    exact hSame
  have hByte (m : Memory) (x : Int) : (protRegion m startVpn endVpn prot).byteAt x = m.byteAt x := by
    obtain ⟨p, hEntry⟩ := protRegion_entry m startVpn endVpn prot (x / pageSize - region1BaseVpn)
    rw [Memory.byteAt, Memory.byteAt, Memory.frameOf, Memory.frameOf, hEntry, hPmem]
  constructor
  · rw [hPmem m', h.eq, protRegion_setPmem]
    rfl
  · intro x hx
    rw [hByte, hByte]
    exact h.bytes x hx

/-- What can be read outside of the pages a `Brk` has mapped could be read before. -/
theorem kernelBrkImpl_kept {addr sp : Word} {x : Int} (hSuccess : (kernelBrkImpl m addr sp).2 = successCode)
    (hOld : ¬((m.ctx m.active).currBrkPage ≤ x / pageSize ∧ x / pageSize < pageNumber (upToPage addr)))
    (h : (kernelBrkImpl m addr sp).1.hasPerms x false = true) :
    m.hasPerms x false = true ∧ (kernelBrkImpl m addr sp).1.frameOf x = m.frameOf x := by
  have hTable (y : Mapping) (page : Int) : (setCurrBrkPage (m.withUser y) page).region1Pt = y.table := by
    rw [← congrArg Mapping.table (m.userMapping_withUser y)]
    simp [setCurrBrkPage, Memory.region1Pt, Memory.userMapping]
  have hSame {n : Memory} (hEntry : n.region1Pt (x / pageSize - region1BaseVpn) =
      m.region1Pt (x / pageSize - region1BaseVpn)) (h : n.hasPerms x false = true) :
      m.hasPerms x false = true ∧ n.frameOf x = m.frameOf x := by
    constructor
    · rwa [Memory.hasPerms, hEntry] at h
    · rw [Memory.frameOf, hEntry, Memory.frameOf]
  unfold kernelBrkImpl at hSuccess h ⊢
  dsimp only at hSuccess h ⊢
  split_ifs at hSuccess h ⊢ with hRefused hGrow
  · exact ⟨h, rfl⟩
  · generalize hAlloc : allocPages m (m.ctx m.active).currBrkPage .readWrite
      (pageRange (m.ctx m.active).currBrkPage (pageNumber (upToPage addr))) = result at hSuccess h ⊢
    obtain ⟨n, ok⟩ := result
    cases ok with
    | false => cases hSuccess
    | true =>
        rw [allocPages_eq, pageRange_sub] at hAlloc
        obtain ⟨rfl, hOk⟩ := Prod.mk.inj hAlloc
        apply hSame _ h
        dsimp only
        rw [hTable]
        apply Mapping.allocAll_other (Prod.ext rfl hOk)
        rw [mem_pageRange]
        omega
  · rw [undoAllocation_eq] at h ⊢
    have hValid := (Memory.hasPerms_iff.mp h).1.valid
    rw [hTable] at hValid
    apply hSame _ h
    rw [hTable]
    exact Mapping.undo_survivor _ _ hValid

end UserMemory

namespace LoadProgram

open UserMemory

variable [Hardware] {m m' n n' : Memory} {known : Set Int} {addr cpp cp i : Int} {bytes text data : List Byte}
  {args : List (List Byte)} {li : LoadInfo} {lay : Layout} {file : File} {uc : UserContext} {argsOk : Bool}
  {loaded loaded' : Outcome}

theorem alike_buildArgs (h : Memory.Alike known m m') (hBuild : buildArgs m cpp cp args = .ok n)
    (hBuild' : buildArgs m' cpp cp args = .ok n') : Memory.Alike known n n' := by
  induction args generalizing m m' cpp cp with
  | nil => exact (h.storeBytes (store_eq_ok.mp hBuild) (store_eq_ok.mp hBuild')).mono Set.subset_union_left
  | cons arg rest ih =>
      obtain ⟨pointed, hPointer, hBuild⟩ := bind_eq_ok.mp hBuild
      obtain ⟨copied, hString, hBuild⟩ := bind_eq_ok.mp hBuild
      obtain ⟨pointed', hPointer', hBuild'⟩ := bind_eq_ok.mp hBuild'
      obtain ⟨copied', hString', hBuild'⟩ := bind_eq_ok.mp hBuild'
      have hPointed := (h.storeBytes (store_eq_ok.mp hPointer) (store_eq_ok.mp hPointer')).mono Set.subset_union_left
      have hCopied := (hPointed.storeBytes (store_eq_ok.mp hString) (store_eq_ok.mp hString')).mono
        Set.subset_union_left
      exact ih hCopied hBuild hBuild'

/-- The addresses the loader writes to, whatever the file and the arguments are. -/
def Written (li : LoadInfo) (lay : Layout) : Set Int :=
  Set.Ico li.tVaddr.toInt (li.tVaddr.toInt + (li.tNpg * pageSize : Nat)) ∪
    Set.Ico li.idVaddr.toInt (li.idVaddr.toInt + (li.idNpg * pageSize : Nat)) ∪
      Set.Ico li.idEnd.toInt li.udEnd.toInt ∪ Set.Ico lay.cpp vmem1Limit

theorem alike_record (h : Memory.Alike known m m') (lay : Layout) :
    Memory.Alike known (record m lay) (record m' lay) := by
  have hByte (m : Memory) (x : Int) : (record m lay).byteAt x = m.byteAt x := by
    rw [Memory.byteAt, Memory.byteAt, Memory.frameOf, Memory.frameOf, region1Pt_record]
    rfl
  constructor
  · rw [h.eq]
    rfl
  · intro x hx
    rw [hByte, hByte]
    exact h.bytes x hx

/-- Two loads of one program with the same arguments. -/
theorem Succeeded.alike (h : Succeeded m file args uc li text data loaded)
    (h' : Succeeded m' file args uc li text data loaded') (hSame : m' = m.setPmem m'.pmem) :
    Memory.Alike (Written li (layout li args)) loaded.mem loaded'.mem ∧ loaded'.uc = loaded.uc := by
  obtain ⟨mapped, withText, withData, hAlloc, hText, hData, hFinish⟩ := h.steps
  obtain ⟨mapped', withText', withData', hAlloc', hText', hData', hFinish'⟩ := h'.steps
  have hStart : Memory.Alike ∅ mapped mapped' := by
    rw [hSame, deallocateRegion1_setPmem, allocSegments_setPmem, hAlloc] at hAlloc'
    obtain rfl := (Prod.mk.inj hAlloc').1
    exact ⟨rfl, fun x hx => absurd hx (Set.notMem_empty x)⟩
  obtain ⟨hStoreText, hLengthText⟩ := readSegment_eq hText
  obtain ⟨hStoreText', -⟩ := readSegment_eq hText'
  obtain ⟨hStoreData, hLengthData⟩ := readSegment_eq hData
  obtain ⟨hStoreData', -⟩ := readSegment_eq hData'
  have hRead := (hStart.storeBytes hStoreText hStoreText').storeBytes hStoreData hStoreData'
  rw [hLengthText, hLengthData] at hRead
  obtain ⟨zeroed, wiped, counted, hZeroed, hWiped, hCounted, hBuilt, hUc⟩ := finish_steps hFinish
  obtain ⟨zeroed', wiped', counted', hZeroed', hWiped', hCounted', hBuilt', hUc'⟩ := finish_steps hFinish'
  have hLocked := (alike_protRegion hRead _ _ .readExec).storeBytes hZeroed hZeroed'
  have hRecord := alike_record hLocked (layout li args)
  have hStack := (hRecord.storeBytes hWiped hWiped').storeBytes hCounted hCounted'
  refine ⟨(alike_buildArgs hStack hBuilt hBuilt').mono ?_, hUc'.trans hUc.symm⟩
  rw [List.length_replicate, List.length_replicate]
  rintro x (((hIn | hIn) | ⟨hLow, hHigh⟩) | ⟨hLow, hHigh⟩)
  · exact Or.inl (Or.inl (Or.inl (Or.inl (Or.inr hIn))))
  · exact Or.inl (Or.inl (Or.inl (Or.inr hIn)))
  · exact Or.inl (Or.inl (Or.inr ⟨hLow, by omega⟩))
  · exact Or.inl (Or.inr ⟨hLow, by omega⟩)

end LoadProgram
end Yalnix
