import Yalnix.Memory.Extent
import Yalnix.Memory.Loaded
import Yalnix.Memory.Spared
import Yalnix.Memory.StackGrowth

/-! Frames in use that have an owner. An operation that maps pages only where no page is
mapped, and only inside of its region, leaves no frame behind without one. -/
namespace Yalnix

open Hardware KernelMemory UserMemory Transition

variable [Hardware]

namespace Mapping

variable {size : Nat} {x y : Mapping} {a b i : Int} {prot : Prot}

/-- Only entries from `a` up to `b` change. A frame that is in use afterwards is held by
one of them, or it was in use before and held by none of them. -/
structure Tidy (a b : Int) (x y : Mapping) : Prop where
  other : ∀ i, ¬(a ≤ i ∧ i < b) → y.table i = x.table i
  inUse : ∀ pfn ∈ y.frames.inUse, pfn ∈ heldFrames y.table a b ∨
    pfn ∈ x.frames.inUse ∧ pfn ∉ heldFrames x.table a b
  wf : y.frames.Wf

omit [Hardware] in
theorem heldFrames_unmapped {pt : PageTable} (hUnmapped : ∀ i, a ≤ i → i < b → (pt i).valid = false) (pfn : Nat) :
    pfn ∉ heldFrames pt a b := by
  rintro ⟨i, hLow, hHigh, hValid, -⟩
  rw [hUnmapped i hLow hHigh] at hValid
  cases hValid

theorem Tidy.same (hTable : y.table = x.table) (hUsed : y.frames.inUse = x.frames.inUse) (hWf : y.frames.Wf)
    (a b : Int) : Tidy a b x y where
  other i _ := congrFun hTable i
  inUse pfn hIn := by
    rw [hTable]
    exact (em _).imp_right fun hNone => ⟨hUsed ▸ hIn, hNone⟩
  wf := hWf

/-- Pages are mapped where none was mapped. -/
theorem Filled.tidy (h : Filled prot a b x y) (hUnmapped : ∀ i, a ≤ i → i < b → (x.table i).valid = false) :
    Tidy a b x y where
  other := h.other
  inUse pfn hIn := by
    rw [h.inUse] at hIn
    rcases hIn with hOld | ⟨i, hLow, hHigh, hPfn⟩
    · exact Or.inr ⟨hOld, heldFrames_unmapped hUnmapped pfn⟩
    · exact Or.inl ⟨i, hLow, hHigh, (h.entry i hLow hHigh).1, hPfn⟩
  wf := h.wf

theorem Cleared.tidy (h : Cleared a b x y) : Tidy a b x y where
  other := h.other
  inUse pfn hIn := by
    rw [h.inUse] at hIn
    exact Or.inr hIn
  wf := h.wf

/-- A growth over pages that were not mapped is undone. -/
theorem Restored.tidy {c : Int} (h : Restored ∅ a c x y) (hLess : c ≤ b)
    (hUnmapped : ∀ i, a ≤ i → i < b → (x.table i).valid = false) : Tidy a b x y where
  other i hOut := h.other i (by omega)
  inUse pfn hIn := by
    rw [h.inUse, Set.union_empty] at hIn
    exact Or.inr ⟨hIn, heldFrames_unmapped hUnmapped pfn⟩
  wf := h.wf

theorem tidy_alloc (hWf : x.frames.Wf) (hIn : 0 ≤ i ∧ i < size) (hUnmapped : (x.table i).valid = false) (prot : Prot) :
    Tidy i (i + 1) x (alloc size x i prot).1 := by
  have hCases := alloc_cases hWf size i prot
  generalize alloc size x i prot = result at hCases
  cases hCases with
  | @full frames hFull hWf hSize hSame => exact Tidy.same (x := x) (y := { x with frames := frames }) rfl hSame hWf _ _
  | lost hOut => exact absurd hIn hOut
  | @mapped frames pfn _ hWf hSize hFree hMarked =>
      constructor
      · intro j hj
        exact Function.update_of_ne (by omega) _ _
      · intro other hOther
        rw [hMarked] at hOther
        rcases hOther with rfl | hOld
        · refine Or.inl ⟨i, le_rfl, lt_add_one i, ?_, ?_⟩
          · simp [createPte]
          · simp [createPte]
        · refine Or.inr ⟨hOld, heldFrames_unmapped (fun j hLow hHigh => ?_) other⟩
          obtain rfl : j = i := by omega
          exact hUnmapped
      · exact hWf

end Mapping

/-- Every frame in use is held by the kernel or by one of these processes. -/
structure Accounted (who : Proc → Prop) (m : Memory) : Prop where
  holder : ∀ pfn ∈ m.frames.inUse, ∃ owner, m.Holds who owner pfn
  wf : m.frames.Wf

namespace Accounted

variable {who : Proc → Prop} {m m' : Memory} {a b : Int} {x : Mapping}

/-- The owners are as before, and no more frames are in use. -/
theorem keep (h : Accounted who m) {some : Proc → Prop}
    (hHolds : ∀ owner pfn, m.Holds who owner pfn → m'.Holds some owner pfn)
    (hUsed : m'.frames.inUse ⊆ m.frames.inUse) (hWf : m'.frames.Wf) : Accounted some m' where
  holder pfn hIn := by
    obtain ⟨owner, hOwner⟩ := h.holder pfn (hUsed hIn)
    exact ⟨owner, hHolds owner pfn hOwner⟩
  wf := hWf

theorem mono (h : Accounted who m) {more : Proc → Prop} (hMore : ∀ p, who p → more p) : Accounted more m :=
  h.keep (fun _ _ hOwner => ⟨hOwner.1.mono hMore, hOwner.2⟩) subset_rfl h.wf

theorem same (h : Accounted who m) (hEntry : m'.entry = m.entry) (hUsed : m'.frames.inUse ⊆ m.frames.inUse)
    (hWf : m'.frames.Wf) : Accounted who m' :=
  h.keep (fun _ _ hOwner => by rwa [Memory.Holds, hEntry]) hUsed hWf

theorem user (h : Accounted who m) (hActive : who m.active) (hTidy : Mapping.Tidy a b m.userMapping x) :
    Accounted who (m.withUser x) where
  holder pfn hIn := by
    have hTable : (m.withUser x).region1Pt = x.table := congrArg Mapping.table (Memory.userMapping_withUser m x)
    rcases hTidy.inUse pfn hIn with ⟨i, -, -, hValid, hPfn⟩ | ⟨hOld, hNone⟩
    · refine ⟨.user m.active i, hActive, ?_, ?_⟩
      · show ((m.withUser x).region1Pt i).valid = true
        rwa [hTable]
      · show ((m.withUser x).region1Pt i).pfn = pfn
        rwa [hTable]
    · obtain ⟨owner, hCounts, hHeld⟩ := h.holder pfn hOld
      refine ⟨owner, hCounts, ?_⟩
      suffices hSame : (m.withUser x).entry owner = m.entry owner by rwa [hSame]
      cases owner with
      | heap vpn => rfl
      | stack proc i => rfl
      | user proc i =>
          by_cases hProc : proc = m.active
          · subst hProc
            show (m.withUser x).region1Pt i = m.region1Pt i
            rw [hTable]
            exact hTidy.other i fun hRange => hNone ⟨i, hRange.1, hRange.2, hHeld⟩
          · simp [Memory.entry, Memory.withUser, Memory.setRegion1Pt, Memory.setFrames, hProc]
  wf := hTidy.wf

theorem kernel (h : Accounted who m) (hBelow : b ≤ stackBase) (hTidy : Mapping.Tidy a b m.kernelMapping x) :
    Accounted who (m.withKernel x) where
  holder pfn hIn := by
    rcases hTidy.inUse pfn hIn with ⟨i, hLow, hHigh, hValid, hPfn⟩ | ⟨hOld, hNone⟩
    · exact ⟨.heap i, fun hWindow => by omega, hValid, hPfn⟩
    · obtain ⟨owner, hCounts, hHeld⟩ := h.holder pfn hOld
      refine ⟨owner, hCounts, ?_⟩
      suffices hSame : (m.withKernel x).entry owner = m.entry owner by rwa [hSame]
      cases owner with
      | heap vpn => exact hTidy.other vpn fun hRange => hNone ⟨vpn, hRange.1, hRange.2, hHeld⟩
      | stack proc i => rfl
      | user proc i => rfl
  wf := hTidy.wf

/-- An entry keeps its frame. -/
theorem update {owner : Owner} {e : Pte} (h : Accounted who m) (hEntry : m'.entry = Function.update m.entry owner e)
    (hValid : e.valid = (m.entry owner).valid) (hPfn : e.pfn = (m.entry owner).pfn) (hFrames : m'.frames = m.frames) :
    Accounted who m' := by
  refine h.keep (fun other pfn hOther => ⟨hOther.1, ?_⟩) (hFrames ▸ subset_rfl) (hFrames ▸ h.wf)
  rw [hEntry]
  by_cases hSame : other = owner
  · subst hSame
    rw [Function.update_self, hValid, hPfn]
    exact hOther.2
  · rw [Function.update_of_ne hSame]
    exact hOther.2

theorem storeBytes {addr : Int} {bytes : List Byte} (h : Accounted who m) (hStore : m.storeBytes addr bytes = .ok m') :
    Accounted who m' := by
  rw [Memory.storeBytes_eq hStore]
  exact h.same rfl subset_rfl h.wf

end Accounted

namespace UserMemory

variable {who : Proc → Prop} {m m' : Memory} {vpn : Int} {prot : Prot}

theorem accounted_allocPage (h : Accounted who m) (hActive : who m.active) (hIn : inRegion1 vpn)
    (hUnmapped : (m.region1Pt (vpn - region1BaseVpn)).valid = false) (prot : Prot) :
    Accounted who (allocPage m vpn prot).1 := by
  rw [allocPage_eq]
  exact h.user hActive (Mapping.tidy_alloc (x := m.userMapping) h.wf hIn.symm hUnmapped prot)

theorem accounted_growStack {pages : List Int} (h : Accounted who m) (hActive : who m.active)
    (hPages : ∀ vpn ∈ pages, inRegion1 vpn) : Accounted who (growStack m pages) := by
  induction pages generalizing m with
  | nil => exact h
  | cons vpn pages ih =>
      unfold growStack
      split_ifs with hValid
      · exact h
      · have hUnmapped : (m.region1Pt (vpn - region1BaseVpn)).valid = false := by simpa using hValid
        have hPage := accounted_allocPage h hActive (hPages vpn List.mem_cons_self) hUnmapped .readWrite
        have hSame : (allocPage m vpn .readWrite).1.active = m.active :=
          congrArg KernelSide.active (kernelSide_allocPage m vpn .readWrite)
        exact ih hPage (hSame ▸ hActive) fun page hIn => hPages page (List.mem_cons_of_mem _ hIn)

/-- The stack grows over pages that are not mapped only. -/
theorem accounted_expandStack (h : Accounted who m) (hActive : who m.active) (addr : Word) :
    Accounted who (expandStack m addr).1 := by
  unfold expandStack
  dsimp only
  split_ifs with hRange hBelow
  · exact h
  · exact h
  · refine accounted_growStack h hActive fun vpn hIn => ?_
    have hPage : region1BaseVpn ≤ pageNumber (downToPage addr) := (page_in_region1 (by omega) (by omega)).1
    have hVpn := mem_pageRange.mp hIn
    have hLimit : region1LimitVpn = region1BaseVpn + region1Vpns := rfl
    exact ⟨by omega, by omega⟩

theorem accounted_setCurrBrkPage (h : Accounted who m) (page : Int) : Accounted who (setCurrBrkPage m page) := by
  refine h.same ?_ subset_rfl h.wf
  funext owner
  cases owner with
  | heap vpn => rfl
  | stack proc i => rfl
  | user proc i =>
      by_cases hProc : proc = m.active
      · subst hProc
        simp [Memory.entry, setCurrBrkPage]
      · simp [Memory.entry, setCurrBrkPage, hProc]

/-- `Brk` grows over pages that are not mapped only, if there is room at the break. -/
theorem accounted_kernelBrkImpl {addr sp : Word} (h : Accounted who m) (hActive : who m.active)
    (hReady : (m.ctx m.active).Ready)
    (hRoom : BrkRejected m addr sp ∨ RoomAtBreak m (pageNumber (upToPage addr))) :
    Accounted who (kernelBrkImpl m addr sp).1 := by
  by_cases hAllowed : BrkRejected m addr sp
  · unfold kernelBrkImpl
    dsimp only
    unfold BrkRejected at hAllowed
    rw [if_pos hAllowed]
    exact h
  · have hRoom := hRoom.resolve_left hAllowed
    have hBrk := brk_cases h.wf hReady hAllowed
    have hUpper := hReady.upper
    generalize kernelBrkImpl m addr sp = result at hBrk
    have hFrames : m.userMapping.frames = m.frames := rfl
    cases hBrk with
    | @grown y hMore hLimit hFilled =>
        have hCount := hFilled.count
        rw [hFrames] at hCount
        refine accounted_setCurrBrkPage (h.user hActive (hFilled.tidy fun i hLow hHigh => ?_)) _
        have hPage := (hRoom (i + region1BaseVpn) (by omega) (by omega) (by omega)).2
        rwa [add_sub_cancel_right] at hPage
    | shrunk hLow hLess hCleared => exact accounted_setCurrBrkPage (h.user hActive hCleared.tidy) _
    | full hFirst hLast hLimit hCount hRestored =>
        refine h.user hActive (hRestored.tidy le_rfl fun i hLow hHigh => ?_)
        have hPage := (hRoom (i + region1BaseVpn) (by omega) (by omega) (by omega)).2
        rwa [add_sub_cancel_right] at hPage
    | lost hLast hCount hFree hRestored =>
        have hPage := (hRoom region1LimitVpn hUpper hLast (by omega)).1
        exact absurd hPage (lt_irrefl _)

theorem accounted_changeProt (h : Accounted who m) (vpn : Int) (prot : Prot) : Accounted who (changeProt m vpn prot) := by
  unfold changeProt
  split_ifs with hIn hValid
  · exact h
  · exact h.update (m.entry_setUser m.frames _ _ _) rfl rfl rfl
  · exact h

theorem accounted_protRegion (h : Accounted who m) (first last : Int) (prot : Prot) :
    Accounted who (protRegion m first last prot) := by
  unfold protRegion
  split_ifs
  · exact h
  · induction pageRange first last generalizing m with
    | nil => exact h
    | cons vpn pages ih => exact ih (accounted_changeProt h vpn prot)

/-- A region that is not mapped is mapped, or everything is as before. -/
theorem allocRegion_tidy (first last : Int) (hWf : m.frames.Wf) (hOrder : first ≤ last) (prot : Prot)
    (hUnmapped : ∀ i : Int, 0 ≤ i → i < region1Vpns → first - region1BaseVpn ≤ i → i < last - region1BaseVpn →
      (m.region1Pt i).valid = false) :
    ∃ x, (allocRegion m first last prot).1 = m.withUser x ∧
      Mapping.Tidy (first - region1BaseVpn) (last - region1BaseVpn) m.userMapping x := by
  unfold allocRegion
  split_ifs with hRange
  · exact ⟨m.userMapping, m.withUser_self.symm, .same rfl rfl hWf _ _⟩
  rw [allocPages_eq, pageRange_sub]
  refine ⟨_, rfl, ?_⟩
  have hNone (i : Int) (hLow : first - region1BaseVpn ≤ i) (hHigh : i < last - region1BaseVpn) :
      (m.userMapping.table i).valid = false := hUnmapped i (by omega) (by omega) hLow hHigh
  have hAttempt : Mapping.Attempt region1Vpns prot _ _ m.userMapping _ :=
    Mapping.attempt hWf (sub_le_sub_right hOrder region1BaseVpn) prot
  generalize Mapping.allocAll region1Vpns m.userMapping (first - region1BaseVpn) prot
    (pageRange (first - region1BaseVpn) (last - region1BaseVpn)) = result at hAttempt
  cases hAttempt with
  | done hIn hFilled => exact hFilled.tidy hNone
  | full hLow hHigh hIn hCount hRestored => exact hRestored.tidy hHigh.le hNone
  | lost hLow hHigh hIn hOut hCount hFree hRestored => omega

end UserMemory

namespace LoadProgram

variable {who : Proc → Prop} {m m' : Memory} {li : LoadInfo} {lay : Layout}

/-- No page of the text is a page of the data or of the stack. -/
def SegmentsApart (li : LoadInfo) (lay : Layout) : Prop :=
  ∀ i, lay.textPg1 ≤ i → i < lay.textPg1 + li.tNpg →
    ¬(lay.dataPg1 ≤ i ∧ i < lay.dataPg1 + lay.dataNpg) ∧ i < region1Vpns - lay.stackNpg

instance (li : LoadInfo) (lay : Layout) : Decidable (SegmentsApart li lay) :=
  inferInstanceAs (Decidable (∀ _, _ → _ → _))

theorem accounted_allocSegments (h : Accounted who m) (hActive : who m.active) (hData : 0 ≤ lay.dataNpg)
    (hStack : 0 ≤ lay.stackNpg) (hBelow : lay.dataPg1 + lay.dataNpg ≤ region1Vpns - lay.stackNpg)
    (hApart : SegmentsApart li lay)
    (hUnmapped : ∀ i : Int, 0 ≤ i → i < region1Vpns → (m.region1Pt i).valid = false) :
    Accounted who (allocSegments m li lay).1 := by
  have hLimit : region1LimitVpn = region1BaseVpn + region1Vpns := rfl
  obtain ⟨x, hText, hTextTidy⟩ := allocRegion_tidy (lay.textPg1 + region1BaseVpn)
    (lay.textPg1 + region1BaseVpn + li.tNpg) h.wf (by omega) .readWrite
    fun i hLow hHigh _ _ => hUnmapped i hLow hHigh
  have hTextDone := h.user hActive hTextTidy
  obtain ⟨y, hDataEq, hDataTidy⟩ := allocRegion_tidy (m := m.withUser x) (lay.dataPg1 + region1BaseVpn)
    (lay.dataPg1 + region1BaseVpn + lay.dataNpg) hTextDone.wf (by omega) .readWrite fun i hLow hHigh hFirst hLast => by
      show ((m.withUser x).userMapping.table i).valid = false
      rw [Memory.userMapping_withUser, hTextTidy.other i fun hIn => (hApart i (by omega) (by omega)).1 ⟨by omega, by omega⟩]
      exact hUnmapped i hLow hHigh
  have hDataDone := hTextDone.user hActive hDataTidy
  obtain ⟨z, hStackEq, hStackTidy⟩ := allocRegion_tidy (m := (m.withUser x).withUser y)
    (region1LimitVpn - lay.stackNpg) region1LimitVpn hDataDone.wf (by omega) .readWrite
    fun i hLow hHigh hFirst hLast => by
      have hTable : (m.withUser x).userMapping.table i = x.table i := by rw [Memory.userMapping_withUser]
      show (((m.withUser x).withUser y).userMapping.table i).valid = false
      rw [Memory.userMapping_withUser, hDataTidy.other i (by omega), hTable, hTextTidy.other i fun hIn => by
        have := (hApart i (by omega) (by omega)).2
        omega]
      exact hUnmapped i hLow hHigh
  have hStackDone := hDataDone.user hActive hStackTidy
  unfold allocSegments
  dsimp only
  split
  · rename_i next hAlloc
    rw [hAlloc] at hText
    exact hText ▸ hTextDone
  · rename_i next hAlloc
    rw [hAlloc] at hText
    subst hText
    split
    · rename_i next hAlloc
      rw [hAlloc] at hDataEq
      exact hDataEq ▸ hDataDone
    · rename_i next hAlloc
      rw [hAlloc] at hDataEq
      subst hDataEq
      split
      · rename_i next hAlloc
        rw [hAlloc] at hStackEq
        exact hStackEq ▸ hStackDone
      · rename_i next hAlloc
        rw [hAlloc] at hStackEq
        exact hStackEq ▸ hStackDone

theorem accounted_buildArgs {cpp cp : Int} {args : List (List Byte)} (h : Accounted who m)
    (hBuild : buildArgs m cpp cp args = .ok m') : Accounted who m' := by
  induction args generalizing m cpp cp with
  | nil => exact h.storeBytes (store_eq_ok.mp hBuild)
  | cons arg rest ih =>
      obtain ⟨first, hFirst, hBuild⟩ := bind_eq_ok.mp hBuild
      obtain ⟨second, hSecond, hBuild⟩ := bind_eq_ok.mp hBuild
      exact ih ((h.storeBytes (store_eq_ok.mp hFirst)).storeBytes (store_eq_ok.mp hSecond)) hBuild

/-- The rest of the loader keeps the frames and their owners. -/
theorem accounted_finish {uc : UserContext} {args : List (List Byte)} {loaded : Memory × UserContext}
    (h : Accounted who m) (hFinish : finish m uc li lay args = .ok loaded) : Accounted who loaded.1 := by
  obtain ⟨zeroed, cleared, counted, hZeroed, hCleared, hCounted, hBuilt, -⟩ := finish_steps hFinish
  have hRecorded : Accounted who (record zeroed lay) := by
    refine ((accounted_protRegion h _ _ _).storeBytes hZeroed).same ?_ subset_rfl ?_
    · funext owner
      cases owner with
      | heap vpn => rfl
      | stack proc i => rfl
      | user proc i =>
          by_cases hProc : proc = zeroed.active
          · subst hProc
            simp [Memory.entry, record]
          · simp [Memory.entry, record, hProc]
    · exact ((accounted_protRegion h _ _ _).storeBytes hZeroed).wf
  exact accounted_buildArgs ((hRecorded.storeBytes hCleared).storeBytes hCounted) hBuilt

/-- The loader leaves no frame behind if no page of the text is a page of the data or of
the stack. -/
theorem accounted_loadProgram {uc : UserContext} {file : File} {args : List (List Byte)} {argsOk : Bool}
    {loaded : Outcome} (h : Accounted who m) (hActive : who m.active)
    (hApart : ∀ li text data, file = .image li text data → SegmentsApart li (layout li args))
    (hLoad : loadProgram m uc file args argsOk = .ok loaded) : Accounted who loaded.mem := by
  cases file with
  | missing =>
      obtain rfl := Except.ok.inj hLoad
      exact h
  | malformed =>
      obtain rfl := Except.ok.inj hLoad
      exact h
  | image li text data =>
      unfold loadProgram at hLoad
      dsimp only at hLoad
      split_ifs at hLoad with hEntry hRoom hArgs
      · obtain rfl := Except.ok.inj hLoad
        exact h
      · obtain rfl := Except.ok.inj hLoad
        exact h
      · obtain rfl := Except.ok.inj hLoad
        exact h
      have hStack := (layout_stack li args).2
      have hData : 0 ≤ (layout li args).dataNpg := by
        unfold layout
        dsimp only
        omega
      have hSize : (maxPtLen : Int) = region1Vpns := congrArg Nat.cast maxPtLen_eq
      obtain ⟨x, hEq, hCleared⟩ := deallocateRegion1_eq h.wf
      have hFreed := h.user hActive hCleared.tidy
      have hTable : (m.withUser x).region1Pt = x.table := congrArg Mapping.table (Memory.userMapping_withUser m x)
      have hSegments := accounted_allocSegments hFreed hActive hData hStack.le (by omega)
        (hApart li text data rfl) fun i hLow hHigh => by rw [hTable, hCleared.entry i hLow hHigh]
      rw [← hEq] at hSegments
      have hRead {n n' : Memory} {vaddr : Word} {npg : Nat} {bytes : List Byte} {ok : Bool} (hn : Accounted who n)
          (hRead : readSegment n vaddr npg bytes = (n', ok)) : Accounted who n' := by
        unfold readSegment at hRead
        dsimp only at hRead
        split at hRead
        · obtain rfl := (Prod.mk.inj hRead).1
          exact hn
        · rename_i stored hStore
          obtain rfl := (Prod.mk.inj hRead).1
          exact hn.storeBytes hStore
      split at hLoad
      · rename_i mapped hMapped
        rw [hMapped] at hSegments
        split at hLoad
        · rename_i read hText
          obtain rfl := Except.ok.inj hLoad
          exact hRead hSegments hText
        · rename_i read hText
          have hTextRead := hRead hSegments hText
          split at hLoad
          · rename_i filled hFilled
            obtain rfl := Except.ok.inj hLoad
            exact hRead hTextRead hFilled
          · rename_i filled hFilled
            obtain ⟨finished, hFinish, hLoad⟩ := bind_eq_ok.mp hLoad
            obtain rfl := Except.ok.inj hLoad
            exact accounted_finish (hRead hTextRead hFilled) hFinish
      · rename_i mapped hMapped
        obtain rfl := Except.ok.inj hLoad
        rwa [hMapped] at hSegments
      · rename_i mapped count _ _ hMapped
        obtain rfl := Except.ok.inj hLoad
        rwa [hMapped] at hSegments

end LoadProgram

namespace UserMemory

variable {who : Proc → Prop} {m m' n : Memory} {child : Proc} {sp : Word} {ok : Bool}

/-- The page at the break can be used to copy pages, or none is copied. -/
def ScratchFree (ctx : MemCtx) (sp : Word) : Prop :=
  pageNumber (downToPage sp) ≤ ctx.currBrkPage ∨
    inRegion1 ctx.currBrkPage ∧ (ctx.region1Pt (ctx.currBrkPage - region1BaseVpn)).valid = false

instance (ctx : MemCtx) (sp : Word) : Decidable (ScratchFree ctx sp) := inferInstanceAs (Decidable (_ ∨ _ ∧ _))

/-- Owners outside of the table of the child keep their frames. -/
theorem holds_handed (hHanded : Handed m child (m.ctx m.active).currBrkPage (copiedPages (m.ctx m.active) sp) ok n)
    (hSide : n.kernelSide = m.kernelSide) (hOthers : ∀ p, p ≠ child → m'.ctx p = n.ctx p)
    (hSame : m'.kernelSide = n.kernelSide) (hChild : child ≠ m.active)
    (hFresh : ∀ i, ((m.ctx child).region1Pt i).valid = false)
    (hScratch : (m.region1Pt ((m.ctx m.active).currBrkPage - region1BaseVpn)).valid = false) {owner : Owner} {pfn : Nat}
    (h : m.Holds who owner pfn) : m'.Holds who owner pfn := by
  obtain ⟨hCounts, hValid, hPfn⟩ := h
  have hKernel := hSame.trans hSide
  refine ⟨hCounts, ?_⟩
  cases owner with
  | heap vpn =>
      have hEntry : m'.entry (.heap vpn) = m.entry (.heap vpn) := congrFun (congrArg KernelSide.region0Pt hKernel) vpn
      exact hEntry ▸ ⟨hValid, hPfn⟩
  | stack proc i =>
      have hEntry : m'.entry (.stack proc i) = m.entry (.stack proc i) :=
        congrFun (congrFun (congrArg KernelSide.ksPt hKernel) proc) i
      exact hEntry ▸ ⟨hValid, hPfn⟩
  | user proc i =>
      have hOther : proc ≠ child := by
        rintro rfl
        rw [Memory.entry, hFresh] at hValid
        cases hValid
      suffices hEntry : m'.entry (.user proc i) = m.entry (.user proc i) from hEntry ▸ ⟨hValid, hPfn⟩
      show (m'.ctx proc).region1Pt i = (m.ctx proc).region1Pt i
      rw [hOthers proc hOther]
      by_cases hProc : proc = m.active
      · subst hProc
        have hPage : i ≠ (m.ctx m.active).currBrkPage - region1BaseVpn := by
          rintro rfl
          have hMapped : (m.region1Pt ((m.ctx m.active).currBrkPage - region1BaseVpn)).valid = true := hValid
          rw [hScratch] at hMapped
          cases hMapped
        have hParent := hHanded.parent i hPage
        rwa [Memory.region1Pt, hHanded.active] at hParent
      · rw [hHanded.others proc hOther hProc]

/-- A fork hands the new frames to the child, or gives them back. -/
theorem accounted_ucCopy (h : Accounted who m) (hChild : child ≠ m.active)
    (hFresh : ∀ i, ((m.ctx child).region1Pt i).valid = false)
    (hData : (m.ctx m.active).dataStartPage ≤ (m.ctx m.active).currBrkPage) (hFree : ScratchFree (m.ctx m.active) sp)
    (hCopy : ucCopy m sp child = .ok (m', ok)) : Accounted (fun p => who p ∨ p = child ∧ ok = true) m' := by
  unfold ucCopy at hCopy
  dsimp only at hCopy
  split_ifs at hCopy with hBelow
  · obtain ⟨rfl, -⟩ := Prod.mk.inj (Except.ok.inj hCopy)
    exact h.mono fun _ => Or.inl
  obtain ⟨hBrk, hScratch⟩ := hFree.resolve_left hBelow
  obtain ⟨⟨n, done⟩, hRun, hCopy⟩ := bind_eq_ok.mp hCopy
  have hHanded := handed_copyPages hChild hRun
  have hSide := kernelSide_copyPages hRun
  have hSorted := sorted_copiedPages hData (not_le.mp hBelow)
  have hStart : Spared (fun _ => True) ∅ m m := .none h.wf
  have hWf : n.frames.Wf := (spared_copyPages hRun hStart trivial trivial).wf
  have hLoop := copyPages_run hChild hBrk hFresh hScratch (copiedPages (m.ctx m.active) sp) []
    (hSorted.imp fun hLess => hLess.ne) (scratch_not_copied hData (not_le.mp hBelow)) (.nil h.wf hScratch)
  rw [List.nil_append, hRun] at hLoop
  cases done with
  | false =>
      obtain ⟨rfl, rfl⟩ := Prod.mk.inj (Except.ok.inj hCopy)
      cases hLoop with
      | refused hBack =>
          refine h.keep (fun owner pfn hOwner => ?_) (hBack hSorted).inUse.le hWf
          have hKept := holds_handed hHanded hSide (fun _ _ => rfl) rfl hChild hFresh hScratch hOwner
          exact ⟨hKept.1.mono fun _ => Or.inl, hKept.2⟩
  | true =>
      obtain ⟨rfl, rfl⟩ := Prod.mk.inj (Except.ok.inj hCopy)
      cases hLoop with
      | copied hCopied =>
          refine ⟨fun pfn hIn => ?_, hWf⟩
          have hIn : pfn ∈ n.frames.inUse := hIn
          rw [hCopied.inUse] at hIn
          rcases hIn with hOld | ⟨page, hPage, hPfn⟩
          · obtain ⟨owner, hOwner⟩ := h.holder pfn hOld
            let bounds : MemCtx := { m.ctx m.active with region1Pt := (n.ctx child).region1Pt }
            have hKept : Memory.Holds { n with ctx := Function.update n.ctx child bounds } who owner pfn := by
              apply holds_handed hHanded hSide _ _ hChild hFresh hScratch hOwner
              · exact fun p hp => Function.update_of_ne hp _ _
              · rfl
            exact ⟨owner, hKept.1.mono fun _ => Or.inl, hKept.2⟩
          · obtain ⟨frame, -, hEntry⟩ := hCopied.entry page hPage
            refine ⟨.user child (page.1 - region1BaseVpn), Or.inr ⟨rfl, rfl⟩, ?_⟩
            simp only [Memory.entry, Function.update_self]
            exact ⟨by rw [hEntry], hPfn⟩

end UserMemory

/-- No page of region 0 is mapped between the break and the kernel stack. -/
structure Memory.HeapClear (m : Memory) : Prop where
  unmapped : ∀ vpn, m.currentBrkPage ≤ vpn → vpn < stackBase → (m.region0Pt vpn).valid = false

namespace Memory.HeapClear

variable {m m' : Memory}

theorem congr (h : m.HeapClear) (hBrk : m'.currentBrkPage = m.currentBrkPage)
    (hTable : ∀ vpn, vpn < stackBase → m'.region0Pt vpn = m.region0Pt vpn) : m'.HeapClear where
  unmapped vpn hLow hHigh := by
    rw [hTable vpn hHigh]
    exact h.unmapped vpn (hBrk ▸ hLow) hHigh

theorem of_kernelSide (h : m.HeapClear) (hSame : m'.kernelSide = m.kernelSide) : m'.HeapClear :=
  h.congr (congrArg KernelSide.currentBrkPage hSame) fun vpn _ => congrFun (congrArg KernelSide.region0Pt hSame) vpn

theorem switch (h : m.HeapClear) (next : Proc) : (kcSwitch (ucSwitch m next) next).HeapClear :=
  h.congr rfl fun _ hHigh => if_neg fun hIn => absurd hIn.1 (not_le.mpr hHigh)

end Memory.HeapClear

namespace KernelMemory

variable {who : Proc → Prop} {m m' : Memory} {child : Proc}

/-- Nothing is mapped behind the break when it has moved. -/
theorem heapClear_break {page : Int} {result : Memory × Bool} (h : m.HeapClear) (hBreak : Break m page result) :
    result.1.HeapClear := by
  constructor
  intro vpn hLow hHigh
  cases hBreak with
  | refused => exact h.unmapped vpn hLow hHigh
  | @failed x c hFirst hLast hPage hRestored =>
      have hLow : m.currentBrkPage ≤ vpn := hLow
      show (x.table vpn).valid = false
      by_cases hTried : vpn < c
      · exact hRestored.entry vpn hLow hTried
      · rw [hRestored.other vpn (by omega)]
        exact h.unmapped vpn hLow hHigh
  | @grown x hLess hPage hFilled =>
      have hLow : page ≤ vpn := hLow
      show (x.table vpn).valid = false
      rw [hFilled.other vpn (by omega)]
      exact h.unmapped vpn (by omega) hHigh
  | @shrunk x hFirst hLe hPage hCleared =>
      have hLow : page ≤ vpn := hLow
      show (x.table vpn).valid = false
      by_cases hOld : vpn < m.currentBrkPage
      · rw [hCleared.entry vpn hLow hOld]
      · rw [hCleared.other vpn (by omega)]
        exact h.unmapped vpn (by omega) hHigh

theorem accounted_break {page : Int} {result : Memory × Bool} (h : Accounted who m) (hClear : m.HeapClear)
    (hBounds : m.HeapBounds) (hBreak : Break m page result) : Accounted who result.1 := by
  have hUpper := hBounds.upper
  have hBrk {n : Memory} (hn : Accounted who n) (brk : Int) : Accounted who { n with currentBrkPage := brk } :=
    hn.same rfl subset_rfl hn.wf
  cases hBreak with
  | refused => exact h
  | failed hLow hHigh hPage hRestored =>
      exact h.kernel (by omega) (hRestored.tidy le_rfl fun i hFirst hLast => hClear.unmapped i hFirst (by omega))
  | grown hLess hPage hFilled =>
      exact hBrk (h.kernel (by omega) (hFilled.tidy fun i hFirst hLast => hClear.unmapped i hFirst (by omega))) _
  | shrunk hLow hLe hPage hCleared => exact hBrk (h.kernel hUpper hCleared.tidy) _

theorem accounted_setKernelBrk (h : Accounted who m) (hClear : m.HeapClear) (hEnabled : m.vmEnabled = true)
    (hBounds : m.HeapBounds) (addr : Word) :
    Accounted who (setKernelBrk m addr).1 ∧ (setKernelBrk m addr).1.HeapClear := by
  have hBreak := break_cases hEnabled h.wf hBounds addr
  exact ⟨accounted_break h hClear hBounds hBreak, heapClear_break hClear hBreak⟩

/-- The frames that are filled for the child become its kernel stack. -/
theorem accounted_kcCopy (h : Accounted who m) (hClear : m.HeapClear) (hEnabled : m.vmEnabled = true)
    (hBounds : m.HeapBounds) (hChild : who child) (hFresh : ∀ i, (m.ksPt child i).valid = false) :
    Accounted who (kcCopy m child).1 ∧ (kcCopy m child).1.HeapClear := by
  have hUpper := hBounds.upper
  have hClone := kcCopy_cases hEnabled h.wf hBounds child
  generalize kcCopy m child = result at hClone
  cases hClone with
  | failed hBreak => exact ⟨accounted_break h hClear hBounds hBreak, heapClear_break hClear hBreak⟩
  | @done x pmem hBelow hFilled hOther =>
      refine ⟨⟨fun pfn hIn => ?_, hFilled.wf⟩, ⟨fun vpn hLow hHigh => ?_⟩⟩
      · have hIn : pfn ∈ x.frames.inUse := hIn
        rw [hFilled.inUse] at hIn
        rcases hIn with hOld | ⟨vpn, hLow, hHigh, hPfn⟩
        · obtain ⟨owner, hCounts, hValid, hHeld⟩ := h.holder pfn hOld
          refine ⟨owner, hCounts, ?_⟩
          suffices hSame : (withStack m x child pmem).entry owner = m.entry owner from hSame ▸ ⟨hValid, hHeld⟩
          cases owner with
          | heap vpn =>
              have hOut : ¬(m.currentBrkPage ≤ vpn ∧ vpn < m.currentBrkPage + kStackVpns) := by
                intro hRange
                have hUnmapped := hClear.unmapped vpn hRange.1 (by omega)
                rw [Memory.entry, hUnmapped] at hValid
                cases hValid
              exact (if_neg hOut).trans (hFilled.other vpn hOut)
          | stack proc i =>
              have hOther : proc ≠ child := by
                rintro rfl
                rw [Memory.entry, hFresh] at hValid
                cases hValid
              exact congrFun (Function.update_of_ne hOther _ _) i
          | user proc i => rfl
        · have hEntry : (withStack m x child pmem).entry (.stack child (vpn - m.currentBrkPage)) =
              ⟨true, .readWrite, (x.table vpn).pfn⟩ := by
            show Function.update m.ksPt child _ child _ = _
            rw [Function.update_self, if_pos ⟨by omega, by omega⟩, add_sub_cancel]
          refine ⟨.stack child (vpn - m.currentBrkPage), hChild, ?_⟩
          rw [hEntry]
          exact ⟨rfl, hPfn⟩
      · have hLow : m.currentBrkPage ≤ vpn := hLow
        simp only [withStack]
        split_ifs with hIn
        · rfl
        · rw [hFilled.other vpn hIn]
          exact hClear.unmapped vpn hLow hHigh

/-- The process whose kernel stack is mapped gives it back. Its pages have been released
before. -/
theorem accounted_deallocateKernelStack {proc : Proc} (h : Accounted who m) (hFits : m.Fits) (hCurrent : m.Current proc)
    (hNone : ∀ i, ((m.ctx proc).region1Pt i).valid = false) :
    Accounted (fun p => who p ∧ p ≠ proc) (deallocateKernelStack m) := by
  rw [deallocateKernelStack_eq]
  obtain ⟨frames, hEq, hUsed, hWf⟩ := destroyPt_spec m m.region0Pt stackBase stackLimit
  rw [hEq]
  refine ⟨fun pfn hIn => ?_, hWf h.wf⟩
  have hIn : pfn ∈ frames.inUse := hIn
  rw [hUsed] at hIn
  obtain ⟨hOld, hKept⟩ := hIn
  obtain ⟨owner, hCounts, hValid, hPfn⟩ := h.holder pfn hOld
  refine ⟨owner, ?_, hValid, hPfn⟩
  cases owner with
  | heap vpn => exact hCounts
  | stack p i =>
      refine ⟨hCounts, ?_⟩
      rintro rfl
      obtain ⟨hLow, hHigh⟩ := hFits.stack _ i hValid
      refine hKept ⟨stackBase + i, by omega, by unfold stackLimit stackBase; omega, ?_⟩
      rw [hCurrent.stack i hLow hHigh]
      exact ⟨hValid, hPfn⟩
  | user p i =>
      refine ⟨hCounts, ?_⟩
      rintro rfl
      rw [Memory.entry, hNone] at hValid
      cases hValid

theorem accounted_switch (h : Accounted who m) (next : Proc) : Accounted who (kcSwitch (ucSwitch m next) next) := by
  refine h.keep (fun owner pfn hOwner => ⟨hOwner.1, ?_⟩) subset_rfl h.wf
  cases owner with
  | heap vpn =>
      have hSame : (kcSwitch (ucSwitch m next) next).entry (.heap vpn) = m.entry (.heap vpn) := if_neg hOwner.1
      exact hSame ▸ hOwner.2
  | stack proc i => exact hOwner.2
  | user proc i => exact hOwner.2

end KernelMemory

end Yalnix
