import Yalnix.Library.Ownership
import Yalnix.Memory.Duplicate
import Yalnix.Memory.KernelHeap

/-! The owners of frames are the valid entries of all page tables. The kernel
stack is mapped twice, in region 0 and in the table of its process, and counts
for the latter. No operation of the memory modules lets two owners share a frame. -/
namespace Yalnix

open Hardware KernelMemory UserMemory Ownership

/-- An entry of the region 0 table, of a kernel stack or of a region 1 table. -/
inductive Owner where
  | heap (vpn : Int)
  | stack (proc : Proc) (i : Int)
  | user (proc : Proc) (i : Int)
  deriving DecidableEq

def Memory.entry (m : Memory) : Owner → Pte
  | .heap vpn => m.region0Pt vpn
  | .stack proc i => m.ksPt proc i
  | .user proc i => (m.ctx proc).region1Pt i

variable [Hardware]

/-- The entry belongs to the kernel or to one of these processes. -/
def Owner.Counts (who : Proc → Prop) : Owner → Prop
  | .heap vpn => ¬(stackBase ≤ vpn ∧ vpn < stackLimit)
  | .stack proc _ => who proc
  | .user proc _ => who proc

/-- The owner is valid and refers to this frame. -/
def Memory.Holds (m : Memory) (who : Proc → Prop) (owner : Owner) (pfn : Nat) : Prop :=
  owner.Counts who ∧ (m.entry owner).valid = true ∧ (m.entry owner).pfn = pfn

/-- No frame has two owners, and every frame that has one is marked. -/
structure Custody (who : Proc → Prop) (m : Memory) : Prop where
  sound : Sound (m.Holds who) m.frames.inUse
  wf : m.frames.Wf

theorem Owner.Counts.mono {who some : Proc → Prop} (hLess : ∀ p, some p → who p) {owner : Owner}
    (h : owner.Counts some) : owner.Counts who := by
  cases owner with
  | heap vpn => exact h
  | stack proc i => exact hLess proc h
  | user proc i => exact hLess proc h

section Entries

variable (m : Memory) (frames : Frames) (e : Pte)

omit [Hardware] in
theorem Memory.entry_setUser (proc : Proc) (i : Int) :
    ((m.setFrames frames).setRegion1Pt proc (Function.update (m.ctx proc).region1Pt i e)).entry =
      Function.update m.entry (.user proc i) e := by
  funext owner
  cases owner with
  | heap vpn => rw [Function.update_of_ne (by simp)]; rfl
  | stack other j => rw [Function.update_of_ne (by simp)]; rfl
  | user other j =>
      by_cases hProc : other = proc
      · subst hProc
        by_cases hi : j = i
        · subst hi
          rw [Function.update_self]
          simp [entry, setRegion1Pt, setFrames]
        · rw [Function.update_of_ne (by simp [hi])]
          simp [entry, setRegion1Pt, setFrames, hi]
      · rw [Function.update_of_ne (by simp [hProc])]
        simp [entry, setRegion1Pt, setFrames, hProc]

omit [Hardware] in
/-- One entry of the active process and one of another are written. -/
theorem Memory.entry_handed (i : Int) (child : Proc) (j : Int) (entry : Pte) :
    ((m.setRegion1Pt m.active (Function.update m.region1Pt i e)).setRegion1Pt child (Function.update
      ((m.setRegion1Pt m.active (Function.update m.region1Pt i e)).ctx child).region1Pt j entry)).entry =
      Function.update (Function.update m.entry (.user m.active i) e) (.user child j) entry := by
  have hFirst : (m.setRegion1Pt m.active (Function.update m.region1Pt i e)).entry = _ :=
    m.entry_setUser m.frames e m.active i
  rw [← hFirst]
  exact (m.setRegion1Pt m.active (Function.update m.region1Pt i e)).entry_setUser m.frames entry child j

omit [Hardware] in
theorem Memory.entry_setHeap (vpn : Int) :
    ({ m with frames := frames, region0Pt := Function.update m.region0Pt vpn e } : Memory).entry =
      Function.update m.entry (.heap vpn) e := by
  funext owner
  cases owner with
  | heap page =>
      by_cases hPage : page = vpn
      · subst hPage
        rw [Function.update_self]
        exact Function.update_self _ _ _
      · rw [Function.update_of_ne (by simp [hPage])]
        exact Function.update_of_ne hPage _ _
  | stack proc j => rw [Function.update_of_ne (by simp)]; rfl
  | user proc j => rw [Function.update_of_ne (by simp)]; rfl

end Entries

namespace Custody

variable {m m' : Memory} {who some : Proc → Prop} {owner : Owner} {e : Pte}

theorem mono (h : Custody who m) (hLess : ∀ p, some p → who p) : Custody some m where
  sound := h.sound.weaken (fun _ _ hHeld => ⟨hHeld.1.mono hLess, hHeld.2⟩) subset_rfl
  wf := h.wf

/-- The valid entries that count were there before, and no frame is given back. -/
theorem keep (h : Custody who m)
    (hEntry : ∀ owner : Owner, owner.Counts who → (m'.entry owner).valid = true → m'.entry owner = m.entry owner)
    (hUsed : m.frames.inUse ⊆ m'.frames.inUse) (hWf : m'.frames.Wf) : Custody who m' where
  sound := by
    refine h.sound.weaken (fun owner pfn hHeld => ?_) hUsed
    have hSame := hEntry owner hHeld.1 hHeld.2.1
    exact ⟨hHeld.1, hSame ▸ hHeld.2⟩
  wf := hWf

/-- An entry is mapped to a frame that was free. -/
theorem map {prot : Prot} {pfn : Nat} (h : Custody who m)
    (hEntry : m'.entry = Function.update m.entry owner ⟨true, prot, pfn⟩) (hFree : pfn ∉ m.frames.inUse)
    (hMarked : m'.frames.inUse = insert pfn m.frames.inUse) (hWf : m'.frames.Wf) : Custody who m' where
  sound := by
    apply h.sound.take fun o token => o = owner ∧ token = pfn
    · rw [hMarked]
      exact Set.subset_insert _ _
    · rintro o token ⟨hCounts, hValid, hPfn⟩
      rw [hEntry] at hValid hPfn
      by_cases ho : o = owner
      · subst ho
        rw [Function.update_self] at hPfn
        exact Or.inr ⟨rfl, hPfn.symm⟩
      · rw [Function.update_of_ne ho] at hValid hPfn
        exact Or.inl ⟨hCounts, hValid, hPfn⟩
    · rintro o token ⟨-, rfl⟩
      rw [hMarked]
      exact ⟨hFree, Set.mem_insert _ _⟩
    · rintro a b token ⟨rfl, -⟩ ⟨rfl, -⟩
      rfl
  wf := hWf

/-- An entry that counts becomes invalid, and its frame is given back. -/
theorem release (h : Custody who m) (hOwner : owner.Counts who) (hValid : (m.entry owner).valid = true)
    (hEntry : m'.entry = Function.update m.entry owner { m.entry owner with valid := false })
    (hFreed : m'.frames.inUse = m.frames.inUse \ {(m.entry owner).pfn}) (hWf : m'.frames.Wf) : Custody who m' where
  sound := by
    apply h.sound.release fun o => o = owner
    · rintro o token ⟨hCounts, hStill, hPfn⟩
      rw [hEntry] at hStill hPfn
      by_cases ho : o = owner
      · subst ho
        rw [Function.update_self] at hStill
        cases hStill
      · rw [Function.update_of_ne ho] at hStill hPfn
        exact ⟨⟨hCounts, hStill, hPfn⟩, ho⟩
    · intro token hUsed hNone
      rw [hFreed]
      refine ⟨hUsed, fun hSame => hNone owner rfl ⟨hOwner, hValid, ?_⟩⟩
      exact (Set.mem_singleton_iff.mp hSame).symm
  wf := hWf

/-- An entry keeps its frame or becomes invalid. -/
theorem change (h : Custody who m) (hEntry : m'.entry = Function.update m.entry owner e)
    (hSame : e.valid = true → (m.entry owner).valid = true ∧ (m.entry owner).pfn = e.pfn)
    (hFrames : m'.frames = m.frames) : Custody who m' where
  sound := by
    rw [hFrames]
    refine h.sound.weaken (fun o token hHeld => ?_) subset_rfl
    obtain ⟨hCounts, hValid, hPfn⟩ := hHeld
    rw [hEntry] at hValid hPfn
    by_cases ho : o = owner
    · subst ho
      rw [Function.update_self] at hValid hPfn
      obtain ⟨hOld, hFrame⟩ := hSame hValid
      exact ⟨hCounts, hOld, hFrame.trans hPfn⟩
    · rw [Function.update_of_ne ho] at hValid hPfn
      exact ⟨hCounts, hValid, hPfn⟩
  wf := hFrames ▸ h.wf

/-- The frame of one entry is handed to another. -/
theorem hand {source target : Owner} (h : Custody who m) (prot : Prot) (hNe : target ≠ source)
    (hSource : source.Counts who) (hValid : (m.entry source).valid = true)
    (hEntry : m'.entry = Function.update (Function.update m.entry source { m.entry source with valid := false })
      target ⟨true, prot, (m.entry source).pfn⟩) (hFrames : m'.frames = m.frames) : Custody who m' where
  sound := by
    have hHeld (o : Owner) (token : Nat) (ho : m'.Holds who o token) :
        o ≠ source ∧ m.Holds who (if o = target then source else o) token := by
      obtain ⟨hCounts, hStill, hPfn⟩ := ho
      rw [hEntry] at hStill hPfn
      by_cases hTarget : o = target
      · subst hTarget
        rw [Function.update_self] at hPfn
        rw [if_pos rfl]
        exact ⟨hNe, hSource, hValid, hPfn⟩
      · rw [Function.update_of_ne hTarget] at hStill hPfn
        rw [if_neg hTarget]
        by_cases hGone : o = source
        · subst hGone
          rw [Function.update_self] at hStill
          cases hStill
        · rw [Function.update_of_ne hGone] at hStill hPfn
          exact ⟨hGone, hCounts, hStill, hPfn⟩
    rw [hFrames]
    apply h.sound.move fun o => if o = target then source else o
    · exact fun o token ho => (hHeld o token ho).2
    · intro a b token ha hb hSame
      have hA := (hHeld a token ha).1
      have hB := (hHeld b token hb).1
      by_cases ha' : a = target <;> by_cases hb' : b = target
      · rw [ha', hb']
      · rw [if_pos ha', if_neg hb'] at hSame
        exact absurd hSame.symm hB
      · rw [if_neg ha', if_pos hb'] at hSame
        exact absurd hSame hA
      · rwa [if_neg ha', if_neg hb'] at hSame
  wf := hFrames ▸ h.wf

/-- `destroy_pt` on the table of a process that is given up. -/
theorem destroyed {child : Proc} (h : Custody who m) (hChild : who child) (first last : Int) :
    Custody (fun p => who p ∧ p ≠ child) (destroyPt m (m.ctx child).region1Pt first last) := by
  obtain ⟨frames, hEq, hUsed, hWf⟩ := destroyPt_spec m (m.ctx child).region1Pt first last
  rw [hEq]
  refine ⟨?_, hWf h.wf⟩
  apply h.sound.release fun o => ∃ i, o = .user child i
  · rintro o token ⟨hCounts, hHeld⟩
    refine ⟨⟨hCounts.mono fun p hp => hp.1, hHeld⟩, ?_⟩
    rintro ⟨i, rfl⟩
    exact hCounts.2 rfl
  · intro token hToken hNone
    show token ∈ frames.inUse
    rw [hUsed]
    refine ⟨hToken, ?_⟩
    rintro ⟨i, -, -, hValid, hPfn⟩
    exact hNone (.user child i) ⟨i, rfl⟩ ⟨hChild, hValid, hPfn⟩

end Custody

namespace UserMemory

variable {m m' : Memory} {who : Proc → Prop}

/-- A page that was mapped. -/
theorem allocPage_true {vpn : Int} {prot : Prot} (h : allocPage m vpn prot = (m', true)) :
    inRegion1 vpn ∧ (m'.region1Pt (vpn - region1BaseVpn)).valid = true := by
  unfold allocPage at h
  split at h
  · cases (Prod.mk.inj h).2
  · split_ifs at h with hIn
    · obtain rfl := (Prod.mk.inj h).1
      refine ⟨hIn, ?_⟩
      simp [Memory.region1Pt, Memory.setRegion1Pt, Memory.setFrames, createPte]
    · cases (Prod.mk.inj h).2

theorem Step.custody (hStep : Step m m') (h : Custody who m) (hActive : who m.active) : Custody who m' := by
  cases hStep with
  | alloc vpn prot =>
      have hCases := Mapping.alloc_cases (x := m.userMapping) h.wf region1Vpns (vpn - region1BaseVpn) prot
      rw [allocPage_eq]
      generalize Mapping.alloc region1Vpns m.userMapping (vpn - region1BaseVpn) prot = result at hCases
      cases hCases with
      | @full frames hFull hWf hSize hSame =>
          rw [m.withUser_frames frames]
          exact h.keep (fun _ _ _ => rfl) hSame.ge hWf
      | @lost frames pfn hOut hWf hSize hFree hMarked =>
          rw [m.withUser_frames frames]
          refine h.keep (fun _ _ _ => rfl) ?_ hWf
          show m.frames.inUse ⊆ frames.inUse
          rw [hMarked]
          exact Set.subset_insert _ _
      | mapped hIn hWf hSize hFree hMarked =>
          exact h.map (m.entry_setUser _ _ _ _) hFree.2 hMarked hWf
  | dealloc vpn =>
      unfold deallocPage
      split_ifs with hIn hValid
      · exact h
      · have hOwner : (Owner.user m.active (vpn - region1BaseVpn)).Counts who := hActive
        have hMapped : (m.region1Pt (vpn - region1BaseVpn)).valid = true := by simpa using hValid
        exact h.release hOwner hMapped (m.entry_setUser _ _ _ _) (m.frames.inUse_freeFrame _) (h.wf.freeFrame _)
      · exact h
  | protect vpn prot =>
      unfold changeProt
      split_ifs with hIn hValid
      · exact h
      · exact h.change (m.entry_setUser m.frames _ _ _) (fun hStill => ⟨hStill, rfl⟩) rfl
      · exact h
  | bounds ctx hTable =>
      refine h.keep (fun owner _ _ => ?_) subset_rfl h.wf
      cases owner with
      | heap vpn => rfl
      | stack proc i => rfl
      | user proc i =>
          by_cases hProc : proc = m.active
          · subst hProc
            simp [Memory.entry, hTable, Memory.region1Pt]
          · simp [Memory.entry, hProc]
  | write addr byte hPerms => exact h.keep (fun _ _ _ => rfl) subset_rfl h.wf

theorem Steps.custody (hSteps : Steps m m') (h : Custody who m) (hActive : who m.active) : Custody who m' := by
  induction hSteps with
  | refl => exact h
  | tail hBefore hLast ih =>
      rename_i n m'
      have hSame : n.active = m.active := congrArg KernelSide.active (Steps.kernelSide hBefore)
      exact hLast.custody ih (hSame ▸ hActive)

/-- A copy hands new frames to the child, or gives them all back. -/
theorem custody_copyPages {child : Proc} {brkPage : Int} {pages : List (Int × Prot)} {ok : Bool}
    (hRun : copyPages m child brkPage pages = .ok (m', ok)) (h : Custody who m) (hActive : who m.active)
    (hChild : who child) (hOther : child ≠ m.active) :
    Custody (fun p => who p ∧ (p = child → ok = true)) m' := by
  induction pages generalizing m with
  | nil =>
      obtain ⟨rfl, rfl⟩ := Prod.mk.inj (Except.ok.inj hRun)
      exact h.mono fun p hp => hp.1
  | cons page pages ih =>
      have hPage : Custody who (allocPage m brkPage .readWrite).1 := (Step.alloc brkPage .readWrite).custody h hActive
      have hSame : (allocPage m brkPage .readWrite).1.active = m.active :=
        congrArg KernelSide.active (kernelSide_allocPage m brkPage .readWrite)
      unfold copyPages at hRun
      split at hRun
      · rename_i next hAlloc
        rw [hAlloc] at hPage
        obtain ⟨rfl, rfl⟩ := Prod.mk.inj (Except.ok.inj hRun)
        exact (hPage.destroyed hChild _ _).mono fun p hp => ⟨hp.1, fun hIs => absurd (hp.2 hIs) Bool.false_ne_true⟩
      · rename_i next hAlloc
        rw [hAlloc] at hPage hSame
        obtain ⟨hIn, hValid⟩ := allocPage_true hAlloc
        obtain ⟨copied, hCopy, hRun⟩ := Transition.bind_eq_ok.mp hRun
        obtain ⟨pmem, rfl⟩ : ∃ pmem, copied = { next with pmem := pmem } := by
          unfold copyFrame at hCopy
          dsimp only at hCopy
          split_ifs at hCopy
          exact ⟨_, (Except.ok.inj hCopy).symm⟩
        have hNe : Owner.user child (page.1 - region1BaseVpn) ≠
            Owner.user next.active (brkPage - region1BaseVpn) := by
          intro hIs
          exact hOther ((Owner.user.inj hIs).1.trans hSame)
        have hActiveNext : who next.active := hSame ▸ hActive
        have hOtherNext : child ≠ next.active := hSame ▸ hOther
        simp only [unmapNoFree, if_pos hIn, Option.getD_some] at hRun
        refine ih hRun (hPage.hand page.2 hNe hActiveNext hValid ?_ rfl) hActiveNext hOtherNext
        exact Memory.entry_handed { next with pmem := pmem } _ _ child _ _

theorem custody_ucCopy {child : Proc} {sp : Word} {ok : Bool} (hCopy : ucCopy m sp child = .ok (m', ok))
    (h : Custody who m) (hActive : who m.active) (hChild : who child) (hOther : child ≠ m.active) :
    Custody (fun p => who p ∧ (p = child → ok = true)) m' := by
  unfold ucCopy at hCopy
  dsimp only at hCopy
  split_ifs at hCopy
  · obtain ⟨rfl, rfl⟩ := Prod.mk.inj (Except.ok.inj hCopy)
    exact h.mono fun p hp => hp.1
  · obtain ⟨⟨copied, done⟩, hRun, hCopy⟩ := Transition.bind_eq_ok.mp hCopy
    have hPages := custody_copyPages hRun h hActive hChild hOther
    cases done with
    | false =>
        obtain ⟨rfl, rfl⟩ := Prod.mk.inj (Except.ok.inj hCopy)
        exact hPages
    | true =>
        obtain ⟨rfl, rfl⟩ := Prod.mk.inj (Except.ok.inj hCopy)
        refine hPages.keep (fun owner _ _ => ?_) subset_rfl hPages.wf
        cases owner with
        | heap vpn => rfl
        | stack proc i => rfl
        | user proc i =>
            by_cases hProc : proc = child
            · subst hProc
              simp [Memory.entry]
            · simp [Memory.entry, hProc]

end UserMemory

namespace KernelMemory

variable {m m' : Memory} {who : Proc → Prop}

omit [Hardware] in
theorem entry_withKernel_of_ne (x : Mapping) {owner : Owner} (hOwner : ∀ vpn, owner ≠ .heap vpn) :
    (m.withKernel x).entry owner = m.entry owner := by
  cases owner with
  | heap vpn => exact absurd rfl (hOwner vpn)
  | stack proc i => rfl
  | user proc i => rfl

/-- Pages of region 0 are mapped to frames that were free. -/
theorem custody_filled {prot : Prot} {a b : Int} {x : Mapping} (h : Custody who m)
    (hFilled : Mapping.Filled prot a b m.kernelMapping x) : Custody who (m.withKernel x) where
  sound := by
    apply h.sound.take fun o token => ∃ vpn, o = .heap vpn ∧ a ≤ vpn ∧ vpn < b ∧ (x.table vpn).pfn = token
    · show m.frames.inUse ⊆ x.frames.inUse
      rw [hFilled.inUse]
      exact Set.subset_union_left
    · rintro o token ⟨hCounts, hValid, hPfn⟩
      cases o with
      | heap vpn =>
          by_cases hIn : a ≤ vpn ∧ vpn < b
          · exact Or.inr ⟨vpn, rfl, hIn.1, hIn.2, hPfn⟩
          · have hSame : (m.withKernel x).entry (.heap vpn) = m.entry (.heap vpn) := hFilled.other vpn hIn
            rw [hSame] at hValid hPfn
            exact Or.inl ⟨hCounts, hValid, hPfn⟩
      | stack proc i => exact Or.inl ⟨hCounts, hValid, hPfn⟩
      | user proc i => exact Or.inl ⟨hCounts, hValid, hPfn⟩
    · rintro o token ⟨vpn, rfl, hLow, hHigh, rfl⟩
      refine ⟨(hFilled.fresh vpn hLow hHigh).2, ?_⟩
      show (x.table vpn).pfn ∈ x.frames.inUse
      rw [hFilled.inUse]
      exact Or.inr ⟨vpn, hLow, hHigh, rfl⟩
    · rintro o o' token ⟨vpn, rfl, hLow, hHigh, hPfn⟩ ⟨vpn', rfl, hLow', hHigh', hPfn'⟩
      have hSame := hPfn.trans hPfn'.symm
      rcases lt_trichotomy vpn vpn' with hLess | rfl | hLess
      · exact absurd hSame (hFilled.apart _ _ hLow hLess hHigh')
      · rfl
      · exact absurd hSame.symm (hFilled.apart _ _ hLow' hLess hHigh)
  wf := hFilled.wf

theorem holds_cleared {a b : Int} {x : Mapping} {owner : Owner} {pfn : Nat}
    (hCleared : Mapping.Cleared a b m.kernelMapping x) (h : (m.withKernel x).Holds who owner pfn) :
    m.Holds who owner pfn ∧ ∀ vpn, owner = .heap vpn → ¬(a ≤ vpn ∧ vpn < b) := by
  obtain ⟨hCounts, hValid, hPfn⟩ := h
  cases owner with
  | heap vpn =>
      have hOut : ¬(a ≤ vpn ∧ vpn < b) := by
        intro hIn
        have hEntry : x.table vpn = _ := hCleared.entry vpn hIn.1 hIn.2
        have hStill : (x.table vpn).valid = true := hValid
        rw [hEntry] at hStill
        cases hStill
      have hSame : (m.withKernel x).entry (.heap vpn) = m.entry (.heap vpn) := hCleared.other vpn hOut
      rw [hSame] at hValid hPfn
      refine ⟨⟨hCounts, hValid, hPfn⟩, fun page hPage => ?_⟩
      rwa [← Owner.heap.inj hPage]
  | stack proc i => exact ⟨⟨hCounts, hValid, hPfn⟩, by simp⟩
  | user proc i => exact ⟨⟨hCounts, hValid, hPfn⟩, by simp⟩

/-- Pages of the kernel heap are given back. -/
theorem custody_cleared {a b : Int} {x : Mapping} (h : Custody who m) (hBelow : b ≤ stackBase)
    (hCleared : Mapping.Cleared a b m.kernelMapping x) : Custody who (m.withKernel x) where
  sound := by
    apply h.sound.release fun o => ∃ vpn, o = .heap vpn ∧ a ≤ vpn ∧ vpn < b
    · intro owner pfn hHeld
      obtain ⟨hOld, hOut⟩ := holds_cleared hCleared hHeld
      refine ⟨hOld, ?_⟩
      rintro ⟨vpn, rfl, hIn⟩
      exact hOut vpn rfl hIn
    · intro token hUsed hNone
      show token ∈ x.frames.inUse
      rw [hCleared.inUse]
      refine ⟨hUsed, ?_⟩
      rintro ⟨vpn, hLow, hHigh, hValid, hPfn⟩
      have hCounts : (Owner.heap vpn).Counts who := fun hWindow => by omega
      exact hNone (.heap vpn) ⟨vpn, rfl, hLow, hHigh⟩ ⟨hCounts, hValid, hPfn⟩
  wf := hCleared.wf

theorem restored_entry {a c : Int} {x : Mapping} {owner : Owner}
    (hRestored : Mapping.Restored ∅ a c m.kernelMapping x) (hValid : ((m.withKernel x).entry owner).valid = true) :
    (m.withKernel x).entry owner = m.entry owner := by
  cases owner with
  | heap vpn =>
      refine hRestored.other vpn fun hIn => ?_
      have hGone : (x.table vpn).valid = false := hRestored.entry vpn hIn.1 hIn.2
      have hStill : (x.table vpn).valid = true := hValid
      rw [hGone] at hStill
      cases hStill
  | stack proc i => rfl
  | user proc i => rfl

theorem custody_restored {a c : Int} {x : Mapping} (h : Custody who m)
    (hRestored : Mapping.Restored ∅ a c m.kernelMapping x) : Custody who (m.withKernel x) := by
  refine h.keep (fun owner _ hValid => restored_entry hRestored hValid) ?_ hRestored.wf
  show m.frames.inUse ⊆ x.frames.inUse
  rw [hRestored.inUse]
  exact Set.subset_union_left

theorem custody_break {page : Int} {result : Memory × Bool} (h : Custody who m) (hBounds : m.HeapBounds)
    (hBreak : Break m page result) : Custody who result.1 := by
  have hUpper := hBounds.upper
  have hBrk {n : Memory} (hn : Custody who n) (brk : Int) : Custody who { n with currentBrkPage := brk } :=
    ⟨hn.sound, hn.wf⟩
  cases hBreak with
  | refused => exact h
  | failed hLow hHigh hPage hRestored => exact custody_restored h hRestored
  | grown hLess hPage hFilled => exact hBrk (custody_filled h hFilled) _
  | shrunk hLow hLe hPage hCleared => exact hBrk (custody_cleared h hUpper hCleared) _

theorem custody_setKernelBrk (h : Custody who m) (hBounds : m.HeapBounds) (addr : Word) :
    Custody who (setKernelBrk m addr).1 := by
  by_cases hEnabled : m.vmEnabled = true
  · exact custody_break h hBounds (break_cases hEnabled h.wf hBounds addr)
  · unfold setKernelBrk
    dsimp only
    split_ifs with hRange hOff
    · exact h
    · exact ⟨h.sound, h.wf⟩
    all_goals exact absurd (by simpa using hEnabled) hOff

/-- Where the frame of an entry was before the pages from `first` up to `last`
became the kernel stack of the child. -/
def lender (child : Proc) (first last : Int) : Owner → Owner
  | .stack proc i => if proc = child ∧ 0 ≤ i ∧ i < last - first then .heap (first + i) else .stack proc i
  | .heap vpn => .heap vpn
  | .user proc i => .user proc i

omit [Hardware] in
theorem lender_heap {child proc : Proc} {first last i vpn : Int}
    (h : lender child first last (.stack proc i) = .heap vpn) : first ≤ vpn ∧ vpn < last := by
  simp only [lender] at h
  split_ifs at h with hIn
  have hPage := Owner.heap.inj h
  omega

omit [Hardware] in
theorem lender_ne_user {child proc other : Proc} {first last i j : Int} :
    lender child first last (.stack proc i) ≠ .user other j := by
  simp only [lender]
  split_ifs <;> simp

omit [Hardware] in
theorem lender_stack {child proc other : Proc} {first last i j : Int}
    (h : lender child first last (.stack proc i) = lender child first last (.stack other j)) :
    Owner.stack proc i = Owner.stack other j := by
  simp only [lender] at h
  split_ifs at h with hIn hIn'
  · have hPage := Owner.heap.inj h
    rw [hIn.1, hIn'.1, show i = j by omega]
  · exact h

/-- What an entry refers to once the child has its stack was referred to by its lender. -/
theorem holds_withStack {child : Proc} {x : Mapping} {pmem : Nat → Nat → Byte} {owner : Owner} {pfn : Nat}
    (hBelow : m.currentBrkPage + kStackVpns ≤ stackBase)
    (hValid : ∀ vpn, m.currentBrkPage ≤ vpn → vpn < m.currentBrkPage + kStackVpns → (x.table vpn).valid = true)
    (h : (withStack m x child pmem).Holds who owner pfn) :
    (m.withKernel x).Holds who (lender child m.currentBrkPage (m.currentBrkPage + kStackVpns) owner) pfn ∧
      ∀ vpn, owner = .heap vpn → ¬(m.currentBrkPage ≤ vpn ∧ vpn < m.currentBrkPage + kStackVpns) := by
  obtain ⟨hCounts, hStill, hPfn⟩ := h
  cases owner with
  | heap vpn =>
      by_cases hIn : m.currentBrkPage ≤ vpn ∧ vpn < m.currentBrkPage + kStackVpns
      · simp [Memory.entry, withStack, hIn] at hStill
      · simp only [Memory.entry, withStack, if_neg hIn] at hStill hPfn
        refine ⟨⟨hCounts, hStill, hPfn⟩, fun page hPage => ?_⟩
        rwa [← Owner.heap.inj hPage]
  | stack proc i =>
      refine ⟨?_, fun vpn hIs => absurd hIs (by simp)⟩
      by_cases hIn : proc = child ∧ 0 ≤ i ∧ i < kStackVpns
      · obtain ⟨rfl, hFirst, hLast⟩ := hIn
        simp only [Memory.entry, withStack, Function.update_self, hFirst, hLast, and_self, if_true] at hPfn
        simp only [lender, add_sub_cancel_left, hFirst, hLast, and_self, if_true]
        exact ⟨fun hWindow => by omega, hValid _ (by omega) (by omega), hPfn⟩
      · have hEntry : (withStack m x child pmem).ksPt proc i = m.ksPt proc i := by
          by_cases hProc : proc = child
          · subst hProc
            simp only [withStack, Function.update_self]
            rw [if_neg fun h => hIn ⟨rfl, h⟩]
          · simp only [withStack, Function.update_of_ne hProc]
        simp only [Memory.entry, hEntry] at hStill hPfn
        simp only [lender, add_sub_cancel_left, if_neg hIn]
        exact ⟨hCounts, hStill, hPfn⟩
  | user proc i => exact ⟨⟨hCounts, hStill, hPfn⟩, fun vpn hIs => absurd hIs (by simp)⟩

/-- The new pages of the heap become the kernel stack of the child. -/
theorem custody_withStack {x : Mapping} (h : Custody who (m.withKernel x))
    (hBelow : m.currentBrkPage + kStackVpns ≤ stackBase)
    (hValid : ∀ vpn, m.currentBrkPage ≤ vpn → vpn < m.currentBrkPage + kStackVpns → (x.table vpn).valid = true)
    (child : Proc) (pmem : Nat → Nat → Byte) : Custody who (withStack m x child pmem) where
  sound := by
    have hHeld {owner : Owner} {pfn : Nat} (hOwner : (withStack m x child pmem).Holds who owner pfn) :=
      holds_withStack hBelow hValid hOwner
    apply h.sound.move (lender child m.currentBrkPage (m.currentBrkPage + kStackVpns))
    · exact fun owner pfn hOwner => (hHeld hOwner).1
    · intro a b token ha hb hSame
      cases a with
      | heap vpn =>
          cases b with
          | heap page => exact hSame
          | stack proc i => exact absurd (lender_heap hSame.symm) ((hHeld ha).2 vpn rfl)
          | user proc i => cases hSame
      | stack proc i =>
          cases b with
          | heap page => exact absurd (lender_heap hSame) ((hHeld hb).2 page rfl)
          | stack other j => exact lender_stack hSame
          | user other j => exact absurd hSame lender_ne_user
      | user proc i =>
          cases b with
          | heap page => cases hSame
          | stack other j => exact absurd hSame.symm lender_ne_user
          | user other j => exact hSame
  wf := h.wf

theorem setKernelBrk_eq (m : Memory) (addr : Word) : ∃ frames table page, (setKernelBrk m addr).1 =
    { m with frames := frames, region0Pt := table, currentBrkPage := page } := by
  have hPages (page : Int) : ∃ frames table,
      (allocPages m m.currentBrkPage (pageRange m.currentBrkPage page)).1 =
        { m with frames := frames, region0Pt := table } := by
    rw [allocPages_eq]
    exact ⟨_, _, rfl⟩
  unfold setKernelBrk
  dsimp only
  split_ifs
  · exact ⟨_, _, _, rfl⟩
  · exact ⟨_, _, _, rfl⟩
  · obtain ⟨frames, table, hEq⟩ := hPages (pageNumber (upToPage addr))
    split
    · rename_i next hAlloc
      rw [hAlloc] at hEq
      exact ⟨frames, table, m.currentBrkPage, hEq⟩
    · rename_i next hAlloc
      rw [hAlloc] at hEq
      have hNext : next = { m with frames := frames, region0Pt := table } := hEq
      exact ⟨frames, table, pageNumber (upToPage addr), by rw [hNext]⟩
  · rw [undoAllocation_eq]
    exact ⟨_, _, _, rfl⟩

theorem handStack_other (m : Memory) (child : Proc) (first : Int) (pages : List Int) : ∃ table stack,
    handStack m child first pages = { m with region0Pt := table, ksPt := Function.update m.ksPt child stack } := by
  induction pages generalizing m with
  | nil => exact ⟨m.region0Pt, m.ksPt child, by rw [Function.update_eq_self]; rfl⟩
  | cons vpn pages ih =>
      obtain ⟨unmapped, hUnmapped⟩ : ∃ table, (unmapNoFree m vpn).1 = { m with region0Pt := table } := by
        unfold unmapNoFree
        split_ifs
        · exact ⟨_, rfl⟩
        · exact ⟨_, rfl⟩
      rw [handStack, hUnmapped]
      dsimp only
      obtain ⟨table, stack, hEq⟩ := ih { m with
        region0Pt := unmapped
        ksPt := Function.update m.ksPt child
          (Function.update (m.ksPt child) (vpn - first) ⟨true, .readWrite, (unmapNoFree m vpn).2.getD 0⟩) }
      refine ⟨table, stack, hEq.trans ?_⟩
      rw [Function.update_idem]

theorem kcCopy_eq (m : Memory) (child : Proc) : ∃ frames table page stack pmem, (kcCopy m child).1 =
    { m with
      frames := frames
      region0Pt := table
      currentBrkPage := page
      ksPt := Function.update m.ksPt child stack
      pmem := pmem } := by
  obtain ⟨frames, table, page, hBrk⟩ := setKernelBrk_eq m (BitVec.ofInt 32 ((m.currentBrkPage + kStackVpns) * pageSize))
  unfold kcCopy
  dsimp only
  split
  · rename_i next hFail
    rw [hFail] at hBrk
    exact ⟨frames, table, page, m.ksPt child, m.pmem, by rw [Function.update_eq_self]; exact hBrk⟩
  · rename_i next hGrown
    rw [hGrown] at hBrk
    have hNext : next = { m with frames := frames, region0Pt := table, currentBrkPage := page } := hBrk
    obtain ⟨pmem, hCopied, -⟩ := copyStack_eq next m.currentBrkPage
    obtain ⟨last, stack, hHanded⟩ := handStack_other { next with pmem := pmem } child m.currentBrkPage
      (pageRange m.currentBrkPage (m.currentBrkPage + kStackVpns))
    rw [hCopied, hHanded, hNext]
    exact ⟨_, _, _, _, _, rfl⟩

theorem custody_kcCopy (h : Custody who m) (hEnabled : m.vmEnabled = true) (hBounds : m.HeapBounds) (child : Proc) :
    Custody who (kcCopy m child).1 := by
  have hClone := kcCopy_cases hEnabled h.wf hBounds child
  generalize kcCopy m child = result at hClone
  cases hClone with
  | failed hBreak => exact custody_break h hBounds hBreak
  | done hBelow hFilled hOther =>
      exact custody_withStack (custody_filled h hFilled) hBelow
        (fun vpn hLow hHigh => (hFilled.entry vpn hLow hHigh).1) child _

/-- `deallocate_kernel_stack` releases the frames of the stack without unmapping them. -/
theorem deallocateKernelStack_eq (m : Memory) :
    deallocateKernelStack m = destroyPt m m.region0Pt stackBase stackLimit := by
  have hPages : ∀ vpn ∈ pageRange stackBase stackLimit, inRegion0 vpn := by
    intro vpn hIn
    have hRange := mem_pageRange.mp hIn
    have hRegion := stack_le_region0
    unfold stackBase stackLimit at hRange
    exact ⟨by omega, by omega⟩
  unfold deallocateKernelStack destroyPt
  generalize hTable : m.region0Pt = pt
  generalize pageRange stackBase stackLimit = pages at hPages
  induction pages generalizing m with
  | nil => rfl
  | cons vpn rest ih =>
      have hVpn := hPages vpn List.mem_cons_self
      have hStep : (freeNoUnmap m vpn).1 =
          if (pt vpn).valid then m.setFrames (m.frames.freeFrame (pt vpn).pfn).1 else m := by
        unfold freeNoUnmap
        rw [if_neg (not_not.mpr hVpn), hTable]
        cases hValid : (pt vpn).valid <;> simp
      rw [List.foldl_cons, List.foldl_cons, hStep]
      refine ih _ ?_ fun page hIn => hPages page (List.mem_cons_of_mem _ hIn)
      split_ifs
      · exact hTable
      · exact hTable

/-- The process whose stack is mapped gives it back. -/
theorem custody_deallocateKernelStack {proc : Proc} (h : Custody who m) (hCurrent : m.Current proc)
    (hProc : who proc) : Custody (fun p => who p ∧ p ≠ proc) (deallocateKernelStack m) := by
  rw [deallocateKernelStack_eq]
  obtain ⟨frames, hEq, hUsed, hWf⟩ := destroyPt_spec m m.region0Pt stackBase stackLimit
  rw [hEq]
  refine ⟨?_, hWf h.wf⟩
  apply h.sound.release fun o => ∃ i, o = .stack proc i
  · rintro o token ⟨hCounts, hHeld⟩
    refine ⟨⟨hCounts.mono fun p hp => hp.1, hHeld⟩, ?_⟩
    rintro ⟨i, rfl⟩
    exact hCounts.2 rfl
  · intro token hToken hNone
    show token ∈ frames.inUse
    rw [hUsed]
    refine ⟨hToken, ?_⟩
    rintro ⟨vpn, hLow, hHigh, hValid, hPfn⟩
    have hStack := hCurrent.stack (vpn - stackBase) (by omega) (by unfold stackLimit stackBase at *; omega)
    have hPage : stackBase + (vpn - stackBase) = vpn := by omega
    rw [hPage] at hStack
    rw [hStack] at hValid hPfn
    exact hNone (.stack proc (vpn - stackBase)) ⟨_, rfl⟩ ⟨hProc, hValid, hPfn⟩

/-- A switch maps another kernel stack, and the rest of region 0 stays. -/
theorem custody_switch (h : Custody who m) (next : Proc) : Custody who (kcSwitch (ucSwitch m next) next) := by
  refine h.keep (fun owner hCounts _ => ?_) subset_rfl h.wf
  cases owner with
  | heap vpn => exact if_neg hCounts
  | stack proc i => rfl
  | user proc i => rfl

end KernelMemory
end Yalnix
