import Yalnix.Memory.Contexts

/-! Frames that are in use and that no owner in sight refers to. No operation of the
memory modules gives them back, maps them again or writes to them. -/
namespace Yalnix

open Hardware KernelMemory UserMemory Ownership

variable [Hardware] {who : Proc → Prop} {kept : Set Nat} {start m m' : Memory}

theorem Memory.holds_update {owner other : Owner} {e : Pte} {pfn : Nat}
    (hEntry : m'.entry = Function.update m.entry owner e) (h : m'.Holds who other pfn) :
    m.Holds who other pfn ∨ other = owner ∧ e.valid = true ∧ e.pfn = pfn := by
  obtain ⟨hCounts, hValid, hPfn⟩ := h
  rw [hEntry] at hValid hPfn
  by_cases hOther : other = owner
  · rw [hOther, Function.update_self] at hValid hPfn
    exact Or.inr ⟨hOther, hValid, hPfn⟩
  · rw [Function.update_of_ne hOther] at hValid hPfn
    exact Or.inl ⟨hCounts, hValid, hPfn⟩

/-- The frames in `kept` are in use, none of the owners refers to them, and they
contain what they contained at the start. -/
structure Spared (who : Proc → Prop) (kept : Set Nat) (start m : Memory) : Prop where
  aside : Aside (m.Holds who) m.frames.inUse kept
  contents : ∀ pfn ∈ kept, m.pmem pfn = start.pmem pfn
  wf : m.frames.Wf

namespace Spared

theorem none (hWf : m.frames.Wf) : Spared who ∅ m m :=
  ⟨⟨Set.empty_subset _, fun _ _ _ => id⟩, fun _ _ => rfl, hWf⟩

/-- No frame is given back, and a frame that an owner refers to was referred to before
or was free. -/
theorem keep (h : Spared who kept start m) (hUsed : m.frames.inUse ⊆ m'.frames.inUse) (hWf : m'.frames.Wf)
    (hPmem : ∀ pfn ∈ kept, m'.pmem pfn = m.pmem pfn)
    (hHeld : ∀ owner pfn, m'.Holds who owner pfn → (∃ source, m.Holds who source pfn) ∨ pfn ∉ m.frames.inUse) :
    Spared who kept start m' where
  aside := h.aside.change (fun _ hIn _ => hUsed hIn) hHeld
  contents pfn hKept := (hPmem pfn hKept).trans (h.contents pfn hKept)
  wf := hWf

/-- The entries are as before. -/
theorem same (h : Spared who kept start m) (hEntry : m'.entry = m.entry)
    (hUsed : m.frames.inUse ⊆ m'.frames.inUse) (hWf : m'.frames.Wf)
    (hPmem : ∀ pfn ∈ kept, m'.pmem pfn = m.pmem pfn) : Spared who kept start m' := by
  refine h.keep hUsed hWf hPmem fun owner pfn hOwner => Or.inl ⟨owner, ?_⟩
  rwa [Memory.Holds, hEntry] at hOwner

/-- Fewer owners are looked at. -/
theorem mono {some : Proc → Prop} (h : Spared who kept start m) (hLess : ∀ p, some p → who p) :
    Spared some kept start m where
  aside := by
    apply h.aside.change
    · exact fun _ hIn _ => hIn
    · exact fun owner pfn hOwner => Or.inl ⟨owner, hOwner.1.mono hLess, hOwner.2⟩
  contents := h.contents
  wf := h.wf

/-- A store of the active process goes to a frame that it holds. -/
theorem store {addr : Int} {byte : Byte} (h : Spared who kept start m) (hActive : who m.active)
    (hPerms : m.hasPerms addr true = true) : Spared who kept start (m.pokeByte addr byte) := by
  have hValid := (Memory.hasPerms_iff.mp hPerms).1.valid
  have hHeld : m.Holds who (.user m.active (addr / pageSize - region1BaseVpn)) (m.frameOf addr) :=
    ⟨hActive, hValid, rfl⟩
  refine h.same rfl subset_rfl h.wf fun pfn hKept => Function.update_of_ne ?_ _ _
  rintro rfl
  exact h.aside.unheld _ _ hHeld hKept

end Spared

namespace UserMemory

theorem Step.spared (hStep : Step m m') (h : Spared who kept start m) (hActive : who m.active) :
    Spared who kept start m' := by
  cases hStep with
  | alloc vpn prot =>
      have hCases := Mapping.alloc_cases (x := m.userMapping) h.wf region1Vpns (vpn - region1BaseVpn) prot
      rw [allocPage_eq]
      generalize Mapping.alloc region1Vpns m.userMapping (vpn - region1BaseVpn) prot = result at hCases
      cases hCases with
      | @full frames hFull hWf hSize hSame =>
          rw [m.withUser_frames frames]
          exact h.same rfl hSame.ge hWf fun _ _ => rfl
      | @lost frames pfn hOut hWf hSize hFree hMarked =>
          rw [m.withUser_frames frames]
          exact h.same rfl ((Set.subset_insert pfn _).trans hMarked.ge) hWf fun _ _ => rfl
      | @mapped frames pfn hIn hWf hSize hFree hMarked =>
          refine h.keep ((Set.subset_insert pfn _).trans hMarked.ge) hWf (fun _ _ => rfl) fun owner token hOwner => ?_
          rcases Memory.holds_update (m.entry_setUser _ _ _ _) hOwner with hOld | ⟨-, -, rfl⟩
          · exact Or.inl ⟨owner, hOld⟩
          · exact Or.inr hFree.2
  | dealloc vpn =>
      unfold deallocPage
      split_ifs with hIn hValid
      · exact h
      · have hMapped : (m.region1Pt (vpn - region1BaseVpn)).valid = true := by simpa using hValid
        have hHeld : m.Holds who (.user m.active (vpn - region1BaseVpn)) (m.region1Pt (vpn - region1BaseVpn)).pfn :=
          ⟨hActive, hMapped, rfl⟩
        refine ⟨h.aside.change (fun pfn hUsed hNone => ?_) fun owner pfn hOwner => Or.inl ⟨owner, ?_⟩, h.contents,
          h.wf.freeFrame _⟩
        · have hLeft : pfn ∈ m.frames.inUse \ {(m.region1Pt (vpn - region1BaseVpn)).pfn} := by
            refine ⟨hUsed, fun hSame => hNone (.user m.active (vpn - region1BaseVpn)) ?_⟩
            rw [Set.mem_singleton_iff.mp hSame]
            exact hHeld
          rwa [← m.frames.inUse_freeFrame] at hLeft
        · rcases Memory.holds_update (m.entry_setUser _ _ _ _) hOwner with hOld | ⟨-, hStill, -⟩
          · exact hOld
          · cases hStill
      · exact h
  | protect vpn prot =>
      unfold changeProt
      split_ifs with hIn hValid
      · exact h
      · refine h.keep subset_rfl h.wf (fun _ _ => rfl) fun owner pfn hOwner => Or.inl ⟨owner, ?_⟩
        rcases Memory.holds_update (m.entry_setUser m.frames _ _ _) hOwner with hOld | ⟨rfl, hStill, hPfn⟩
        · exact hOld
        · exact ⟨hActive, hStill, hPfn⟩
      · exact h
  | bounds ctx hTable =>
      refine h.same ?_ subset_rfl h.wf fun _ _ => rfl
      funext owner
      cases owner with
      | heap vpn => rfl
      | stack proc i => rfl
      | user proc i =>
          by_cases hProc : proc = m.active
          · subst hProc
            simp [Memory.entry, hTable, Memory.region1Pt]
          · simp [Memory.entry, hProc]
  | write addr byte hPerms => exact h.store hActive hPerms

theorem Steps.spared (hSteps : Steps m m') (h : Spared who kept start m) (hActive : who m.active) :
    Spared who kept start m' := by
  induction hSteps with
  | refl => exact h
  | tail hBefore hLast ih =>
      rename_i n m'
      have hSame : n.active = m.active := congrArg KernelSide.active (Steps.kernelSide hBefore)
      exact hLast.spared ih (hSame ▸ hActive)

/-- The table of a counted process is given up. -/
theorem spared_destroyPt {proc : Proc} (h : Spared who kept start m) (hProc : who proc) (first last : Int) :
    Spared who kept start (destroyPt m (m.ctx proc).region1Pt first last) := by
  obtain ⟨frames, hEq, hUsed, hWf⟩ := destroyPt_spec m (m.ctx proc).region1Pt first last
  rw [hEq]
  refine ⟨h.aside.change (fun pfn hIn hNone => ?_) fun owner pfn hOwner => Or.inl ⟨owner, hOwner⟩, h.contents, hWf h.wf⟩
  show pfn ∈ frames.inUse
  rw [hUsed]
  refine ⟨hIn, ?_⟩
  rintro ⟨i, -, -, hValid, hPfn⟩
  exact hNone (.user proc i) ⟨hProc, hValid, hPfn⟩

/-- The frames that are copied to were free. -/
theorem spared_copyPages {child : Proc} {brkPage : Int} {pages : List (Int × Prot)} {ok : Bool}
    (hRun : copyPages m child brkPage pages = .ok (m', ok)) (h : Spared who kept start m) (hActive : who m.active)
    (hChild : who child) : Spared who kept start m' := by
  induction pages generalizing m with
  | nil =>
      obtain ⟨rfl, -⟩ := Prod.mk.inj (Except.ok.inj hRun)
      exact h
  | cons page pages ih =>
      have hPage : Spared who kept start (allocPage m brkPage .readWrite).1 :=
        (Step.alloc brkPage .readWrite).spared h hActive
      have hSame : (allocPage m brkPage .readWrite).1.active = m.active :=
        congrArg KernelSide.active (kernelSide_allocPage m brkPage .readWrite)
      unfold copyPages at hRun
      split at hRun
      · rename_i next hAlloc
        rw [hAlloc] at hPage
        obtain ⟨rfl, -⟩ := Prod.mk.inj (Except.ok.inj hRun)
        exact spared_destroyPt hPage hChild _ _
      · rename_i next hAlloc
        rw [hAlloc] at hPage hSame
        obtain ⟨hIn, hValid⟩ := allocPage_true hAlloc
        obtain ⟨copied, hCopy, hRun⟩ := Transition.bind_eq_ok.mp hRun
        have hActiveNext : who next.active := hSame ▸ hActive
        have hHeld : next.Holds who (.user next.active (brkPage - region1BaseVpn))
          (next.region1Pt (brkPage - region1BaseVpn)).pfn := ⟨hActiveNext, hValid, rfl⟩
        obtain ⟨pmem, rfl, hPmem⟩ : ∃ pmem, copied = { next with pmem := pmem } ∧
            ∀ pfn ∈ kept, pmem pfn = next.pmem pfn := by
          unfold copyFrame at hCopy
          dsimp only at hCopy
          split_ifs at hCopy
          refine ⟨_, (Except.ok.inj hCopy).symm, fun pfn hKept => Function.update_of_ne ?_ _ _⟩
          rintro rfl
          exact hPage.aside.unheld _ _ hHeld hKept
        simp only [unmapNoFree, if_pos hIn, Option.getD_some] at hRun
        refine ih hRun (hPage.keep subset_rfl hPage.wf hPmem fun owner pfn hOwner => Or.inl ?_) hActiveNext
        generalize hUnmapped : Memory.setRegion1Pt { next with pmem := pmem } _ _ = unmapped at hOwner
        rcases Memory.holds_update (unmapped.entry_setUser unmapped.frames _ _ _) hOwner with hOld | ⟨-, -, rfl⟩
        · subst hUnmapped
          rcases Memory.holds_update (Memory.entry_setUser { next with pmem := pmem } next.frames _ _ _) hOld with
            hOld | ⟨-, hStill, -⟩
          · exact ⟨owner, hOld⟩
          · cases hStill
        · exact ⟨_, hHeld⟩

theorem spared_ucCopy {child : Proc} {sp : Word} {ok : Bool} (hCopy : ucCopy m sp child = .ok (m', ok))
    (h : Spared who kept start m) (hActive : who m.active) (hChild : who child) : Spared who kept start m' := by
  unfold ucCopy at hCopy
  dsimp only at hCopy
  split_ifs at hCopy
  · obtain ⟨rfl, -⟩ := Prod.mk.inj (Except.ok.inj hCopy)
    exact h
  · obtain ⟨⟨copied, done⟩, hRun, hCopy⟩ := Transition.bind_eq_ok.mp hCopy
    have hPages := spared_copyPages hRun h hActive hChild
    cases done with
    | false =>
        obtain ⟨rfl, -⟩ := Prod.mk.inj (Except.ok.inj hCopy)
        exact hPages
    | true =>
        obtain ⟨rfl, -⟩ := Prod.mk.inj (Except.ok.inj hCopy)
        refine hPages.same ?_ subset_rfl hPages.wf fun _ _ => rfl
        funext owner
        cases owner with
        | heap vpn => rfl
        | stack proc i => rfl
        | user proc i =>
            by_cases hProc : proc = child
            · subst hProc
              simp [Memory.entry]
            · simp [Memory.entry, hProc]

end UserMemory

namespace KernelMemory

theorem spared_filled {prot : Prot} {a b : Int} {x : Mapping} (h : Spared who kept start m)
    (hFilled : Mapping.Filled prot a b m.kernelMapping x) : Spared who kept start (m.withKernel x) := by
  refine h.keep ?_ hFilled.wf (fun _ _ => rfl) fun owner pfn hOwner => ?_
  · show m.frames.inUse ⊆ x.frames.inUse
    rw [hFilled.inUse]
    exact Set.subset_union_left
  · obtain ⟨hCounts, hValid, hPfn⟩ := hOwner
    cases owner with
    | heap vpn =>
        by_cases hIn : a ≤ vpn ∧ vpn < b
        · rw [← hPfn]
          exact Or.inr (hFilled.fresh vpn hIn.1 hIn.2).2
        · have hSame : (m.withKernel x).entry (.heap vpn) = m.entry (.heap vpn) := hFilled.other vpn hIn
          rw [hSame] at hValid hPfn
          exact Or.inl ⟨.heap vpn, hCounts, hValid, hPfn⟩
    | stack proc i => exact Or.inl ⟨.stack proc i, hCounts, hValid, hPfn⟩
    | user proc i => exact Or.inl ⟨.user proc i, hCounts, hValid, hPfn⟩

theorem spared_cleared {a b : Int} {x : Mapping} (h : Spared who kept start m) (hBelow : b ≤ stackBase)
    (hCleared : Mapping.Cleared a b m.kernelMapping x) : Spared who kept start (m.withKernel x) := by
  refine ⟨h.aside.change (fun pfn hUsed hNone => ?_) fun owner pfn hOwner => Or.inl ⟨owner, ?_⟩, h.contents,
    hCleared.wf⟩
  · show pfn ∈ x.frames.inUse
    rw [hCleared.inUse]
    refine ⟨hUsed, ?_⟩
    rintro ⟨vpn, hLow, hHigh, hValid, hPfn⟩
    exact hNone (.heap vpn) ⟨fun hWindow => by omega, hValid, hPfn⟩
  · exact (holds_cleared hCleared hOwner).1

theorem spared_restored {a c : Int} {x : Mapping} (h : Spared who kept start m)
    (hRestored : Mapping.Restored ∅ a c m.kernelMapping x) : Spared who kept start (m.withKernel x) := by
  refine h.keep ?_ hRestored.wf (fun _ _ => rfl) fun owner pfn hOwner => Or.inl ⟨owner, ?_⟩
  · show m.frames.inUse ⊆ x.frames.inUse
    rw [hRestored.inUse]
    exact Set.subset_union_left
  · obtain ⟨hCounts, hValid, hPfn⟩ := hOwner
    have hSame := restored_entry hRestored hValid
    rw [hSame] at hValid hPfn
    exact ⟨hCounts, hValid, hPfn⟩

theorem spared_break {page : Int} {result : Memory × Bool} (h : Spared who kept start m) (hBounds : m.HeapBounds)
    (hBreak : Break m page result) : Spared who kept start result.1 := by
  have hUpper := hBounds.upper
  have hBrk {n : Memory} (hn : Spared who kept start n) (brk : Int) :
      Spared who kept start { n with currentBrkPage := brk } := hn.same rfl subset_rfl hn.wf fun _ _ => rfl
  cases hBreak with
  | refused => exact h
  | failed hLow hHigh hPage hRestored => exact spared_restored h hRestored
  | grown hLess hPage hFilled => exact hBrk (spared_filled h hFilled) _
  | shrunk hLow hLe hPage hCleared => exact hBrk (spared_cleared h hUpper hCleared) _

theorem spared_setKernelBrk (h : Spared who kept start m) (hEnabled : m.vmEnabled = true) (hBounds : m.HeapBounds)
    (addr : Word) : Spared who kept start (setKernelBrk m addr).1 :=
  spared_break h hBounds (break_cases hEnabled h.wf hBounds addr)

/-- The stack of the child is filled in frames that were free. -/
theorem spared_kcCopy (h : Spared who kept start m) (hEnabled : m.vmEnabled = true) (hBounds : m.HeapBounds)
    (child : Proc) : Spared who kept start (kcCopy m child).1 := by
  have hClone := kcCopy_cases hEnabled h.wf hBounds child
  generalize kcCopy m child = result at hClone
  cases hClone with
  | failed hBreak => exact spared_break h hBounds hBreak
  | @done x pmem hBelow hFilled hOther =>
      have hGrown := spared_filled h hFilled
      refine hGrown.keep subset_rfl hFilled.wf (fun pfn hKept => hOther pfn fun i hLow hHigh hSame => ?_)
        fun owner pfn hOwner => Or.inl ⟨_, (holds_withStack hBelow (fun vpn hLow hHigh =>
          (hFilled.entry vpn hLow hHigh).1) hOwner).1⟩
      have hFree := (hFilled.fresh (m.currentBrkPage + i) (by omega) (by omega)).2
      rw [hSame] at hFree
      exact hFree (h.aside.marked hKept)

/-- The process whose stack is mapped gives it back. -/
theorem spared_deallocateKernelStack {proc : Proc} (h : Spared who kept start m) (hCurrent : m.Current proc)
    (hProc : who proc) : Spared who kept start (deallocateKernelStack m) := by
  rw [deallocateKernelStack_eq]
  obtain ⟨frames, hEq, hUsed, hWf⟩ := destroyPt_spec m m.region0Pt stackBase stackLimit
  rw [hEq]
  refine ⟨h.aside.change (fun pfn hIn hNone => ?_) fun owner pfn hOwner => Or.inl ⟨owner, hOwner⟩, h.contents, hWf h.wf⟩
  show pfn ∈ frames.inUse
  rw [hUsed]
  refine ⟨hIn, ?_⟩
  rintro ⟨vpn, hLow, hHigh, hValid, hPfn⟩
  have hStack := hCurrent.stack (vpn - stackBase) (by omega) (by unfold stackLimit stackBase at *; omega)
  have hPage : stackBase + (vpn - stackBase) = vpn := by omega
  rw [hPage] at hStack
  rw [hStack] at hValid hPfn
  exact hNone (.stack proc (vpn - stackBase)) ⟨hProc, hValid, hPfn⟩

theorem spared_switch (h : Spared who kept start m) (next : Proc) :
    Spared who kept start (kcSwitch (ucSwitch m next) next) := by
  refine h.keep subset_rfl h.wf (fun _ _ => rfl) fun owner pfn hOwner => Or.inl ⟨owner, ?_⟩
  obtain ⟨hCounts, hHeld⟩ := hOwner
  refine ⟨hCounts, ?_⟩
  cases owner with
  | heap vpn =>
      have hSame : (kcSwitch (ucSwitch m next) next).entry (.heap vpn) = m.entry (.heap vpn) := if_neg hCounts
      rwa [hSame] at hHeld
  | stack proc i => exact hHeld
  | user proc i => exact hHeld

end KernelMemory
end Yalnix
