import Yalnix.Memory.Break
import Yalnix.Memory.Duplicate
import Yalnix.Memory.Loaded
import Yalnix.Memory.Owners

/-! What the calls leave of the memory contexts: a stack that grows, a program that
is loaded and a copy for a child keep the heap mapped up to the break. -/
namespace Yalnix

open Hardware Transition

variable [Hardware] {m m' n : Memory}

namespace UserMemory

theorem Step.others (h : Step m m') {p : Proc} (hp : p ≠ m.active) : m'.ctx p = m.ctx p := by
  have hSet (frames : Frames) (pt : PageTable) : ((m.setFrames frames).setRegion1Pt m.active pt).ctx p = m.ctx p :=
    Function.update_of_ne hp _ _
  cases h with
  | alloc vpn prot =>
      unfold allocPage
      split
      · rfl
      · split_ifs
        · exact hSet _ _
        · rfl
  | dealloc vpn =>
      unfold deallocPage
      split_ifs
      · rfl
      · exact hSet m.frames _
      · rfl
  | protect vpn prot =>
      unfold changeProt
      split_ifs
      · rfl
      · exact hSet m.frames _
      · rfl
  | bounds ctx hTable => exact Function.update_of_ne hp _ _
  | write addr byte hPerms => rfl

/-- The functions that work on the active process leave the others alone. -/
theorem Steps.others (h : Steps m m') {p : Proc} (hp : p ≠ m.active) : m'.ctx p = m.ctx p := by
  induction h with
  | refl => rfl
  | tail hBefore hLast ih =>
      rename_i n m'
      have hSame : n.active = m.active := congrArg KernelSide.active (Steps.kernelSide hBefore)
      exact (hLast.others (hSame ▸ hp)).trans ih

/-- Growth maps pages that were not mapped, and changes nothing else of the context. -/
structure Stacked (m m' : Memory) : Prop where
  active : m'.active = m.active
  bounds : m'.ctx m.active = { m.ctx m.active with region1Pt := m'.region1Pt }
  kept : ∀ i, (m.region1Pt i).valid = true → m'.region1Pt i = m.region1Pt i

theorem stacked_growStack (pages : List Int) : Stacked m (growStack m pages) := by
  induction pages generalizing m with
  | nil => exact ⟨rfl, rfl, fun _ _ => rfl⟩
  | cons vpn pages ih =>
      unfold growStack
      split_ifs with hValid
      · exact ⟨rfl, rfl, fun _ _ => rfl⟩
      · have hRest := ih (m := (allocPage m vpn .readWrite).1)
        have hPage : Stacked m (allocPage m vpn .readWrite).1 := by
          unfold allocPage
          split
          · exact ⟨rfl, rfl, fun _ _ => rfl⟩
          · split_ifs
            · refine ⟨rfl, ?_, fun i hi => ?_⟩
              · simp [Memory.setRegion1Pt, Memory.setFrames, Memory.region1Pt]
              · have hNe : i ≠ vpn - region1BaseVpn := by
                  rintro rfl
                  exact hValid hi
                simp [Memory.setRegion1Pt, Memory.setFrames, Memory.region1Pt, createPte, hNe]
            · exact ⟨rfl, rfl, fun _ _ => rfl⟩
        refine ⟨hRest.active.trans hPage.active, ?_, fun i hi => ?_⟩
        · have hBounds := hRest.bounds
          rw [hPage.active, hPage.bounds] at hBounds
          exact hBounds
        · rw [hRest.kept i (by rw [hPage.kept i hi]; exact hi), hPage.kept i hi]

theorem stacked_expandStack (addr : Word) : Stacked m (expandStack m addr).1 := by
  unfold expandStack
  dsimp only
  split_ifs
  · exact ⟨rfl, rfl, fun _ _ => rfl⟩
  · exact ⟨rfl, rfl, fun _ _ => rfl⟩
  · exact stacked_growStack _

theorem Stacked.ready (h : Stacked m m') (hReady : (m.ctx m.active).Ready) : (m'.ctx m.active).Ready := by
  rw [h.bounds]
  refine { hReady with heap := fun vpn hLow hHigh => ?_ }
  have hOld := hReady.heap vpn hLow hHigh
  have hSame := h.kept _ hOld.1
  dsimp only
  rw [hSame]
  exact hOld

end UserMemory

namespace LoadProgram

/-- `ERROR` is returned before anything of the memory was changed. -/
theorem mem_loadProgram_error {m : Memory} {uc : UserContext} {file : File} {args : List (List Byte)} {argsOk : Bool}
    {loaded : Outcome} (h : loadProgram m uc file args argsOk = .ok loaded) (hResult : loaded.result = .error) :
    loaded.mem = m := by
  unfold loadProgram at h
  dsimp only at h
  split at h
  · exact Except.ok.inj h ▸ rfl
  · exact Except.ok.inj h ▸ rfl
  · split_ifs at h
    · exact Except.ok.inj h ▸ rfl
    · exact Except.ok.inj h ▸ rfl
    · exact Except.ok.inj h ▸ rfl
    · split at h
      · split at h
        · obtain rfl := Except.ok.inj h
          cases hResult
        · split at h
          · obtain rfl := Except.ok.inj h
            cases hResult
          · obtain ⟨done, -, h⟩ := bind_eq_ok.mp h
            obtain rfl := Except.ok.inj h
            cases hResult
      · obtain rfl := Except.ok.inj h
        cases hResult
      · obtain rfl := Except.ok.inj h
        cases hResult

end LoadProgram

namespace UserMemory

/-- A loaded program has an empty heap. -/
theorem ready_loadProgram {uc : UserContext} {file : LoadProgram.File} {args : List (List Byte)} {argsOk : Bool}
    {loaded : LoadProgram.Outcome} (hWf : m.frames.Wf)
    (h : LoadProgram.loadProgram m uc file args argsOk = .ok loaded) (hResult : loaded.result = .success) :
    (loaded.mem.ctx m.active).Ready := by
  obtain ⟨li, text, data, hSucceeded⟩ := LoadProgram.loadProgram_success h hResult
  obtain ⟨st⟩ := hSucceeded.stages hWf
  have hActive : loaded.mem.active = m.active := congrArg KernelSide.active (LoadProgram.steps_loadProgram h).kernelSide
  obtain ⟨hOrig, hCurr⟩ := st.bounds_eq
  have hStart := st.data_eq
  have hData := st.allocated.dataLow
  have hHigh := st.allocated.dataHigh
  have hPages : 0 ≤ (LoadProgram.layout li args).dataNpg := by
    unfold LoadProgram.layout
    dsimp only
    omega
  have hSize : region1LimitVpn = region1BaseVpn + region1Vpns := rfl
  rw [← hActive]
  exact ⟨by omega, by omega, by omega, by omega, fun vpn hLow hHigh => by omega⟩

section Copies

variable {child : Proc} {brkPage vpn : Int} {prot : Prot} {pages rest : List (Int × Prot)} {ok : Bool} {sp : Word}

/-- The copy stops at a page, or goes on after it. -/
theorem copyPages_cons (hChild : child ≠ m.active) (h : copyPages m child brkPage ((vpn, prot) :: rest) = .ok (m', ok)) :
    (ok = false ∧ ∃ frames, m' = m.setFrames frames) ∨
      ∃ frames pfn pmem, copyPages { handOver m child brkPage vpn prot frames pfn with pmem := pmem } child brkPage
        rest = .ok (m', ok) := by
  unfold copyPages at h
  split at h
  · rename_i next hAlloc
    obtain ⟨rfl, rfl⟩ := Prod.mk.inj (Except.ok.inj h)
    obtain ⟨frames, rfl⟩ : ∃ frames, next = m.setFrames frames := by
      unfold allocPage at hAlloc
      split at hAlloc
      · exact ⟨_, (Prod.mk.inj hAlloc).1.symm⟩
      · split_ifs at hAlloc
        · cases (Prod.mk.inj hAlloc).2
        · exact ⟨_, (Prod.mk.inj hAlloc).1.symm⟩
    obtain ⟨freed, hEq, -, -⟩ := destroyPt_spec (m.setFrames frames) ((m.setFrames frames).ctx child).region1Pt 0
      (vpn - region1BaseVpn)
    exact Or.inl ⟨rfl, freed, hEq⟩
  · rename_i next hAlloc
    obtain ⟨hIn, -⟩ := allocPage_true hAlloc
    obtain ⟨frames, pfn, rfl⟩ : ∃ frames pfn, next = (m.setFrames frames).setRegion1Pt m.active
        (createPte m.region1Pt (brkPage - region1BaseVpn) pfn .readWrite) := by
      unfold allocPage at hAlloc
      split at hAlloc
      · cases (Prod.mk.inj hAlloc).2
      · split_ifs at hAlloc
        exact ⟨_, _, (Prod.mk.inj hAlloc).1.symm⟩
    obtain ⟨copied, hCopy, h⟩ := bind_eq_ok.mp h
    obtain ⟨pmem, rfl⟩ : ∃ pmem, copied = { (m.setFrames frames).setRegion1Pt m.active
        (createPte m.region1Pt (brkPage - region1BaseVpn) pfn .readWrite) with pmem := pmem } := by
      unfold copyFrame at hCopy
      dsimp only at hCopy
      split_ifs at hCopy
      exact ⟨_, (Except.ok.inj hCopy).symm⟩
    refine Or.inr ⟨frames, pfn, pmem, ?_⟩
    convert h using 2
    simp only [unmapNoFree, if_pos hIn, destroyPte, Option.getD_some, Memory.setFrames, Memory.setRegion1Pt,
      Memory.region1Pt, createPte, handOver, Function.update_self, Function.update_idem,
      Function.update_of_ne hChild]

/-- What the copy of a list of pages does to the contexts of the parent and the child. -/
structure Handed (m : Memory) (child : Proc) (brkPage : Int) (pages : List (Int × Prot)) (ok : Bool) (m' : Memory) :
    Prop where
  active : m'.active = m.active
  bounds : ∀ p, m'.ctx p = { m.ctx p with region1Pt := (m'.ctx p).region1Pt }
  others : ∀ p, p ≠ child → p ≠ m.active → m'.ctx p = m.ctx p
  parent : ∀ i, i ≠ brkPage - region1BaseVpn → m'.region1Pt i = m.region1Pt i
  scratch : (m.region1Pt (brkPage - region1BaseVpn)).valid = false →
    (m'.region1Pt (brkPage - region1BaseVpn)).valid = false
  untouched : ∀ i, (∀ page ∈ pages, page.1 - region1BaseVpn ≠ i) →
    (m'.ctx child).region1Pt i = (m.ctx child).region1Pt i
  copied : ok = true → pages.Pairwise (·.1 ≠ ·.1) → ∀ page ∈ pages,
    ((m'.ctx child).region1Pt (page.1 - region1BaseVpn)).valid = true ∧
      ((m'.ctx child).region1Pt (page.1 - region1BaseVpn)).prot = page.2

theorem handed_copyPages (hChild : child ≠ m.active) (h : copyPages m child brkPage pages = .ok (m', ok)) :
    Handed m child brkPage pages ok m' := by
  induction pages generalizing m with
  | nil =>
      obtain ⟨rfl, rfl⟩ := Prod.mk.inj (Except.ok.inj h)
      exact ⟨rfl, fun _ => rfl, fun _ _ _ => rfl, fun _ _ => rfl, id, fun _ _ => rfl, by simp⟩
  | cons page rest ih =>
      obtain ⟨vpn, prot⟩ := page
      rcases copyPages_cons hChild h with ⟨rfl, frames, rfl⟩ | ⟨frames, pfn, pmem, hRest⟩
      · exact ⟨rfl, fun _ => rfl, fun _ _ _ => rfl, fun _ _ => rfl, id, fun _ _ => rfl, fun hOk => by cases hOk⟩
      · generalize hNext : ({ handOver m child brkPage vpn prot frames pfn with pmem := pmem } : Memory) = next at hRest
        have hActive : next.active = m.active := by
          rw [← hNext]
          rfl
        have hTable : next.region1Pt =
            Function.update m.region1Pt (brkPage - region1BaseVpn) ⟨false, .readWrite, pfn⟩ := by
          rw [← hNext]
          exact handOver_region1Pt hChild brkPage vpn prot frames pfn
        have hHanded : (next.ctx child).region1Pt =
            Function.update (m.ctx child).region1Pt (vpn - region1BaseVpn) ⟨true, prot, pfn⟩ := by
          rw [← hNext]
          exact handOver_child m child brkPage vpn prot frames pfn
        have hBounds (p : Proc) : next.ctx p = { m.ctx p with region1Pt := (next.ctx p).region1Pt } := by
          rw [← hNext]
          by_cases hp : p = child
          · subst hp
            simp [handOver]
          · by_cases hParent : p = m.active
            · subst hParent
              simp [handOver, hp]
            · simp [handOver, hp, hParent]
        have hLast := ih (hActive ▸ hChild) hRest
        constructor
        · exact hLast.active.trans hActive
        · intro p
          rw [hLast.bounds p, hBounds p]
        · intro p hp hParent
          rw [hLast.others p hp (hActive ▸ hParent), ← hNext]
          simp [handOver, hp, hParent]
        · intro i hi
          rw [hLast.parent i hi, hTable, Function.update_of_ne hi]
        · intro _
          refine hLast.scratch ?_
          rw [hTable, Function.update_self]
        · intro i hi
          rw [hLast.untouched i fun page hPage => hi page (List.mem_cons_of_mem _ hPage), hHanded,
            Function.update_of_ne (hi (vpn, prot) List.mem_cons_self).symm]
        · intro hOk hApart page hPage
          obtain ⟨hFirst, hOthers⟩ := List.pairwise_cons.mp hApart
          rcases List.mem_cons.mp hPage with rfl | hMem
          · rw [hLast.untouched _ fun other hOther => by have := hFirst other hOther; omega, hHanded,
              Function.update_self]
            exact ⟨rfl, rfl⟩
          · exact hLast.copied hOk hOthers page hMem

/-- The contexts after `UCCopy`. A child that gets an address space gets the bounds
of its parent. -/
theorem handed_ucCopy (hChild : child ≠ m.active) (h : ucCopy m sp child = .ok (m', ok)) : ∃ n,
    Handed m child (m.ctx m.active).currBrkPage (copiedPages (m.ctx m.active) sp) ok n ∧
      (∀ p, p ≠ child → m'.ctx p = n.ctx p) ∧ (ok = true →
        (m.ctx m.active).currBrkPage < pageNumber (downToPage sp) ∧
        m'.ctx child = { m.ctx m.active with region1Pt := (n.ctx child).region1Pt }) := by
  unfold ucCopy at h
  dsimp only at h
  split_ifs at h with hBelow
  · obtain ⟨rfl, rfl⟩ := Prod.mk.inj (Except.ok.inj h)
    exact ⟨m, ⟨rfl, fun _ => rfl, fun _ _ _ => rfl, fun _ _ => rfl, id, fun _ _ => rfl, fun hOk => by cases hOk⟩,
      fun _ _ => rfl, fun hOk => by cases hOk⟩
  · obtain ⟨⟨n, done⟩, hCopy, h⟩ := bind_eq_ok.mp h
    have hHanded := handed_copyPages hChild hCopy
    cases done with
    | false =>
        obtain ⟨rfl, rfl⟩ := Prod.mk.inj (Except.ok.inj h)
        exact ⟨_, hHanded, fun _ _ => rfl, fun hOk => by cases hOk⟩
    | true =>
        obtain ⟨rfl, rfl⟩ := Prod.mk.inj (Except.ok.inj h)
        refine ⟨n, hHanded, fun p hp => Function.update_of_ne hp _ _, fun _ => ⟨not_le.mp hBelow, ?_⟩⟩
        exact Function.update_self _ _ _

/-- A fork keeps the heap of the parent, and gives the child the same one. -/
theorem ready_ucCopy (hChild : child ≠ m.active) (hReady : (m.ctx m.active).Ready)
    (h : ucCopy m sp child = .ok (m', ok)) :
    (m'.ctx m.active).Ready ∧ (ok = true → (m'.ctx child).Ready) := by
  obtain ⟨n, hHanded, hSame, hDone⟩ := handed_ucCopy hChild h
  constructor
  · have hTable : (n.ctx m.active).region1Pt = n.region1Pt := by rw [Memory.region1Pt, hHanded.active]
    rw [hSame _ hChild.symm, hHanded.bounds, hTable]
    refine { hReady with heap := fun vpn hLow hHigh => ?_ }
    have hOld := hReady.heap vpn hLow hHigh
    dsimp only at hHigh ⊢
    rw [hHanded.parent _ (by omega)]
    exact hOld
  · intro hOk
    obtain ⟨hStack, hCtx⟩ := hDone hOk
    have hData : (m.ctx m.active).dataStartPage ≤ (m.ctx m.active).currBrkPage := hReady.data.trans hReady.order
    have hApart : (copiedPages (m.ctx m.active) sp).Pairwise (·.1 ≠ ·.1) :=
      (sorted_copiedPages hData hStack).imp fun hLess => hLess.ne
    rw [hCtx]
    refine { hReady with heap := fun vpn hLow hHigh => ?_ }
    have hPage : (vpn, Prot.readWrite) ∈ copiedPages (m.ctx m.active) sp :=
      mem_copiedPages.mpr (Or.inr (Or.inl ⟨hReady.data.trans hLow, hHigh, rfl⟩))
    exact hHanded.copied hOk hApart _ hPage

end Copies

end UserMemory
end Yalnix
