import Yalnix.Memory.Regions
import Mathlib.Data.Int.ConditionallyCompleteOrder

/-! `KernelBrk_Impl`. A process with a program has its heap mapped up to the
break, and the call moves the break exactly if it maps no page twice. -/
namespace Yalnix

open Hardware

variable [Hardware]

/-- The heap lies in region 1 above the start of the data, and it is mapped up to
the break. -/
structure MemCtx.Ready (ctx : MemCtx) : Prop where
  data : ctx.dataStartPage ≤ ctx.origBrkPage
  lower : region1BaseVpn ≤ ctx.origBrkPage
  order : ctx.origBrkPage ≤ ctx.currBrkPage
  upper : ctx.currBrkPage ≤ region1LimitVpn
  heap : ∀ vpn, ctx.origBrkPage ≤ vpn → vpn < ctx.currBrkPage →
    (ctx.region1Pt (vpn - region1BaseVpn)).valid = true ∧
      (ctx.region1Pt (vpn - region1BaseVpn)).prot = .readWrite

/-- The entries that are valid in `y` and were not in `x`. -/
def opened (x y : PageTable) : Set Int := {i | (x i).valid = false ∧ (y i).valid = true}

namespace Mapping

variable {x y : Mapping} {a b : Int} {prot : Prot}

omit [Hardware] in
theorem ncard_range (a b : Int) : (Set.Ico a b).ncard = (b - a).toNat := by
  rw [← Finset.coe_Ico, Set.ncard_coe_finset, Int.card_Ico]

theorem Filled.opened_subset (h : Filled prot a b x y) : opened x.table y.table ⊆ Set.Ico a b := by
  rintro i ⟨hOld, hNew⟩
  by_contra hOut
  rw [h.other i hOut, hOld] at hNew
  cases hNew

/-- As many entries become valid as were filled exactly if none of them was valid. -/
theorem Filled.ncard_opened_iff (h : Filled prot a b x y) : (opened x.table y.table).ncard = (b - a).toNat ↔
    ∀ i, a ≤ i → i < b → (x.table i).valid = false := by
  rw [← ncard_range]
  constructor
  · intro hCount i hLow hHigh
    have hAll : opened x.table y.table = Set.Ico a b :=
      Set.eq_of_subset_of_ncard_le h.opened_subset hCount.ge (Set.finite_Ico a b)
    have hIn : i ∈ opened x.table y.table := hAll ▸ ⟨hLow, hHigh⟩
    exact hIn.1
  · intro hInvalid
    congr 1
    refine h.opened_subset.antisymm ?_
    rintro i ⟨hLow, hHigh⟩
    exact ⟨hInvalid i hLow hHigh, (h.entry i hLow hHigh).1⟩

theorem Filled.closed (h : Filled prot a b x y) : opened y.table x.table = ∅ := by
  refine Set.eq_empty_of_forall_notMem ?_
  rintro i ⟨hNew, hOld⟩
  by_cases hIn : a ≤ i ∧ i < b
  · rw [(h.entry i hIn.1 hIn.2).1] at hNew
    cases hNew
  · rw [h.other i hIn, hOld] at hNew
    cases hNew

theorem Cleared.opened_eq (h : Cleared a b x y) : opened x.table y.table = ∅ := by
  refine Set.eq_empty_of_forall_notMem ?_
  rintro i ⟨hOld, hNew⟩
  by_cases hIn : a ≤ i ∧ i < b
  · rw [h.entry i hIn.1 hIn.2] at hNew
    cases hNew
  · rw [h.other i hIn, hOld] at hNew
    cases hNew

theorem Cleared.ncard_closed (h : Cleared a b x y) (hValid : ∀ i, a ≤ i → i < b → (x.table i).valid = true) :
    (opened y.table x.table).ncard = (b - a).toNat := by
  rw [← ncard_range]
  congr 1
  ext i
  constructor
  · rintro ⟨hNew, hOld⟩
    by_contra hOut
    rw [h.other i hOut, hOld] at hNew
    cases hNew
  · rintro ⟨hLow, hHigh⟩
    refine ⟨?_, hValid i hLow hHigh⟩
    rw [h.entry i hLow hHigh]

end Mapping

namespace UserMemory

variable {m : Memory} {addr sp : Word}

/-- The addresses for which `KernelBrk_Impl` does nothing. -/
def BrkRejected (m : Memory) (addr sp : Word) : Prop :=
  pageNumber (upToPage addr) < (m.ctx m.active).origBrkPage ∨
    pageNumber (downToPage sp) - 1 ≤ pageNumber (upToPage addr)

/-- The outcomes of `KernelBrk_Impl` for a new break at `page` that is allowed. -/
inductive Brk (m : Memory) (page : Int) : Memory × Word → Prop where
  | grown {y : Mapping} (hMore : (m.ctx m.active).currBrkPage < page) (hLimit : page ≤ region1LimitVpn)
      (hFilled : Mapping.Filled .readWrite ((m.ctx m.active).currBrkPage - region1BaseVpn)
        (page - region1BaseVpn) m.userMapping y) : Brk m page (setCurrBrkPage (m.withUser y) page, 0)
  | shrunk {y : Mapping} (hLow : (m.ctx m.active).origBrkPage ≤ page)
      (hLess : page ≤ (m.ctx m.active).currBrkPage)
      (hCleared : Mapping.Cleared (page - region1BaseVpn)
        ((m.ctx m.active).currBrkPage - region1BaseVpn) m.userMapping y) :
      Brk m page (setCurrBrkPage (m.withUser y) page, 0)
  /-- The frames lasted for the pages up to `last`. -/
  | full {y : Mapping} {last : Int} (hFirst : (m.ctx m.active).currBrkPage ≤ last) (hLast : last < page)
      (hLimit : last ≤ region1LimitVpn)
      (hCount : m.frames.freeCount = (last - (m.ctx m.active).currBrkPage).toNat)
      (hRestored : Mapping.Restored ∅ ((m.ctx m.active).currBrkPage - region1BaseVpn)
        (last - region1BaseVpn) m.userMapping y) : Brk m page (m.withUser y, errorCode)
  /-- The growth ran out of region 1, and a frame was lost there. -/
  | lost {y : Mapping} {pfn : Nat} (hLast : region1LimitVpn < page)
      (hCount : (region1LimitVpn - (m.ctx m.active).currBrkPage).toNat < m.frames.freeCount)
      (hFree : pfn ∉ m.frames.inUse)
      (hRestored : Mapping.Restored {pfn} ((m.ctx m.active).currBrkPage - region1BaseVpn)
        (region1LimitVpn - region1BaseVpn) m.userMapping y) : Brk m page (m.withUser y, errorCode)

theorem brk_cases (hWf : m.frames.Wf) (hReady : (m.ctx m.active).Ready) (hAllowed : ¬BrkRejected m addr sp) :
    Brk m (pageNumber (upToPage addr)) (kernelBrkImpl m addr sp) := by
  unfold BrkRejected at hAllowed
  unfold kernelBrkImpl
  dsimp only
  rw [if_neg hAllowed]
  have hLower := hReady.lower
  have hOrder := hReady.order
  have hUpper := hReady.upper
  have hSize : region1LimitVpn = region1BaseVpn + region1Vpns := rfl
  generalize pageNumber (upToPage addr) = page at hAllowed ⊢
  generalize hCurr : (m.ctx m.active).currBrkPage = curr at *
  split_ifs with hMore
  · rw [allocPages_eq, pageRange_sub]
    have hAttempt : Mapping.Attempt region1Vpns .readWrite (curr - region1BaseVpn) (page - region1BaseVpn) m.userMapping _ :=
      Mapping.attempt hWf (sub_le_sub_right hMore.le region1BaseVpn) .readWrite
    generalize Mapping.allocAll region1Vpns m.userMapping (curr - region1BaseVpn) .readWrite
      (pageRange (curr - region1BaseVpn) (page - region1BaseVpn)) = result at hAttempt ⊢
    cases hAttempt with
    | done hIn hFilled => exact .grown (hCurr ▸ hMore) (by omega) (hCurr ▸ hFilled)
    | @full y c hLow hHigh hIn hCount hRestored =>
        obtain ⟨last, rfl⟩ : ∃ last, c = last - region1BaseVpn := ⟨c + region1BaseVpn, by omega⟩
        have hFrames : m.frames.freeCount = (last - (m.ctx m.active).currBrkPage).toNat := by
          have hSame : m.userMapping.frames = m.frames := rfl
          rw [← hSame, hCount, hCurr]
          omega
        exact .full (by omega) (by omega) (by omega) hFrames (hCurr ▸ hRestored)
    | @lost y c pfn hLow hHigh hIn hOut hCount hFree hRestored =>
        obtain rfl : c = region1LimitVpn - region1BaseVpn := by omega
        have hFrames : (region1LimitVpn - (m.ctx m.active).currBrkPage).toNat < m.frames.freeCount := by
          have hSame : m.userMapping.frames = m.frames := rfl
          rw [hSame] at hCount
          rw [hCurr]
          omega
        exact .lost (by omega) hFrames hFree (hCurr ▸ hRestored)
  · rw [undoAllocation_eq]
    have hCleared : Mapping.Cleared (page - region1BaseVpn) (curr - region1BaseVpn) m.userMapping
        (Mapping.undo region1Vpns m.userMapping (page - region1BaseVpn) (curr - region1BaseVpn)) :=
      Mapping.cleared_undo hWf (by omega) (by omega) (by omega)
    exact .shrunk (by omega) (by omega) (hCurr ▸ hCleared)

omit [Hardware] in
@[simp] theorem region1Pt_setCurrBrkPage (m : Memory) (page : Int) : (setCurrBrkPage m page).region1Pt = m.region1Pt := by
  simp [setCurrBrkPage, Memory.region1Pt]

omit [Hardware] in
theorem ctx_setCurrBrkPage (m : Memory) (page : Int) :
    (setCurrBrkPage m page).ctx m.active = { m.ctx m.active with currBrkPage := page } := by
  simp [setCurrBrkPage]

omit [Hardware] in
theorem ctx_withUser (m : Memory) (y : Mapping) :
    (m.withUser y).ctx m.active = { m.ctx m.active with region1Pt := y.table } := by
  simp [Memory.withUser, Memory.setRegion1Pt, Memory.setFrames]

omit [Hardware] in
/-- The context after the break was moved. -/
theorem ctx_moved (m : Memory) (y : Mapping) (page : Int) :
    (setCurrBrkPage (m.withUser y) page).ctx m.active =
      { m.ctx m.active with region1Pt := y.table, currBrkPage := page } := by
  have hMoved := ctx_setCurrBrkPage (m.withUser y) page
  rw [Memory.withUser_active, ctx_withUser] at hMoved
  exact hMoved

/-- A restored table has the old heap. -/
theorem ready_restored {lost : Set Nat} {last : Int} {y : Mapping} (hReady : (m.ctx m.active).Ready)
    (hRestored : Mapping.Restored lost ((m.ctx m.active).currBrkPage - region1BaseVpn) (last - region1BaseVpn)
      m.userMapping y) : ((m.withUser y).ctx m.active).Ready := by
  rw [ctx_withUser]
  refine { hReady with heap := fun vpn hLow hHigh => ?_ }
  have hOld := hReady.heap vpn hLow hHigh
  dsimp only at hHigh ⊢
  rw [hRestored.other _ (by omega)]
  exact hOld

/-- Every outcome leaves a heap that is mapped up to the break. -/
theorem Brk.ready {page : Int} {result : Memory × Word} (h : Brk m page result)
    (hReady : (m.ctx m.active).Ready) : (result.1.ctx m.active).Ready := by
  have hOrder := hReady.order
  have hUpper := hReady.upper
  cases h with
  | @grown y hMore hLimit hFilled =>
      rw [ctx_moved]
      refine { hReady with order := hOrder.trans hMore.le, upper := hLimit, heap := fun vpn hLow hHigh => ?_ }
      dsimp only at hLow hHigh ⊢
      by_cases hOld : vpn < (m.ctx m.active).currBrkPage
      · rw [hFilled.other _ (by omega)]
        exact hReady.heap vpn hLow hOld
      · exact hFilled.entry _ (by omega) (by omega)
  | @shrunk y hLow hLess hCleared =>
      rw [ctx_moved]
      refine { hReady with order := hLow, upper := hLess.trans hUpper, heap := fun vpn hFirst hHigh => ?_ }
      dsimp only at hFirst hHigh ⊢
      rw [hCleared.other _ (by omega)]
      exact hReady.heap vpn hFirst (by omega)
  | full hFirst hLast hLimit hCount hRestored => exact ready_restored hReady hRestored
  | lost hLast hCount hFree hRestored => exact ready_restored hReady hRestored

theorem ready_kernelBrkImpl (hWf : m.frames.Wf) (hReady : (m.ctx m.active).Ready) (addr sp : Word) :
    ((kernelBrkImpl m addr sp).1.ctx m.active).Ready := by
  by_cases hAllowed : BrkRejected m addr sp
  · have hSame : kernelBrkImpl m addr sp = (m, errorCode) := if_pos hAllowed
    rw [hSame]
    exact hReady
  · exact (brk_cases hWf hReady hAllowed).ready hReady

/-- Nothing that counts has changed. Entries that are not valid have no meaning. -/
structure BrkRefused (m m' : Memory) : Prop where
  table : mappings m'.region1Pt = mappings m.region1Pt
  bound : (m'.ctx m.active).currBrkPage = (m.ctx m.active).currBrkPage
  inUse : m'.frames.inUse = m.frames.inUse

/-- The break was moved to `page`, and exactly the pages in between have changed. -/
structure BrkMoved (m m' : Memory) (page : Int) : Prop where
  bound : (m'.ctx m.active).currBrkPage = page
  heap : ∀ vpn, (m.ctx m.active).origBrkPage ≤ vpn → vpn < page →
    (m'.region1Pt (vpn - region1BaseVpn)).valid = true ∧
      (m'.region1Pt (vpn - region1BaseVpn)).prot = .readWrite
  released : ∀ vpn, page ≤ vpn → vpn < (m.ctx m.active).currBrkPage →
    (m'.region1Pt (vpn - region1BaseVpn)).valid = false
  other : ∀ vpn, ¬((m.ctx m.active).currBrkPage ≤ vpn ∧ vpn < page) →
    ¬(page ≤ vpn ∧ vpn < (m.ctx m.active).currBrkPage) →
    mappings m'.region1Pt (vpn - region1BaseVpn) = mappings m.region1Pt (vpn - region1BaseVpn)
  inUse : (m'.frames.inUse.ncard : Int) = m.frames.inUse.ncard + (page - (m.ctx m.active).currBrkPage)
  opened : (opened m.region1Pt m'.region1Pt).ncard = (page - (m.ctx m.active).currBrkPage).toNat
  closed : (Yalnix.opened m'.region1Pt m.region1Pt).ncard = ((m.ctx m.active).currBrkPage - page).toNat

/-- The call is exact, or it is an error without effect. -/
def BrkExact (m : Memory) (addr : Word) (result : Memory × Word) : Prop :=
  result.2 = errorCode ∧ BrkRefused m result.1 ∨
    result.2 = 0 ∧ BrkMoved m result.1 (pageNumber (upToPage addr))

/-- Every page that the growth tries to map is a page of region 1 that is not mapped. -/
def RoomAtBreak (m : Memory) (page : Int) : Prop :=
  ∀ vpn, (m.ctx m.active).currBrkPage ≤ vpn → vpn < page →
    vpn - (m.ctx m.active).currBrkPage < m.frames.freeCount →
    vpn < region1LimitVpn ∧ (m.region1Pt (vpn - region1BaseVpn)).valid = false

/-- The pages between two positions of the break have frames of their own. -/
theorem Brk.moved_shrunk {page : Int} {y : Mapping} (hReady : (m.ctx m.active).Ready)
    (hOwned : Mapping.Owned region1Vpns m.userMapping) (hLow : (m.ctx m.active).origBrkPage ≤ page)
    (hLess : page ≤ (m.ctx m.active).currBrkPage)
    (hCleared : Mapping.Cleared (page - region1BaseVpn) ((m.ctx m.active).currBrkPage - region1BaseVpn)
      m.userMapping y) : BrkMoved m (setCurrBrkPage (m.withUser y) page) page := by
  have hLower := hReady.lower
  have hUpper := hReady.upper
  have hSize : region1LimitVpn = region1BaseVpn + region1Vpns := rfl
  have hMoved : ((setCurrBrkPage (m.withUser y) page).ctx m.active).Ready := (Brk.shrunk hLow hLess hCleared).ready hReady
  have hValid (i : Int) (hFirst : page - region1BaseVpn ≤ i)
      (hLast : i < (m.ctx m.active).currBrkPage - region1BaseVpn) : (m.region1Pt i).valid = true := by
    have hPage := (hReady.heap (i + region1BaseVpn) (by omega) (by omega)).1
    rwa [add_sub_cancel_right] at hPage
  have hTable : (setCurrBrkPage (m.withUser y) page).region1Pt = y.table := by
    rw [region1Pt_setCurrBrkPage]
    exact congrArg Mapping.table (m.userMapping_withUser y)
  have hMapped := hMoved.heap
  rw [ctx_moved] at hMapped
  refine ⟨?_, ?_, fun vpn hFirst hLast => ?_, fun vpn hUp hDown => ?_, ?_, ?_, ?_⟩
  · rw [ctx_moved]
  · rw [hTable]
    exact hMapped
  · rw [hTable, hCleared.entry _ (by omega) (by omega)]
  · rw [hTable]
    exact mappings_congr (hCleared.other _ (by omega))
  · have hCount := hCleared.ncard hValid
      (fun i hFirst hLast => hOwned.marked i (by omega) (by omega) (hValid i hFirst hLast))
      (fun i j hFirst hBefore hLast hSame => hBefore.ne (hOwned.apart i j (by omega) (by omega) (by omega)
        (by omega) (hValid i hFirst (by omega)) (hValid j (by omega) hLast) hSame))
    show (y.frames.inUse.ncard : Int) = m.frames.inUse.ncard + _
    have hFrames : m.userMapping.frames = m.frames := rfl
    rw [hFrames] at hCount
    omega
  · rw [hTable, show m.region1Pt = m.userMapping.table from rfl, hCleared.opened_eq, Set.ncard_empty]
    omega
  · rw [hTable, show m.region1Pt = m.userMapping.table from rfl, hCleared.ncard_closed hValid]
    omega

/-- A break that was moved up is exact if the new pages were not mapped before. -/
theorem Brk.moved_grown {page : Int} {y : Mapping} (hReady : (m.ctx m.active).Ready)
    (hMore : (m.ctx m.active).currBrkPage < page) (hLimit : page ≤ region1LimitVpn)
    (hFilled : Mapping.Filled .readWrite ((m.ctx m.active).currBrkPage - region1BaseVpn) (page - region1BaseVpn)
      m.userMapping y) : BrkMoved m (setCurrBrkPage (m.withUser y) page) page ↔
      ∀ i, (m.ctx m.active).currBrkPage - region1BaseVpn ≤ i → i < page - region1BaseVpn →
        (m.region1Pt i).valid = false := by
  have hMoved : ((setCurrBrkPage (m.withUser y) page).ctx m.active).Ready := (Brk.grown hMore hLimit hFilled).ready hReady
  have hTable : (setCurrBrkPage (m.withUser y) page).region1Pt = y.table := by
    rw [region1Pt_setCurrBrkPage]
    exact congrArg Mapping.table (m.userMapping_withUser y)
  have hOld : m.region1Pt = m.userMapping.table := rfl
  have hSame : page - region1BaseVpn - ((m.ctx m.active).currBrkPage - region1BaseVpn) =
      page - (m.ctx m.active).currBrkPage := by omega
  have hOpened := hFilled.ncard_opened_iff
  rw [hSame] at hOpened
  constructor
  · intro hDone
    have hCount := hDone.opened
    rw [hTable] at hCount
    exact hOpened.mp hCount
  · intro hInvalid
    have hMapped := hMoved.heap
    rw [ctx_moved] at hMapped
    refine ⟨?_, ?_, fun vpn hFirst hLast => by omega, fun vpn hUp hDown => ?_, ?_, ?_, ?_⟩
    · rw [ctx_moved]
    · rw [hTable]
      exact hMapped
    · rw [hTable]
      exact mappings_congr (hFilled.other _ (by omega))
    · have hCount := hFilled.ncard
      show (y.frames.inUse.ncard : Int) = m.frames.inUse.ncard + _
      have hFrames : m.userMapping.frames = m.frames := rfl
      rw [hFrames] at hCount
      omega
    · rw [hTable]
      exact hOpened.mpr hInvalid
    · rw [hTable, hOld, hFilled.closed, Set.ncard_empty]
      omega

/-- `KernelBrk_Impl` is exact or without effect exactly when it refuses the address
at once, or tries to map only pages of region 1 that are not mapped. -/
theorem brk_exact_iff (hWf : m.frames.Wf) (hReady : (m.ctx m.active).Ready)
    (hOwned : Mapping.Owned region1Vpns m.userMapping) (addr sp : Word) :
    BrkExact m addr (kernelBrkImpl m addr sp) ↔
      BrkRejected m addr sp ∨ RoomAtBreak m (pageNumber (upToPage addr)) := by
  by_cases hAllowed : BrkRejected m addr sp
  · have hSame : kernelBrkImpl m addr sp = (m, errorCode) := if_pos hAllowed
    rw [hSame]
    exact iff_of_true (Or.inl ⟨rfl, rfl, rfl, rfl⟩) (Or.inl hAllowed)
  · rw [or_iff_right hAllowed]
    have hCode : (0 : Word) ≠ errorCode := by decide
    have hUpper := hReady.upper
    have hBrk := brk_cases hWf hReady hAllowed
    generalize kernelBrkImpl m addr sp = result at hBrk ⊢
    unfold BrkExact RoomAtBreak
    generalize pageNumber (upToPage addr) = page at hBrk ⊢
    cases hBrk with
    | @shrunk y hLow hLess hCleared =>
        exact iff_of_true (Or.inr ⟨rfl, Brk.moved_shrunk hReady hOwned hLow hLess hCleared⟩)
          fun vpn hFirst hLast => by omega
    | @grown y hMore hLimit hFilled =>
        have hFrames : page - (m.ctx m.active).currBrkPage ≤ m.frames.freeCount := by
          have hCount := hFilled.count
          have hSame : m.userMapping.frames = m.frames := rfl
          rw [hSame] at hCount
          omega
        simp only [hCode, false_and, false_or, true_and]
        rw [Brk.moved_grown hReady hMore hLimit hFilled]
        constructor
        · intro hInvalid vpn hFirst hLast hFew
          exact ⟨by omega, hInvalid _ (by omega) (by omega)⟩
        · intro hRoom i hFirst hLast
          have hPage := (hRoom (i + region1BaseVpn) (by omega) (by omega) (by omega)).2
          rwa [add_sub_cancel_right] at hPage
    | @full y last hFirst hLast hLimit hCount hRestored =>
        have hTable : (m.withUser y).region1Pt = y.table := congrArg Mapping.table (m.userMapping_withUser y)
        simp only [hCode.symm, false_and, or_false, true_and]
        constructor
        · intro hSame vpn hLow hHigh hFew
          refine ⟨by omega, ?_⟩
          have hNone := congrFun hSame.table (vpn - region1BaseVpn)
          rw [hTable, mappings_invalid (hRestored.entry _ (by omega) (by omega))] at hNone
          by_contra hValid
          simp [mappings, hValid] at hNone
        · intro hRoom
          refine ⟨?_, ?_, ?_⟩
          · rw [hTable]
            refine hRestored.mappings fun i hLow hHigh => ?_
            have hPage := (hRoom (i + region1BaseVpn) (by omega) (by omega) (by omega)).2
            rwa [add_sub_cancel_right] at hPage
          · rw [ctx_withUser]
          · exact hRestored.inUse.trans (Set.union_empty _)
    | @lost y pfn hLast hCount hFree hRestored =>
        simp only [hCode.symm, false_and, or_false, true_and]
        constructor
        · intro hSame
          have hUsed : pfn ∈ y.frames.inUse := by
            rw [hRestored.inUse]
            exact Or.inr rfl
          have hInUse : y.frames.inUse = m.frames.inUse := hSame.inUse
          rw [hInUse] at hUsed
          exact absurd hUsed hFree
        · intro hRoom
          exact absurd (hRoom region1LimitVpn hUpper hLast (by omega)).1 (lt_irrefl _)

end UserMemory
end Yalnix
