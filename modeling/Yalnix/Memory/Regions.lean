import Yalnix.Memory.Mapping

/-! Tables whose valid entries have marked frames of their own, and what the
functions for whole regions of region 1 do to a table. -/
namespace Yalnix

open Hardware

namespace Mapping

variable [Hardware] {size : Nat} {x y : Mapping} {a b : Int} {prot : Prot}

/-- The valid entries of a table of `size` entries have marked frames of their own. -/
structure Owned (size : Nat) (x : Mapping) : Prop where
  marked : ∀ i : Int, 0 ≤ i → i < size → (x.table i).valid = true → (x.table i).pfn ∈ x.frames.inUse
  apart : ∀ i j : Int, 0 ≤ i → i < size → 0 ≤ j → j < size → (x.table i).valid = true → (x.table j).valid = true →
    (x.table i).pfn = (x.table j).pfn → i = j

theorem Owned.filled (h : Owned size x) (hFilled : Filled prot a b x y) : Owned size y := by
  have hOld (i : Int) (hLow : 0 ≤ i) (hHigh : i < size) (hOut : ¬(a ≤ i ∧ i < b))
      (hValid : (y.table i).valid = true) :
      (x.table i).valid = true ∧ (y.table i).pfn = (x.table i).pfn ∧ (x.table i).pfn ∈ x.frames.inUse := by
    rw [hFilled.other i hOut] at hValid ⊢
    exact ⟨hValid, rfl, h.marked i hLow hHigh hValid⟩
  constructor
  · intro i hLow hHigh hValid
    rw [hFilled.inUse]
    by_cases hIn : a ≤ i ∧ i < b
    · exact Or.inr ⟨i, hIn.1, hIn.2, rfl⟩
    · obtain ⟨-, hPfn, hMarked⟩ := hOld i hLow hHigh hIn hValid
      rw [hPfn]
      exact Or.inl hMarked
  · intro i j hiLow hiHigh hjLow hjHigh hiValid hjValid hSame
    by_cases hi : a ≤ i ∧ i < b
    · by_cases hj : a ≤ j ∧ j < b
      · rcases lt_trichotomy i j with hLess | hEq | hMore
        · exact absurd hSame (hFilled.apart i j hi.1 hLess hj.2)
        · exact hEq
        · exact absurd hSame.symm (hFilled.apart j i hj.1 hMore hi.2)
      · obtain ⟨-, hPfn, hMarked⟩ := hOld j hjLow hjHigh hj hjValid
        have hFree := (hFilled.fresh i hi.1 hi.2).2
        rw [hSame, hPfn] at hFree
        exact absurd hMarked hFree
    · obtain ⟨hiOld, hiPfn, hMarked⟩ := hOld i hiLow hiHigh hi hiValid
      by_cases hj : a ≤ j ∧ j < b
      · have hFree := (hFilled.fresh j hj.1 hj.2).2
        rw [← hSame, hiPfn] at hFree
        exact absurd hMarked hFree
      · obtain ⟨hjOld, hjPfn, -⟩ := hOld j hjLow hjHigh hj hjValid
        rw [hiPfn, hjPfn] at hSame
        exact h.apart i j hiLow hiHigh hjLow hjHigh hiOld hjOld hSame

/-- A table that was cleared completely. -/
theorem Cleared.owned (h : Cleared 0 size x y) : Owned size y := by
  have hNone (i : Int) (hLow : 0 ≤ i) (hHigh : i < size) : ¬(y.table i).valid = true := by
    rw [h.entry i hLow hHigh]
    exact Bool.false_ne_true
  exact ⟨fun i hLow hHigh hValid => absurd hValid (hNone i hLow hHigh),
    fun i _ hLow hHigh _ _ hValid => absurd hValid (hNone i hLow hHigh)⟩

/-- The entries that are valid. -/
def pages (size : Nat) (x : Mapping) : Set Int := {i | 0 ≤ i ∧ i < size ∧ (x.table i).valid = true}

theorem Owned.ncard_heldFrames (h : Owned size x) : (heldFrames x.table 0 size).ncard = (x.pages size).ncard := by
  have hImage : heldFrames x.table 0 size = (fun i => (x.table i).pfn) '' x.pages size := by
    ext pfn
    simp only [heldFrames, pages, Set.mem_ofPred_eq, Set.mem_image]
    constructor
    · rintro ⟨i, hLow, hHigh, hValid, hPfn⟩
      exact ⟨i, ⟨hLow, hHigh, hValid⟩, hPfn⟩
    · rintro ⟨i, ⟨hLow, hHigh, hValid⟩, hPfn⟩
      exact ⟨i, hLow, hHigh, hValid, hPfn⟩
  rw [hImage, Set.InjOn.ncard_image]
  intro i hi j hj hSame
  exact h.apart i j hi.1 hi.2.1 hj.1 hj.2.1 hi.2.2 hj.2.2 hSame

theorem Owned.heldFrames_subset (h : Owned size x) : heldFrames x.table 0 size ⊆ x.frames.inUse := by
  rintro pfn ⟨i, hLow, hHigh, hValid, rfl⟩
  exact h.marked i hLow hHigh hValid

end Mapping

namespace UserMemory

variable [Hardware] {m m' : Memory} {first last : Int} {prot : Prot}

theorem deallocateRegion1_eq (hWf : m.frames.Wf) : ∃ x, deallocateRegion1 m = m.withUser x ∧
    Mapping.Cleared 0 region1Vpns m.userMapping x := by
  refine ⟨_, undoAllocation_eq m region1BaseVpn region1LimitVpn, ?_⟩
  have hFirst : region1BaseVpn - region1BaseVpn = 0 := by omega
  have hLast : region1LimitVpn - region1BaseVpn = region1Vpns := by
    unfold region1LimitVpn
    omega
  rw [hFirst, hLast]
  exact Mapping.cleared_undo hWf le_rfl (Int.natCast_nonneg _) le_rfl

/-- A region that was allocated completely. -/
theorem allocRegion_eq (hWf : m.frames.Wf) (hOrder : first ≤ last) (h : allocRegion m first last prot = (m', true)) :
    region1BaseVpn ≤ first ∧ last ≤ region1LimitVpn ∧ ∃ x, m' = m.withUser x ∧
      Mapping.Filled prot (first - region1BaseVpn) (last - region1BaseVpn) m.userMapping x := by
  unfold allocRegion at h
  split_ifs at h with hRange
  · cases (Prod.mk.inj h).2
  rw [allocPages_eq, pageRange_sub] at h
  have hAttempt : Mapping.Attempt region1Vpns prot _ _ m.userMapping _ :=
    Mapping.attempt hWf (sub_le_sub_right hOrder region1BaseVpn) prot
  generalize Mapping.allocAll region1Vpns m.userMapping (first - region1BaseVpn) prot
    (pageRange (first - region1BaseVpn) (last - region1BaseVpn)) = result at h hAttempt
  have hLimit : region1LimitVpn = region1BaseVpn + region1Vpns := rfl
  cases hAttempt with
  | done hIn hFilled => exact ⟨by omega, by omega, _, (Prod.mk.inj h).1.symm, hFilled⟩
  | full hLow hHigh hIn hCount hRestored => cases (Prod.mk.inj h).2
  | lost hLow hHigh hIn hOut hCount hFree hRestored => cases (Prod.mk.inj h).2

/-- `prot_region` changes the protection of the valid entries of its range. -/
theorem protRegion_eq (hFirst : region1BaseVpn ≤ first) (hLast : last ≤ region1LimitVpn) (hOrder : first ≤ last)
    (prot : Prot) : ∃ pt, protRegion m first last prot = m.setRegion1Pt m.active pt ∧
      ∀ i, pt i = if first - region1BaseVpn ≤ i ∧ i < last - region1BaseVpn ∧ (m.region1Pt i).valid = true then
        { m.region1Pt i with prot := prot } else m.region1Pt i := by
  unfold protRegion
  rw [if_neg (by omega)]
  induction last, hOrder using Int.leInduction with
  | base =>
      refine ⟨m.region1Pt, ?_, fun i => ?_⟩
      · simp [pageRange, Memory.setRegion1Pt, Memory.region1Pt]
      · rw [if_neg (by omega)]
  | succ last hOrder ih =>
      obtain ⟨pt, hEq, hEntry⟩ := ih (by omega)
      have hIn : inRegion1 last := ⟨by unfold region1LimitVpn at hLast; omega, by omega⟩
      have hTable : (m.setRegion1Pt m.active pt).region1Pt = pt := by
        simp [Memory.setRegion1Pt, Memory.region1Pt]
      have hHere : pt (last - region1BaseVpn) = m.region1Pt (last - region1BaseVpn) := by
        rw [hEntry, if_neg (by omega)]
      rw [pageRange_snoc hOrder, List.foldl_append, hEq, List.foldl_cons, List.foldl_nil, changeProt,
        if_neg (not_not.mpr hIn), hTable, hHere]
      by_cases hValid : (m.region1Pt (last - region1BaseVpn)).valid = false
      · rw [if_pos hValid]
        refine ⟨pt, rfl, fun i => ?_⟩
        rw [hEntry i]
        by_cases hi : i = last - region1BaseVpn
        · rw [if_neg (by omega), if_neg (by rw [hi, hValid]; simp)]
        · refine if_congr ?_ rfl rfl
          rw [← and_assoc, ← and_assoc]
          exact and_congr_left fun _ => by omega
      · rw [if_neg hValid]
        refine ⟨Function.update pt (last - region1BaseVpn)
          { m.region1Pt (last - region1BaseVpn) with prot := prot }, ?_, fun i => ?_⟩
        · show (m.setRegion1Pt m.active pt).setRegion1Pt m.active _ = _
          simp only [Memory.setRegion1Pt, Function.update_self, Function.update_idem]
        · by_cases hi : i = last - region1BaseVpn
          · rw [hi, Function.update_self, if_pos ⟨by omega, by omega, by simpa using hValid⟩]
          · rw [Function.update_of_ne hi, hEntry i]
            refine if_congr ?_ rfl rfl
            rw [← and_assoc, ← and_assoc]
            exact and_congr_left fun _ => by omega

end UserMemory
end Yalnix
