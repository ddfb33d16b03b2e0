import Yalnix.Memory.Mapping
import Yalnix.Memory.Pages
import Yalnix.Sample

/-! Stack growth. `expand_stack` maps the pages from the faulting one up to the
first mapped one, and reports success whatever the allocations return. -/
namespace Yalnix

open Hardware

namespace Frames

theorem freeCount_congr [Hardware] {f g : Frames} (hSize : g.numFrames = f.numFrames)
    (hSame : g.inUse = f.inUse) : g.freeCount = f.freeCount := by
  rw [freeCount, freeCount, range_of_numFrames hSize, hSame]

end Frames

namespace Mapping

/-- The search for a free frame may move on without marking one. -/
theorem Filled.of_frames [Hardware] {prot : Prot} {a b : Int} {x y : Mapping} {frames : Frames}
    (h : Filled prot a b x y) (hWf : frames.Wf) (hSize : frames.numFrames = y.frames.numFrames)
    (hSame : frames.inUse = y.frames.inUse) : Filled prot a b x { y with frames := frames } where
  other := h.other
  entry := h.entry
  fresh := h.fresh
  apart := h.apart
  inUse := hSame.trans h.inUse
  wf := hWf
  numFrames := hSize.trans h.numFrames
  count := by
    rw [Frames.freeCount_congr hSize hSame]
    exact h.count

end Mapping

namespace UserMemory

section

variable [Hardware] {m : Memory}

/-- Without a free frame the loop goes on and maps nothing. -/
theorem growStack_full (hWf : m.frames.Wf) (hFull : m.frames.freeCount = 0) (pages : List Int) :
    ∃ frames : Frames, growStack m pages = m.setFrames frames ∧ frames.Wf ∧
      frames.numFrames = m.frames.numFrames ∧ frames.inUse = m.frames.inUse := by
  induction pages generalizing m with
  | nil => exact ⟨m.frames, rfl, hWf, rfl, rfl⟩
  | cons vpn pages ih =>
      unfold growStack
      split_ifs
      · exact ⟨m.frames, rfl, hWf, rfl, rfl⟩
      · have hAll := Frames.freeCount_eq_zero.mp hFull
        have hAlloc := Mapping.alloc_cases (x := m.userMapping) hWf region1Vpns (vpn - region1BaseVpn) .readWrite
        rw [allocPage_eq]
        generalize Mapping.alloc region1Vpns m.userMapping (vpn - region1BaseVpn) .readWrite = result at hAlloc ⊢
        cases hAlloc with
        | mapped hIn hNext hSize hFree hMarked => exact absurd (hAll hFree.1) hFree.2
        | lost hOut hNext hSize hFree hMarked => exact absurd (hAll hFree.1) hFree.2
        | @full frames hNone hNext hSize hSame =>
            dsimp only
            rw [m.withUser_frames frames]
            have hStill : (m.setFrames frames).frames.freeCount = 0 :=
              (Frames.freeCount_congr hSize hSame).trans hFull
            obtain ⟨last, hEq, hLast, hLastSize, hLastSame⟩ := ih (m := m.setFrames frames) hNext hStill
            exact ⟨last, hEq, hLast, hLastSize.trans hSize, hLastSame.trans hSame⟩

/-- How far the loop of `expand_stack` gets: to the end of the region, to a
mapped page, or until no frame is left. -/
structure Grown (m : Memory) (page top : Int) (x : Mapping) : Prop where
  low : page ≤ top
  high : top ≤ region1LimitVpn
  filled : Mapping.Filled .readWrite (page - region1BaseVpn) (top - region1BaseVpn) m.userMapping x
  unmapped : ∀ vpn, page ≤ vpn → vpn < top → (m.region1Pt (vpn - region1BaseVpn)).valid = false
  stop : top = region1LimitVpn ∨ (m.region1Pt (top - region1BaseVpn)).valid = true ∨
    m.frames.freeCount = (top - page).toNat

/-- The loop continued at `c`. -/
theorem growStack_from (n : Nat) {page c : Int} {x : Mapping} (hn : (region1LimitVpn - c).toNat = n)
    (hBase : region1BaseVpn ≤ page) (hLow : page ≤ c) (hHigh : c ≤ region1LimitVpn)
    (hFilled : Mapping.Filled .readWrite (page - region1BaseVpn) (c - region1BaseVpn) m.userMapping x)
    (hUnmapped : ∀ vpn, page ≤ vpn → vpn < c → (m.region1Pt (vpn - region1BaseVpn)).valid = false) :
    ∃ top y, growStack (m.withUser x) (pageRange c region1LimitVpn) = m.withUser y ∧ Grown m page top y := by
  have hLimit : region1LimitVpn = region1BaseVpn + region1Vpns := rfl
  induction n generalizing c x with
  | zero =>
      have hNone : pageRange c region1LimitVpn = [] := by simp [pageRange, hn]
      rw [hNone]
      exact ⟨c, x, rfl, hLow, hHigh, hFilled, hUnmapped, Or.inl (by omega)⟩
  | succ n ih =>
      have hHere : (m.withUser x).region1Pt (c - region1BaseVpn) = m.region1Pt (c - region1BaseVpn) := by
        have hTable : (m.withUser x).region1Pt = x.table := congrArg Mapping.table (m.userMapping_withUser x)
        rw [hTable]
        exact hFilled.other _ (by omega)
      rw [pageRange_cons (by omega), growStack, hHere]
      by_cases hValid : (m.region1Pt (c - region1BaseVpn)).valid = true
      · rw [if_pos hValid]
        exact ⟨c, x, rfl, hLow, hHigh, hFilled, hUnmapped, Or.inr (Or.inl hValid)⟩
      rw [if_neg hValid, allocPage_eq, Memory.userMapping_withUser]
      have hCount := hFilled.count
      have hAlloc := Mapping.alloc_cases hFilled.wf region1Vpns (c - region1BaseVpn) .readWrite
      generalize Mapping.alloc region1Vpns x (c - region1BaseVpn) .readWrite = result at hAlloc ⊢
      cases hAlloc with
      | lost hOut hNext hSize hFree hMarked => exact absurd ⟨by omega, by omega⟩ hOut
      | @full frames hNone hNext hSize hSame =>
          have hStill : ((m.withUser { x with frames := frames }).frames).freeCount = 0 :=
            (Frames.freeCount_congr hSize hSame).trans hNone
          obtain ⟨last, hEq, hLast, hLastSize, hLastSame⟩ :=
            growStack_full (m := m.withUser { x with frames := frames }) hNext hStill
              (pageRange (c + 1) region1LimitVpn)
          refine ⟨c, { x with frames := last }, ?_, hLow, hHigh,
            hFilled.of_frames hLast (hLastSize.trans hSize) (hLastSame.trans hSame), hUnmapped, ?_⟩
          · dsimp only
            rw [Memory.withUser_withUser, hEq]
            rfl
          · have hAll : m.frames.freeCount = m.userMapping.frames.freeCount := rfl
            exact Or.inr (Or.inr (by omega))
      | mapped hIn hNext hSize hFree hMarked =>
          have hInvalid : (m.region1Pt (c - region1BaseVpn)).valid = false := by simpa using hValid
          have hMore := hFilled.snoc (z := ⟨_, createPte x.table (c - region1BaseVpn) _ .readWrite⟩)
            (by omega) rfl hNext hSize hFree hMarked
          have hIndex : c - region1BaseVpn + 1 = c + 1 - region1BaseVpn := by omega
          rw [hIndex] at hMore
          dsimp only
          rw [Memory.withUser_withUser]
          refine ih (by omega) (by omega) (by omega) hMore fun vpn hFirst hLast => ?_
          by_cases hc : vpn = c
          · rw [hc, hInvalid]
          · exact hUnmapped vpn hFirst (by omega)

/-- The page of an address of region 1 is a page of region 1. -/
theorem page_in_region1 {addr : Word} (hLow : vmem1Base ≤ addr.toInt) (hHigh : addr.toInt < vmem1Limit) :
    region1BaseVpn ≤ pageNumber (downToPage addr) ∧ pageNumber (downToPage addr) < region1LimitVpn := by
  have hSize : (0 : Int) < pageSize := Int.natCast_pos.mpr pageSize_pos
  have hPages : 0 < region0Vpns + region1Vpns := by
    by_contra hNone
    have hBase : vmem1Base = 0 := by
      unfold vmem1Base region1BaseVpn
      rw [show region0Vpns = 0 by omega]
      simp
    have hLimit : vmem1Limit = 0 := by
      unfold vmem1Limit region1LimitVpn region1BaseVpn
      rw [show region0Vpns = 0 by omega, show region1Vpns = 0 by omega]
      simp
    omega
  rw [pageNumber_downToPage (pageShift_lt hPages)]
  exact ⟨(Int.le_ediv_iff_mul_le hSize).mpr hLow, (Int.ediv_lt_iff_lt_mul hSize).mpr hHigh⟩

/-- The page was missing, and with it every page up to the first mapped one is
mapped now. -/
structure Progress (m m' : Memory) (page : Int) : Prop where
  missing : (m.region1Pt (page - region1BaseVpn)).valid = false
  mapped : ∀ vpn, page ≤ vpn → vpn < region1LimitVpn →
    (∀ other, page ≤ other → other ≤ vpn → (m.region1Pt (other - region1BaseVpn)).valid = false) →
    (m'.region1Pt (vpn - region1BaseVpn)).valid = true ∧ (m'.region1Pt (vpn - region1BaseVpn)).prot = .readWrite
  changed : m'.region1Pt (page - region1BaseVpn) ≠ m.region1Pt (page - region1BaseVpn)

/-- A fault is answered by progress, or refused without any effect. -/
def Answered (m : Memory) (addr : Word) : Prop :=
  ((expandStack m addr).2 = true → Progress m (expandStack m addr).1 (pageNumber (downToPage addr))) ∧
  ((expandStack m addr).2 = false → (expandStack m addr).1.region1Pt = m.region1Pt ∧
    (expandStack m addr).1.frames.inUse = m.frames.inUse)

/-- The address is outside region 1, or not above the page at the break. -/
def NotStack (m : Memory) (addr : Word) : Prop :=
  addr.toInt < vmem1Base ∨ vmem1Limit ≤ addr.toInt ∨
    pageNumber (downToPage addr) < (m.ctx m.active).currBrkPage + 1

/-- The page is missing, and there are frames for all missing pages from it up
to the first mapped one or to the end of region 1. -/
def RoomToGrow (m : Memory) (page : Int) : Prop :=
  ∃ top, page < top ∧ top ≤ region1LimitVpn ∧
    (∀ vpn, page ≤ vpn → vpn < top → (m.region1Pt (vpn - region1BaseVpn)).valid = false) ∧
    (top = region1LimitVpn ∨ (m.region1Pt (top - region1BaseVpn)).valid = true) ∧
    (top - page).toNat ≤ m.frames.freeCount

/-- The loop stops where the missing pages end, if the frames last. -/
theorem Grown.top_eq {page top last : Int} {x : Mapping} (h : Grown m page top x) (hEnd : last ≤ region1LimitVpn)
    (hUnmapped : ∀ vpn, page ≤ vpn → vpn < last → (m.region1Pt (vpn - region1BaseVpn)).valid = false)
    (hStop : last = region1LimitVpn ∨ (m.region1Pt (last - region1BaseVpn)).valid = true) (hLow : page < last)
    (hFrames : (last - page).toNat ≤ m.frames.freeCount) : top = last := by
  have hPage := h.low
  have hHigh := h.high
  rcases lt_trichotomy top last with hLess | hSame | hMore
  · rcases h.stop with hLimit | hValid | hCount
    · omega
    · rw [hUnmapped top hPage hLess] at hValid
      cases hValid
    · omega
  · exact hSame
  · rcases hStop with hLimit | hValid
    · omega
    · rw [h.unmapped last hLow.le hMore] at hValid
      cases hValid

/-- Stack growth makes progress exactly when the address is refused, or its page
is missing and there are enough frames. -/
theorem stack_growth_iff (hWf : m.frames.Wf) (addr : Word) :
    Answered m addr ↔ NotStack m addr ∨ RoomToGrow m (pageNumber (downToPage addr)) := by
  unfold Answered NotStack expandStack
  dsimp only
  split_ifs with hAddr hPage
  · simp only [false_implies, true_implies, and_self, true_iff]
    exact Or.inl (hAddr.imp_right Or.inl)
  · simp only [false_implies, true_implies, and_self, true_iff]
    exact Or.inl (Or.inr (Or.inr hPage))
  · simp only [true_implies, false_implies, and_true]
    have hBase : vmem1Base ≤ addr.toInt := by omega
    have hLimit : addr.toInt < vmem1Limit := by omega
    obtain ⟨hLow, hHigh⟩ := page_in_region1 hBase hLimit
    generalize pageNumber (downToPage addr) = page at hPage hLow hHigh ⊢
    have hNot : ¬(addr.toInt < vmem1Base ∨ vmem1Limit ≤ addr.toInt ∨ page < (m.ctx m.active).currBrkPage + 1) := by
      omega
    rw [or_iff_right hNot]
    obtain ⟨top, x, hRun, hGrown⟩ := growStack_from (m := m) _ rfl hLow le_rfl hHigh.le
      (.nil hWf (page - region1BaseVpn)) (fun vpn hFirst hLast => absurd hLast (by omega))
    rw [Memory.withUser_self] at hRun
    have hTable : (m.withUser x).region1Pt = x.table := congrArg Mapping.table (m.userMapping_withUser x)
    rw [hRun]
    constructor
    · intro hProgress
      have hMore : page < top := by
        by_contra hNone
        have hSame : x.table (page - region1BaseVpn) = m.region1Pt (page - region1BaseVpn) :=
          hGrown.filled.other _ (by omega)
        exact hProgress.changed (by rw [hTable, hSame])
      have hCount := hGrown.filled.count
      have hFree : m.userMapping.frames.freeCount = m.frames.freeCount := rfl
      refine ⟨top, hMore, hGrown.high, hGrown.unmapped, ?_, by omega⟩
      rcases hGrown.stop with hLimit | hValid | hNone
      · exact Or.inl hLimit
      · exact Or.inr hValid
      · -- no frame is left for the page at `top`, so it must have been mapped
        by_cases hEnd : top = region1LimitVpn
        · exact Or.inl hEnd
        · by_contra hBoth
          have hInvalid : (m.region1Pt (top - region1BaseVpn)).valid = false := by
            simpa using (not_or.mp hBoth).2
          have hMapped := (hProgress.mapped top hMore.le (lt_of_le_of_ne hGrown.high hEnd) fun vpn hFirst hLast => ?_).1
          · rw [hTable, hGrown.filled.other _ (by omega)] at hMapped
            exact absurd (hInvalid.symm.trans hMapped) (by decide)
          · by_cases hTop : vpn = top
            · rw [hTop, hInvalid]
            · exact hGrown.unmapped vpn hFirst (by omega)
    · rintro ⟨last, hMore, hLimit, hUnmapped, hStop, hFrames⟩
      obtain rfl := hGrown.top_eq hLimit hUnmapped hStop hMore hFrames
      have hMissing := hUnmapped page le_rfl hMore
      refine ⟨hMissing, fun vpn hFirst hLast hRun => ?_, fun hSame => ?_⟩
      · have hBelow : vpn < top := by
          by_contra hAbove
          rcases hStop with hEnd | hValid
          · omega
          · rw [hRun top hMore.le (by omega)] at hValid
            cases hValid
        rw [hTable]
        exact hGrown.filled.entry _ (by omega) (by omega)
      · have hValid := (hGrown.filled.entry (page - region1BaseVpn) le_rfl (by omega)).1
        rw [hTable] at hSame
        rw [hSame, hMissing] at hValid
        cases hValid

end

open Sample in
/-- The first program grows its stack by one page. -/
theorem stack_growth_one : Answered (after turn).mem 256 := by
  refine (stack_growth_iff ⟨by decide +kernel, by decide +kernel⟩ 256).mpr (Or.inr ?_)
  have hPage : pageNumber (downToPage 256) = 16 := by decide +kernel
  rw [hPage]
  refine ⟨17, by decide, by decide, by decide +kernel, Or.inr (by decide +kernel), ?_⟩
  have hFree : (after turn).mem.frames.freeCount ≠ 0 := by
    rw [Ne, Frames.freeCount_eq_zero]
    intro hAll
    have hUsed : (after turn).mem.frames.used 20 := hAll ⟨by decide, by decide +kernel⟩
    exact absurd hUsed (by decide +kernel)
  exact Nat.one_le_iff_ne_zero.mpr hFree

open Sample in
/-- A fault on a page of the stack that is mapped: the handler resumes the process,
and the page is as it was. -/
theorem stack_growth_fails : KernelStart.system.Reachable (after turn) ∧
    ((after turn).mem.region1Pt 5).valid = true ∧ (expandStack (after turn).mem 280).2 = true ∧
    ¬Answered (after turn).mem 280 := by
  refine ⟨reachable_after (by decide +kernel), by decide +kernel, by decide +kernel, fun hAnswered => ?_⟩
  have hMissing := (hAnswered.1 (by decide +kernel)).missing
  exact absurd hMissing (by decide +kernel)

end UserMemory
end Yalnix
