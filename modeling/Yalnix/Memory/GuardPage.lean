import Yalnix.Memory.Contexts
import Yalnix.Memory.StackGrowth

/-! The guard page. Between the heap and the stack of a process lies the page at the
break; for each call the exact condition under which it stays unmapped. -/
namespace Yalnix

open Hardware

variable [Hardware]

/-- The page at the break is not mapped. Below it are data and heap, and what is
mapped above it is the stack, which ends at the end of region 1. -/
structure MemCtx.Guarded (ctx : MemCtx) : Prop where
  guard : (ctx.region1Pt (ctx.currBrkPage - region1BaseVpn)).valid = false
  program : ∀ vpn, ctx.dataStartPage ≤ vpn → vpn < ctx.currBrkPage →
    (ctx.region1Pt (vpn - region1BaseVpn)).valid = true ∧
      (ctx.region1Pt (vpn - region1BaseVpn)).prot = .readWrite
  stack : ∃ top, ctx.currBrkPage < top ∧ top < region1LimitVpn ∧ ∀ vpn, ctx.currBrkPage < vpn →
    vpn < region1LimitVpn → ((ctx.region1Pt (vpn - region1BaseVpn)).valid = true ↔ top ≤ vpn)

/-- An address of region 1. -/
def InsideRegion1 (addr : Word) : Prop := vmem1Base ≤ addr.toInt ∧ addr.toInt < vmem1Limit

namespace UserMemory

variable {m m' n : Memory} {addr sp : Word}

/-- The call does not move the break, or it moves it to a page that is not mapped. -/
def BreakClear (m : Memory) (addr sp : Word) : Prop :=
  BrkRejected m addr sp ∨ pageNumber (upToPage addr) ≤ (m.ctx m.active).currBrkPage ∨
    m.frames.freeCount < (pageNumber (upToPage addr) - (m.ctx m.active).currBrkPage).toNat ∨
    (m.region1Pt (pageNumber (upToPage addr) - region1BaseVpn)).valid = false

/-- The fault maps no page, or all the pages that are missing up to the stack. -/
def StackClosed (m : Memory) (addr : Word) : Prop :=
  NotStack m addr ∨ (m.region1Pt (pageNumber (downToPage addr) - region1BaseVpn)).valid = true ∨
    m.frames.freeCount = 0 ∨ RoomToGrow m (pageNumber (downToPage addr))

/-- A growth that was undone may have taken pages of the stack away. -/
theorem guarded_restored {lost : Set Nat} {last : Int} {y : Mapping} (h : (m.ctx m.active).Guarded)
    (hLast : last < region1LimitVpn)
    (hRestored : Mapping.Restored lost ((m.ctx m.active).currBrkPage - region1BaseVpn) (last - region1BaseVpn)
      m.userMapping y) : ((m.withUser y).ctx m.active).Guarded := by
  obtain ⟨top, hAbove, hEnd, hStack⟩ := h.stack
  rw [ctx_withUser]
  constructor
  · dsimp only
    by_cases hTried : (m.ctx m.active).currBrkPage < last
    · exact hRestored.entry _ le_rfl (by omega)
    · rw [hRestored.other _ (by omega)]
      exact h.guard
  · intro vpn hLow hHigh
    dsimp only at hHigh ⊢
    rw [hRestored.other _ (by omega)]
    exact h.program vpn hLow hHigh
  · refine ⟨max top last, lt_max_of_lt_left hAbove, max_lt hEnd hLast, fun vpn hLow hHigh => ?_⟩
    dsimp only at hLow ⊢
    by_cases hTried : vpn < last
    · rw [hRestored.entry _ (by omega) (by omega)]
      exact iff_of_false Bool.false_ne_true (by omega)
    · rw [hRestored.other _ (by omega)]
      have hOld : (m.userMapping.table (vpn - region1BaseVpn)).valid = true ↔ top ≤ vpn := hStack vpn hLow hHigh
      rw [hOld]
      omega

/-- Every outcome of an allowed `Brk` keeps the guard page, if the break does not
meet a page that is mapped. -/
theorem Brk.guarded {page : Int} {result : Memory × Word} (hBrk : Brk m page result) (h : (m.ctx m.active).Guarded)
    (hPage : page < region1LimitVpn) (hClear : page ≤ (m.ctx m.active).currBrkPage ∨
      m.frames.freeCount < (page - (m.ctx m.active).currBrkPage).toNat ∨
      (m.region1Pt (page - region1BaseVpn)).valid = false) : (result.1.ctx m.active).Guarded := by
  obtain ⟨top, hAbove, hEnd, hStack⟩ := h.stack
  cases hBrk with
  | @grown y hMore hLimit hFilled =>
      have hCount := hFilled.count
      have hFree : m.userMapping.frames.freeCount = m.frames.freeCount := rfl
      have hInvalid : (m.region1Pt (page - region1BaseVpn)).valid = false := by
        rcases hClear with hLess | hFew | hInvalid
        · omega
        · omega
        · exact hInvalid
      have hBelow : page < top := by
        by_contra hNot
        have hValid := (hStack page hMore hPage).mpr (not_lt.mp hNot)
        exact absurd (hInvalid.symm.trans hValid) Bool.false_ne_true
      rw [ctx_moved]
      constructor
      · dsimp only
        rw [hFilled.other _ (by omega)]
        exact hInvalid
      · intro vpn hLow hHigh
        dsimp only at hLow hHigh ⊢
        by_cases hOld : vpn < (m.ctx m.active).currBrkPage
        · rw [hFilled.other _ (by omega)]
          exact h.program vpn hLow hOld
        · exact hFilled.entry _ (by omega) (by omega)
      · refine ⟨top, hBelow, hEnd, fun vpn hLow hHigh => ?_⟩
        dsimp only at hLow ⊢
        rw [hFilled.other _ (by omega)]
        exact hStack vpn (hMore.trans hLow) hHigh
  | @shrunk y hLow hLess hCleared =>
      rw [ctx_moved]
      constructor
      · dsimp only
        by_cases hSame : page = (m.ctx m.active).currBrkPage
        · rw [hCleared.other _ (by omega), hSame]
          exact h.guard
        · rw [hCleared.entry _ le_rfl (by omega)]
      · intro vpn hFirst hHigh
        dsimp only at hFirst hHigh ⊢
        rw [hCleared.other _ (by omega)]
        exact h.program vpn hFirst (by omega)
      · refine ⟨top, by dsimp only; omega, hEnd, fun vpn hFirst hHigh => ?_⟩
        dsimp only at hFirst ⊢
        rcases lt_trichotomy vpn (m.ctx m.active).currBrkPage with hHeap | rfl | hOver
        · rw [hCleared.entry _ (by omega) (by omega)]
          exact iff_of_false Bool.false_ne_true (by omega)
        · rw [hCleared.other _ (by omega)]
          refine iff_of_false (fun hValid => ?_) (by omega)
          exact absurd (h.guard.symm.trans hValid) Bool.false_ne_true
        · rw [hCleared.other _ (by omega)]
          exact hStack vpn hOver hHigh
  | full hFirst hLast hLimit hCount hRestored => exact guarded_restored h (hLast.trans hPage) hRestored
  | lost hLast hCount hFree hRestored => exact absurd hPage (not_lt.mpr hLast.le)

theorem guarded_kernelBrkImpl (hWf : m.frames.Wf) (hReady : (m.ctx m.active).Ready) (h : (m.ctx m.active).Guarded)
    (hSp : InsideRegion1 sp) (hClear : BreakClear m addr sp) :
    ((kernelBrkImpl m addr sp).1.ctx m.active).Guarded := by
  by_cases hAllowed : BrkRejected m addr sp
  · have hSame : kernelBrkImpl m addr sp = (m, errorCode) := if_pos hAllowed
    rw [hSame]
    exact h
  · have hPage : pageNumber (upToPage addr) < region1LimitVpn := by
      have hStack := (page_in_region1 hSp.1 hSp.2).2
      unfold BrkRejected at hAllowed
      omega
    exact (brk_cases hWf hReady hAllowed).guarded h hPage (hClear.resolve_left hAllowed)

/-- A stack that grows to the next mapped page, or not at all, stays in one piece. -/
theorem guarded_expandStack (hWf : m.frames.Wf) (h : (m.ctx m.active).Guarded) (hClosed : StackClosed m addr) :
    ((expandStack m addr).1.ctx m.active).Guarded := by
  unfold StackClosed NotStack at hClosed
  unfold expandStack
  dsimp only
  split_ifs with hAddr hPage
  · exact h
  · exact h
  rw [not_or, not_lt, not_le] at hAddr
  obtain ⟨hLow, hHigh⟩ := page_in_region1 hAddr.1 hAddr.2
  generalize pageNumber (downToPage addr) = page at hPage hLow hHigh hClosed ⊢
  obtain ⟨last, x, hRun, hGrown⟩ := growStack_from (m := m) _ rfl hLow le_rfl hHigh.le
    (.nil hWf (page - region1BaseVpn)) (fun vpn hFirst hLast => absurd hLast (by omega))
  rw [Memory.withUser_self] at hRun
  rw [hRun, ctx_withUser]
  obtain ⟨top, hAbove, hEnd, hStack⟩ := h.stack
  have hFilled := hGrown.filled
  -- the new pages lie directly below the old stack
  have hLast : last = page ∨ last = top := by
    rcases hClosed with hNot | hValid | hNone | ⟨stop, hMore, hLimit, hUnmapped, hStop, hFrames⟩
    · omega
    · refine Or.inl (le_antisymm (not_lt.mp fun hLess => ?_) hGrown.low)
      have hInvalid := hGrown.unmapped page le_rfl hLess
      exact absurd (hInvalid.symm.trans hValid) Bool.false_ne_true
    · have hCount := hFilled.count
      have hFree : m.userMapping.frames.freeCount = m.frames.freeCount := rfl
      have hFirst := hGrown.low
      exact Or.inl (by omega)
    · refine Or.inr ?_
      rw [hGrown.top_eq hLimit hUnmapped hStop hMore hFrames]
      rcases lt_trichotomy stop top with hLess | hSame | hOver
      · rcases hStop with hIs | hValid
        · omega
        · exact absurd ((hStack stop (by omega) (by omega)).mp hValid) (not_le.mpr hLess)
      · exact hSame
      · have hPlace : page ≤ top := by
          by_contra hNot
          have hValid := (hStack page (by omega) hHigh).mpr (by omega)
          exact absurd ((hUnmapped page le_rfl hMore).symm.trans hValid) Bool.false_ne_true
        have hValid := (hStack top hAbove hEnd).mpr le_rfl
        exact absurd ((hUnmapped top hPlace hOver).symm.trans hValid) Bool.false_ne_true
  constructor
  · dsimp only
    rw [hFilled.other _ (by omega)]
    exact h.guard
  · intro vpn hFirst hBelow
    dsimp only at hBelow ⊢
    rw [hFilled.other _ (by omega)]
    exact h.program vpn hFirst hBelow
  · rcases hLast with rfl | rfl
    · refine ⟨top, hAbove, hEnd, fun vpn hFirst hBelow => ?_⟩
      dsimp only
      rw [hFilled.other _ (by omega)]
      exact hStack vpn hFirst hBelow
    · have hFirst := hGrown.low
      refine ⟨page, by dsimp only; omega, hHigh, fun vpn hOver hBelow => ?_⟩
      dsimp only
      by_cases hNew : page ≤ vpn ∧ vpn < last
      · exact iff_of_true (hFilled.entry _ (by omega) (by omega)).1 hNew.1
      · rw [hFilled.other _ (by omega)]
        have hOld : (m.userMapping.table (vpn - region1BaseVpn)).valid = true ↔ last ≤ vpn :=
          hStack vpn hOver hBelow
        rw [hOld]
        omega

/-- The text lies below the data, or it reaches from above the page at the break
into the stack. -/
def TextAside (li : LoadProgram.LoadInfo) (lay : LoadProgram.Layout) : Prop :=
  li.tNpg = 0 ∨ lay.textPg1 + li.tNpg ≤ lay.dataPg1 ∨
    lay.dataPg1 + lay.dataNpg < lay.textPg1 ∧ region1Vpns - lay.stackNpg ≤ lay.textPg1 + li.tNpg

/-- A program starts with an empty heap, a page below the stack at least. -/
theorem guarded_loadProgram {uc : UserContext} {file : LoadProgram.File} {args : List (List Byte)} {argsOk : Bool}
    {loaded : LoadProgram.Outcome} (hWf : m.frames.Wf)
    (h : LoadProgram.loadProgram m uc file args argsOk = .ok loaded) (hResult : loaded.result = .success)
    (hAside : ∀ li text data, file = .image li text data → TextAside li (LoadProgram.layout li args)) :
    (loaded.mem.ctx m.active).Guarded := by
  obtain ⟨li, text, data, hSucceeded⟩ := LoadProgram.loadProgram_success h hResult
  obtain ⟨st⟩ := hSucceeded.stages hWf
  have hText := hAside li text data hSucceeded.file_eq
  have hRoom := hSucceeded.room
  have hActive : loaded.mem.active = m.active := congrArg KernelSide.active (LoadProgram.steps_loadProgram h).kernelSide
  obtain ⟨-, hCurr⟩ := st.bounds_eq
  have hStart := st.data_eq
  have hTextLow := st.allocated.textLow
  have hTextHigh := st.allocated.textHigh
  have hDataLow := st.allocated.dataLow
  have hStackHigh := st.allocated.stackHigh
  have hStack := (LoadProgram.layout_stack li args).2
  have hPages : 0 ≤ (LoadProgram.layout li args).dataNpg := by
    unfold LoadProgram.layout
    dsimp only
    omega
  have hSize : region1LimitVpn = region1BaseVpn + region1Vpns := rfl
  have hValid (i : Int) := st.valid_iff (i := i)
  rw [← hActive]
  show (loaded.mem.ctx loaded.mem.active).Guarded
  unfold TextAside at hText
  constructor
  · rw [hCurr]
    show (loaded.mem.region1Pt _).valid = false
    refine Bool.eq_false_iff.mpr fun hMapped => ?_
    rw [hValid _ (by omega) (by omega)] at hMapped
    omega
  · intro vpn hLow hHigh
    have hMapped : (loaded.mem.region1Pt (vpn - region1BaseVpn)).valid = true :=
      (hValid _ (by omega) (by omega)).mpr (Or.inr (Or.inl (by omega)))
    refine ⟨hMapped, ?_⟩
    show (loaded.mem.region1Pt (vpn - region1BaseVpn)).prot = .readWrite
    rw [st.valid_eq] at hMapped
    rw [st.entry_eq, if_neg (by omega)]
    exact (st.allocated.fresh (fun i => st.invalid_cleared) (by omega) (by omega) hMapped).1
  · by_cases hHigher : (LoadProgram.layout li args).dataPg1 + (LoadProgram.layout li args).dataNpg <
      (LoadProgram.layout li args).textPg1 ∧ 0 < li.tNpg
    · refine ⟨region1BaseVpn + min (LoadProgram.layout li args).textPg1
        (region1Vpns - (LoadProgram.layout li args).stackNpg), by omega, by omega, fun vpn hLow hHigh => ?_⟩
      show (loaded.mem.region1Pt (vpn - region1BaseVpn)).valid = true ↔ _
      rw [hValid _ (by omega) (by omega)]
      omega
    · refine ⟨region1BaseVpn + (region1Vpns - (LoadProgram.layout li args).stackNpg), by omega, by omega,
        fun vpn hLow hHigh => ?_⟩
      show (loaded.mem.region1Pt (vpn - region1BaseVpn)).valid = true ↔ _
      rw [hValid _ (by omega) (by omega)]
      omega

/-- A fork leaves the page at the break as it was, and the stack of the child starts
above it. -/
theorem guarded_ucCopy {child : Proc} {ok : Bool} (hChild : child ≠ m.active) (hReady : (m.ctx m.active).Ready)
    (h : (m.ctx m.active).Guarded) (hSp : InsideRegion1 sp)
    (hBlank : ∀ i, ((m.ctx child).region1Pt i).valid = false) (hCopy : ucCopy m sp child = .ok (m', ok)) :
    (m'.ctx m.active).Guarded ∧ (ok = true → (m'.ctx child).Guarded) := by
  obtain ⟨n, hHanded, hSame, hDone⟩ := handed_ucCopy hChild hCopy
  constructor
  · have hTable : (n.ctx m.active).region1Pt = n.region1Pt := by rw [Memory.region1Pt, hHanded.active]
    obtain ⟨top, hAbove, hEnd, hStack⟩ := h.stack
    rw [hSame _ hChild.symm, hHanded.bounds, hTable]
    constructor
    · exact hHanded.scratch h.guard
    · intro vpn hLow hHigh
      dsimp only at hHigh ⊢
      rw [hHanded.parent _ (by omega)]
      exact h.program vpn hLow hHigh
    · refine ⟨top, hAbove, hEnd, fun vpn hLow hHigh => ?_⟩
      dsimp only at hLow ⊢
      rw [hHanded.parent _ (by omega)]
      exact hStack vpn hLow hHigh
  · intro hOk
    obtain ⟨hStack, hCtx⟩ := hDone hOk
    have hPage := (page_in_region1 hSp.1 hSp.2).2
    have hData : (m.ctx m.active).dataStartPage ≤ (m.ctx m.active).currBrkPage := hReady.data.trans hReady.order
    have hApart : (copiedPages (m.ctx m.active) sp).Pairwise (·.1 ≠ ·.1) :=
      (sorted_copiedPages hData hStack).imp fun hLess => hLess.ne
    have hCopied := hHanded.copied hOk hApart
    have hFresh (vpn : Int) (hNone : ∀ page ∈ copiedPages (m.ctx m.active) sp, page.1 ≠ vpn) :
        ((n.ctx child).region1Pt (vpn - region1BaseVpn)).valid = false := by
      rw [hHanded.untouched _ fun page hIn => by have := hNone page hIn; omega]
      exact hBlank _
    rw [hCtx]
    constructor
    · refine hFresh (m.ctx m.active).currBrkPage fun page hIn => ?_
      rcases mem_copiedPages.mp hIn with hText | hHeap | hTop
      all_goals omega
    · intro vpn hLow hHigh
      have hHeap : (vpn, Prot.readWrite) ∈ copiedPages (m.ctx m.active) sp :=
        mem_copiedPages.mpr (Or.inr (Or.inl ⟨hLow, hHigh, rfl⟩))
      exact hCopied _ hHeap
    · refine ⟨pageNumber (downToPage sp), hStack, hPage, fun vpn hLow hHigh => ?_⟩
      dsimp only at hLow ⊢
      constructor
      · intro hValid
        by_contra hNot
        refine absurd ((hFresh vpn fun page hIn => ?_).symm.trans hValid) Bool.false_ne_true
        rcases mem_copiedPages.mp hIn with hText | hHeap | hTop
        all_goals omega
      · intro hOver
        have hTop : (vpn, Prot.readWrite) ∈ copiedPages (m.ctx m.active) sp :=
          mem_copiedPages.mpr (Or.inr (Or.inr ⟨hOver, hHigh, rfl⟩))
        exact (hCopied _ hTop).1

end UserMemory
end Yalnix
