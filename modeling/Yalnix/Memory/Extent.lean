import Yalnix.Memory.Owners

/-! The extent of page tables. Every function checks the page it maps, so no table has a
valid entry beyond its end. -/
namespace Yalnix

open Hardware KernelMemory UserMemory Transition

variable [Hardware]

/-- The valid entries of region 1 tables and kernel stacks lie within the tables. -/
structure Memory.Fits (m : Memory) : Prop where
  user : ∀ proc i, ((m.ctx proc).region1Pt i).valid = true → 0 ≤ i ∧ i < region1Vpns
  stack : ∀ proc i, (m.ksPt proc i).valid = true → 0 ≤ i ∧ i < kStackVpns

namespace Memory.Fits

variable {m m' : Memory}

theorem same (h : m.Fits) (hCtx : ∀ p, (m'.ctx p).region1Pt = (m.ctx p).region1Pt) (hKs : m'.ksPt = m.ksPt) :
    m'.Fits where
  user proc i hValid := h.user proc i (hCtx proc ▸ hValid)
  stack proc i hValid := h.stack proc i (hKs ▸ hValid)

/-- One entry of a region 1 table is written, in range or not valid. -/
theorem update {proc : Proc} {j : Int} {e : Pte} (h : m.Fits)
    (hEntry : m'.entry = Function.update m.entry (.user proc j) e) (he : e.valid = true → 0 ≤ j ∧ j < region1Vpns) :
    m'.Fits where
  user p i hValid := by
    have hNew : (Function.update m.entry (.user proc j) e (.user p i)).valid = true := hEntry ▸ hValid
    by_cases hSame : Owner.user p i = .user proc j
    · rw [hSame, Function.update_self] at hNew
      obtain ⟨-, rfl⟩ := Owner.user.inj hSame
      exact he hNew
    · rw [Function.update_of_ne hSame] at hNew
      exact h.user p i hNew
  stack p i hValid := by
    have hNew : (Function.update m.entry (.user proc j) e (.stack p i)).valid = true := hEntry ▸ hValid
    rw [Function.update_of_ne (by simp)] at hNew
    exact h.stack p i hNew

end Memory.Fits

namespace UserMemory

variable {m m' : Memory}

theorem Step.fits (hStep : Step m m') (h : m.Fits) : m'.Fits := by
  cases hStep with
  | alloc vpn prot =>
      unfold allocPage
      split
      · exact h.same (fun _ => rfl) rfl
      · split_ifs with hIn
        · exact h.update (m.entry_setUser _ _ _ _) fun _ => hIn.symm
        · exact h.same (fun _ => rfl) rfl
  | dealloc vpn =>
      unfold deallocPage
      split_ifs
      · exact h
      · exact h.update (m.entry_setUser _ _ _ _) fun hValid => absurd hValid Bool.false_ne_true
      · exact h
  | protect vpn prot =>
      unfold changeProt
      split_ifs with hIn
      · exact h
      · exact h.update (m.entry_setUser m.frames _ _ _) fun _ => hIn.symm
      · exact h
  | bounds ctx hTable =>
      refine h.same (fun p => ?_) rfl
      by_cases hp : p = m.active
      · subst hp
        simp [hTable, Memory.region1Pt]
      · simp [hp]
  | write addr byte hPerms => exact h.same (fun _ => rfl) rfl

theorem Steps.fits (hSteps : Steps m m') (h : m.Fits) : m'.Fits := by
  induction hSteps with
  | refl => exact h
  | tail hBefore hLast ih => exact hLast.fits ih

theorem fits_destroyPt (h : m.Fits) (pt : PageTable) (first last : Int) : (destroyPt m pt first last).Fits := by
  obtain ⟨frames, hEq, -, -⟩ := destroyPt_spec m pt first last
  rw [hEq]
  exact h.same (fun _ => rfl) rfl

/-- A page is copied only if it is a page of region 1. -/
theorem fits_copyPages {child : Proc} {brkPage : Int} {pages : List (Int × Prot)} {ok : Bool} (h : m.Fits)
    (hRun : copyPages m child brkPage pages = .ok (m', ok)) : m'.Fits := by
  induction pages generalizing m with
  | nil =>
      obtain ⟨rfl, -⟩ := Prod.mk.inj (Except.ok.inj hRun)
      exact h
  | cons page pages ih =>
      have hPage : (allocPage m brkPage .readWrite).1.Fits := (Step.alloc brkPage .readWrite).fits h
      unfold copyPages at hRun
      split at hRun
      · rename_i next hAlloc
        rw [hAlloc] at hPage
        obtain ⟨rfl, -⟩ := Prod.mk.inj (Except.ok.inj hRun)
        exact fits_destroyPt hPage _ _ _
      · rename_i next hAlloc
        rw [hAlloc] at hPage
        obtain ⟨hIn, -⟩ := allocPage_true hAlloc
        obtain ⟨copied, hCopy, hRun⟩ := bind_eq_ok.mp hRun
        unfold copyFrame at hCopy
        dsimp only at hCopy
        split_ifs at hCopy with hSource
        obtain rfl := Except.ok.inj hCopy
        simp only [unmapNoFree, if_pos hIn, Option.getD_some] at hRun
        refine ih ?_ hRun
        generalize hUnmapped : Memory.setRegion1Pt _ next.active _ = unmapped
        have hFirst : unmapped.Fits := by
          rw [← hUnmapped]
          exact (hPage.same (fun _ => rfl) rfl).update (Memory.entry_setUser { next with pmem := _ } next.frames _ _ _)
            fun hValid => absurd hValid Bool.false_ne_true
        exact hFirst.update (unmapped.entry_setUser unmapped.frames _ _ _) fun _ => hSource.1.symm

theorem fits_ucCopy {child : Proc} {sp : Word} {ok : Bool} (h : m.Fits) (hCopy : ucCopy m sp child = .ok (m', ok)) :
    m'.Fits := by
  unfold ucCopy at hCopy
  dsimp only at hCopy
  split_ifs at hCopy
  · obtain ⟨rfl, -⟩ := Prod.mk.inj (Except.ok.inj hCopy)
    exact h
  · obtain ⟨⟨copied, done⟩, hRun, hCopy⟩ := bind_eq_ok.mp hCopy
    have hPages := fits_copyPages h hRun
    cases done with
    | false =>
        obtain ⟨rfl, -⟩ := Prod.mk.inj (Except.ok.inj hCopy)
        exact hPages
    | true =>
        obtain ⟨rfl, -⟩ := Prod.mk.inj (Except.ok.inj hCopy)
        refine hPages.same (fun p => ?_) rfl
        by_cases hp : p = child
        · subst hp
          simp
        · simp [hp]

end UserMemory

namespace KernelMemory

variable {m : Memory}

theorem fits_setKernelBrk (h : m.Fits) (addr : Word) : (setKernelBrk m addr).1.Fits := by
  obtain ⟨frames, table, page, hEq⟩ := setKernelBrk_eq m addr
  rw [hEq]
  exact h.same (fun _ => rfl) rfl

theorem fits_kcCopy (h : m.Fits) (hEnabled : m.vmEnabled = true) (hWf : m.frames.Wf) (hBounds : m.HeapBounds)
    (child : Proc) : (kcCopy m child).1.Fits := by
  have hClone := kcCopy_cases hEnabled hWf hBounds child
  generalize kcCopy m child = result at hClone
  cases hClone with
  | failed hBreak =>
      cases hBreak with
      | refused => exact h
      | failed hLow hHigh hPage hRestored => exact h.same (fun _ => rfl) rfl
  | @done x pmem hBelow hFilled hOther =>
      refine ⟨h.user, fun proc i hValid => ?_⟩
      simp only [withStack] at hValid
      by_cases hProc : proc = child
      · subst hProc
        rw [Function.update_self] at hValid
        split_ifs at hValid with hIn
        · exact hIn
        · exact h.stack _ i hValid
      · rw [Function.update_of_ne hProc] at hValid
        exact h.stack proc i hValid

end KernelMemory
end Yalnix
