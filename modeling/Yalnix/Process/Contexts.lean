import Yalnix.Memory.Contexts
import Yalnix.Process.Custody

/-! The memory contexts over whole runs. Within a step only the running process and
its new child get another context, and only by the call that the trap is about. -/
namespace Yalnix

open Hardware KernelMemory UserMemory Transition

section Space

variable [Hardware] {dies : Proc → Prop} {label : Label} {x y : Space} {p : Proc}

theorem Space.Step.ctx (hStep : Space.Step dies x y) (h : x.Served) (hp : ¬dies p) :
    y.mem.ctx p = x.mem.ctx p := by
  cases hStep with
  | write hStore => rw [Memory.storeBytes_eq hStore]
  | heap addr =>
      obtain ⟨frames, table, page, hEq⟩ := setKernelBrk_eq x.mem addr
      exact congrFun (congrArg Memory.ctx hEq) p
  | clone hChild hOther =>
      obtain ⟨frames, table, page, stack, pmem, hEq⟩ := kcCopy_eq x.mem _
      exact congrFun (congrArg Memory.ctx hEq) p
  | exit next hDies hNext =>
      have hOther : p ≠ x.mem.active := by
        rw [h.current.active]
        rintro rfl
        exact hp hDies
      obtain ⟨frames, hEq, -, -⟩ := destroyPt_spec (deallocateRegion1 x.mem) (deallocateRegion1 x.mem).region0Pt
        stackBase stackLimit
      show (deallocateKernelStack (deallocateRegion1 x.mem)).ctx p = x.mem.ctx p
      rw [deallocateKernelStack_eq, hEq]
      exact (steps_deallocateRegion1 x.mem).others hOther
  | switch next hNext => rfl

/-- After the call, no context of a process that survives changes. -/
theorem Space.Steps.ctx (hSteps : Space.Steps dies x y) (h : x.Served) (hp : ¬dies p) :
    y.mem.ctx p = x.mem.ctx p := by
  induction hSteps with
  | refl => rfl
  | tail hBefore hLast ih => exact (hLast.ctx (h.steps hBefore) hp).trans ih

theorem Space.Steps.numPcbs (hSteps : Space.Steps dies x y) : y.numPcbs = x.numPcbs := by
  induction hSteps with
  | refl => rfl
  | tail hBefore hLast ih =>
      rw [← ih]
      cases hLast <;> rfl

/-- The call of a process leaves the other processes alone. -/
theorem Space.Call.others (hCall : Space.Call dies label x y) (h : x.Served) (hp : p ≠ x.runningProc)
    (hOld : p < x.numPcbs) : y.mem.ctx p = x.mem.ctx p := by
  have hOther : p ≠ x.mem.active := h.current.active ▸ hp
  cases hCall with
  | none => rfl
  | brk _ => exact (steps_kernelBrkImpl x.mem _ _).others hOther
  | grow _ _ => exact (steps_expandStack x.mem _).others hOther
  | load _ hLoad _ => exact (LoadProgram.steps_loadProgram hLoad).others hOther
  | fork _ hNew hCopy _ =>
      have hActive : x.mem.active = x.runningProc := h.current.active
      have hChild : x.numPcbs ≠ x.create.mem.active := fun hSame => hNew.ne (hActive ▸ hSame.symm)
      obtain ⟨n, hHanded, hSame, -⟩ := handed_ucCopy hChild hCopy
      show (_ : Memory).ctx p = _
      rw [hSame p hOld.ne, hHanded.others p hOld.ne hOther]
      exact Function.update_of_ne hOld.ne _ _

/-- Only a fork makes a new control block. -/
theorem Space.Call.numPcbs (hCall : Space.Call dies label x y) : y.numPcbs = x.numPcbs ∨
    y.numPcbs = x.numPcbs + 1 ∧ ∃ uc o, label = .syscall .fork uc o := by
  cases hCall with
  | none | brk _ | grow _ _ | load _ _ _ => exact Or.inl rfl
  | fork hFork _ _ _ => exact Or.inr ⟨rfl, _, _, hFork⟩

end Space

namespace Kernel

variable [Hardware] {s t : Kernel} {label : Label} {p : Proc}

omit [Hardware] in
/-- The first program of the process is still to be loaded. -/
def Unbooted (s : Kernel) (p : Proc) : Prop := s.Parked p none ∨ s.Parked p (some .boot)

theorem Unbooted.kc {o : Outcomes} (hUnbooted : s.Unbooted s.runningProc) (h : s.step (.resume o) = .ok t) :
    (s.pcb s.runningProc).kc = some .boot := by
  rcases hUnbooted with hParked | hParked
  · simp only [step] at h
    split_ifs at h
    unfold resume at h
    rw [hParked.1] at h
    cases h
  · exact hParked.1

/-- A process that was booted by this step. -/
theorem booted_step {o : Outcomes} (hKc : (s.pcb s.runningProc).kc = some .boot) (h : s.step (.resume o) = .ok t) :
    ∃ uc loaded, LoadProgram.loadProgram s.mem uc o.file cmdArgs (o.alloc 0) = .ok loaded ∧
      loaded.result = .success ∧ t.mem = loaded.mem := by
  simp only [step] at h
  split_ifs at h
  unfold resume at h
  rw [hKc] at h
  obtain ⟨done, hDone, h⟩ := bind_eq_ok.mp h
  obtain ⟨loaded, hLoad, hDone⟩ := bind_eq_ok.mp hDone
  have hMem : t.mem = done.mem := by
    obtain rfl := Except.ok.inj h
    exact congrArg Space.mem (space_leave done)
  cases hResult : loaded.result with
  | success =>
      simp only [hResult] at hDone
      obtain rfl := Except.ok.inj hDone
      exact ⟨_, loaded, hLoad, hResult, hMem⟩
  | error =>
      simp only [hResult] at hDone
      cases hDone
  | kill =>
      simp only [hResult] at hDone
      cases hDone

/-- A process that continues elsewhere keeps its context. -/
theorem resumed_step {o : Outcomes} (hEnd : KernelStart.Sound t) (hServed : s.space.Served)
    (hKc : (s.pcb s.runningProc).kc ≠ some .boot) (h : s.step (.resume o) = .ok t) {p : Proc} (hLives : ¬t.Gone p) :
    t.mem.ctx p = s.mem.ctx p := by
  simp only [step] at h
  split_ifs at h
  unfold resume at h
  split at h
  · cases h
  · rename_i kc hSaved
    obtain ⟨done, hDone, h⟩ := bind_eq_ok.mp h
    obtain rfl := Except.ok.inj h
    have hFates : done.Fates done.leave.Gone := (KernelStart.fates_gone hEnd).leave
    have hBoot : kc ≠ .boot := fun hIs => hKc (hIs ▸ hSaved)
    have hSteps := (move_continueAt (s := { s with mode := .user }) hBoot hDone).steps hFates.running
    have hSame : done.leave.mem.ctx p = done.mem.ctx p := congrArg (fun x => x.mem.ctx p) (space_leave done)
    rw [hSame]
    exact hSteps.ctx hServed hLives

omit [Hardware] in
/-- Every process that has its program has a context with `R`. -/
def Everywhere (R : MemCtx → Prop) (s : Kernel) : Prop := ∀ p, s.Live p → R (s.mem.ctx p) ∨ s.Unbooted p

omit [Hardware] in
theorem Everywhere.running {R : MemCtx → Prop} (h : s.Everywhere R) (hLive : s.Live s.runningProc)
    (hMode : s.mode = .user) : R (s.mem.ctx s.runningProc) := by
  refine (h _ hLive).resolve_right fun hUnbooted => ?_
  rcases hUnbooted with hParked | hParked <;>
  · have hResuming := hParked.2 rfl
    rw [hMode] at hResuming
    cases hResuming

/-- The invariant rule for contexts: a call keeps the property for its process, gives it
to a new child, and the first program starts with it. -/
theorem Everywhere.step {R : MemCtx → Prop} (h : s.Everywhere R) (hSound : KernelStart.Sound s)
    (hEnd : KernelStart.Sound t) (hServed : s.space.Served) (hStep : s.step label = .ok t)
    (hKept : ∀ z, Space.Call t.Gone label s.space z → ¬t.Gone s.runningProc →
      t.mem.ctx s.runningProc = z.mem.ctx s.runningProc → R (s.mem.ctx s.runningProc) → R (z.mem.ctx s.runningProc))
    (hChild : ∀ z, Space.Call t.Gone label s.space z → z.numPcbs = s.numPcbs + 1 → ¬t.Gone s.numPcbs →
      R (s.mem.ctx s.runningProc) → R (z.mem.ctx s.numPcbs))
    (hBoot : ∀ o uc loaded, label = .resume o → (s.pcb s.runningProc).kc = some .boot →
      LoadProgram.loadProgram s.mem uc o.file cmdArgs (o.alloc 0) = .ok loaded → loaded.result = .success →
      R (loaded.mem.ctx s.runningProc)) : t.Everywhere R := by
  obtain ⟨z, hCall, hSteps⟩ := trap_step hSound.running_lt hSound.contexts.idle_lt (KernelStart.fates_gone hEnd) hStep
  have hOutlived := outlived_step hSound hStep
  intro p hLive
  have hLives : ¬t.Gone p := fun hGone => hGone.2.2 hLive
  have hSame : t.mem.ctx p = z.mem.ctx p := hSteps.ctx (hServed.call hCall) hLives
  have hSize : t.numPcbs = z.numPcbs := hSteps.numPcbs
  by_cases hOld : p < s.numPcbs
  · rcases h p (hOutlived.live p hOld hLive) with hHolds | hUnbooted
    · refine Or.inl ?_
      rw [hSame]
      by_cases hp : p = s.runningProc
      · subst hp
        exact hKept z hCall hLives hSame hHolds
      · rw [hCall.others hServed hp hOld]
        exact hHolds
    · by_cases hp : p = s.runningProc ∧ label.isResume = true
      · obtain ⟨rfl, hResume⟩ := hp
        cases label with
        | resume o =>
            have hKc := hUnbooted.kc hStep
            obtain ⟨uc, loaded, hLoad, hResult, hMem⟩ := booted_step hKc hStep
            rw [hMem]
            exact Or.inl (hBoot o uc loaded rfl hKc hLoad hResult)
        | _ => cases hResume
      · exact Or.inr (hUnbooted.imp (·.step hSound hOld hp hStep) (·.step hSound hOld hp hStep))
  · have hNew : p < t.numPcbs := hLive.2.1
    rcases hCall.numPcbs with hNone | ⟨hMore, uc, o, hFork⟩
    · rw [hSize, hNone] at hNew
      exact absurd hNew hOld
    · obtain rfl : p = s.numPcbs := by
        rw [hSize, hMore] at hNew
        exact Nat.le_antisymm (Nat.lt_succ_iff.mp hNew) (Nat.not_lt.mp hOld)
      have hUser : s.inUser := by
        rw [hFork] at hStep
        simp only [Kernel.step] at hStep
        by_contra hNot
        rw [if_neg hNot] at hStep
        cases hStep
      rw [hSame]
      exact Or.inl (hChild z hCall hMore hLives (h.running (hSound.settled.live_running hUser) hUser.1))

end Kernel

namespace KernelStart

open Kernel

variable [Hardware]

/-- At boot there is only the process that is still to be booted. -/
theorem everywhere_kernelStart (R : MemCtx → Prop) (uctxt : UserContext) (early late : List Word) :
    (kernelStart uctxt early late).Everywhere R := by
  obtain ⟨kc, hKc, hCpu⟩ := cpu_kernelStart uctxt early late
  intro p hLive
  have hSize : (kernelStart uctxt early late).numPcbs = 2 := congrArg Cpu.numPcbs hCpu
  have hIdle : (kernelStart uctxt early late).idleProc = 0 := congrArg Cpu.idleProc hCpu
  have hRunning : (kernelStart uctxt early late).runningProc = 0 := congrArg Cpu.runningProc hCpu
  have hp : p = 1 := by
    have hLess := hLive.2.1
    have hNe := hLive.1
    rw [hSize] at hLess
    rw [hIdle] at hNe
    exact Nat.le_antisymm (Nat.lt_succ_iff.mp hLess) (Nat.one_le_iff_ne_zero.mpr hNe)
  subst hp
  have hSaved : ((kernelStart uctxt early late).pcb 1).kc = kc := congrFun (congrArg Cpu.kc hCpu) 1
  have hParked : (kernelStart uctxt early late).Parked 1 kc :=
    ⟨hSaved, fun hIs => absurd (hIs.trans hRunning) Nat.one_ne_zero⟩
  rcases hKc with rfl | rfl
  · exact Or.inr (Or.inl hParked)
  · exact Or.inr (Or.inr hParked)

end KernelStart
end Yalnix
