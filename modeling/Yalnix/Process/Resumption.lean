import Yalnix.Process.Custody
import Yalnix.Process.KinSteps
import Yalnix.Process.Registers
import Yalnix.Sample

/-! The user context over whole runs. A process that comes back from a trap has the
registers with which it took the trap, but for the results of the call it made. -/
namespace Yalnix

open Hardware Transition

/-- A trap as its process sees it: the registers, the call that was made, if it was
one, and whether the process was switched away. -/
structure Trapped where
  uc : UserContext
  call : Option Syscall
  blocked : Bool

namespace Trapped

/-- The registers with which the process may go on in user mode. -/
structure Resumes (e : Trapped) (uc : UserContext) : Prop where
  addr : uc.addr = e.uc.addr
  program : e.call ≠ some .exec → uc.pc = e.uc.pc ∧ uc.sp = e.uc.sp
  result : e.call = none → uc.regs 0 = e.uc.regs 0
  status : ¬(e.call = some .wait ∧ e.blocked = true) → uc.regs 1 = e.uc.regs 1
  regs : ∀ i, 1 < i → uc.regs i = e.uc.regs i

/-- The places inside the kernel at which the process may be left. -/
def Fits (e : Trapped) (saved : Option KernelContext) : Prop :=
  ∀ kc, saved = some kc → kc ≠ .boot ∧ (e.call = none → kc = .clock ∨ kc = .fork) ∧
    (kc = .wait → e.call = some .wait ∧ e.blocked = true)

variable {e : Trapped} {uc uc' : UserContext}

theorem Resumes.refl (e : Trapped) : e.Resumes e.uc :=
  ⟨rfl, fun _ => ⟨rfl, rfl⟩, fun _ => rfl, fun _ => rfl, fun _ _ => rfl⟩

/-- A trap that is no call changes nothing. -/
theorem Resumes.eq (h : e.Resumes uc) (hCall : e.call = none) : uc = e.uc := by
  obtain ⟨hPc, hSp⟩ := h.program (by simp [hCall])
  have hRegs : uc.regs = e.uc.regs := by
    funext i
    rcases Nat.lt_trichotomy i 1 with hZero | rfl | hMore
    · obtain rfl := Nat.lt_one_iff.mp hZero
      exact h.result hCall
    · exact h.status (by simp [hCall])
    · exact h.regs i hMore
  have hAddr := h.addr
  cases uc
  simp_all

/-- A call may set register 0. -/
theorem Resumes.of_rest (h : e.Resumes uc) (hCall : e.call ≠ none) (hRest : uc'.result 0 = uc.result 0) :
    e.Resumes uc' := by
  have hReg (i : Nat) (hi : i ≠ 0) : uc'.regs i = uc.regs i := by
    have hSame := congrArg (fun uc => uc.regs i) hRest
    simpa [UserContext.result, Function.update_of_ne hi] using hSame
  have hPc : uc'.pc = uc.pc := (congrArg UserContext.pc hRest :)
  have hSp : uc'.sp = uc.sp := (congrArg UserContext.sp hRest :)
  have hAddr : uc'.addr = uc.addr := (congrArg UserContext.addr hRest :)
  constructor
  · exact hAddr.trans h.addr
  · intro hExec
    rw [hPc, hSp]
    exact h.program hExec
  · exact fun hNone => absurd hNone hCall
  · intro hWait
    rw [hReg 1 Nat.one_ne_zero]
    exact h.status hWait
  · intro i hi
    rw [hReg i (by omega)]
    exact h.regs i hi

/-- The clock reports a child to a process that was left in a `Wait`. -/
theorem Resumes.report (h : e.Resumes uc) (hWait : e.call = some .wait ∧ e.blocked = true) (code : Word) :
    e.Resumes { uc with regs := Function.update uc.regs 1 code } := by
  constructor
  · exact h.addr
  · exact h.program
  · intro hNone
    rw [hWait.1] at hNone
    cases hNone
  · exact fun hNot => absurd hWait hNot
  · intro i hi
    show Function.update uc.regs 1 code i = e.uc.regs i
    rw [Function.update_of_ne hi.ne']
    exact h.regs i hi

/-- An `Exec` sets the program counter and the stack pointer as well. -/
theorem Resumes.loaded (h : e.Resumes uc) (hExec : e.call = some .exec) {pc sp : Word}
    (hRest : uc'.result 0 = { uc.result 0 with pc := pc, sp := sp }) : e.Resumes uc' := by
  have hReg (i : Nat) (hi : i ≠ 0) : uc'.regs i = uc.regs i := by
    have hSame := congrArg (fun uc => uc.regs i) hRest
    simpa [UserContext.result, Function.update_of_ne hi] using hSame
  have hAddr : uc'.addr = uc.addr := (congrArg UserContext.addr hRest :)
  constructor
  · exact hAddr.trans h.addr
  · exact fun hNot => absurd hExec hNot
  · intro hNone
    rw [hExec] at hNone
    cases hNone
  · intro hWait
    rw [hReg 1 Nat.one_ne_zero]
    exact h.status hWait
  · intro i hi
    rw [hReg i (by omega)]
    exact h.regs i hi

end Trapped

/-- The registers with which a process took its trap. -/
def Label.context : Label → Option UserContext
  | .syscall _ uc _ | .clock uc _ | .memory uc | .ttyReceive uc _ _ _ | .ttyTransmit uc _ => some uc
  | .math | .illegal | .resume _ | .heap _ | .userStore _ _ => none

def Label.call : Label → Option Syscall
  | .syscall call _ _ => some call
  | _ => none

/-- The observer notes every trap for the process that takes it, and the `Fork` of its
parent for a new child. -/
def noteTrap (s : Kernel) (label : Label) (t : Kernel) (note : Proc → Option Trapped) : Proc → Option Trapped :=
  match label.context with
  | none => note
  | some uc =>
      let own := Function.update note s.runningProc (some ⟨uc, label.call, decide (t.mode = .resuming)⟩)
      if label.call = some .fork ∧ s.numPcbs < t.numPcbs then
        Function.update own s.numPcbs (some ⟨uc.result 0, none, false⟩)
      else own

namespace Kernel

variable {s t u : Kernel} {p : Proc} {e : Trapped} {uc : UserContext} {label : Label}

/-- The process is back from its trap, or it was left inside the kernel. -/
inductive Recalls (s : Kernel) (p : Proc) (e : Trapped) : Prop where
  | back (hMode : s.mode = .user) (hRunning : s.runningProc = p) (hUc : e.Resumes s.uc)
  | left (saved : Option KernelContext) (hParked : s.Parked p saved) (hFits : e.Fits saved)
      (hUc : e.Resumes (s.pcb p).uc)

theorem recalls_leave (hMode : s.mode = .user) (hUc : e.Resumes (s.pcb s.runningProc).uc) :
    s.leave.Recalls s.runningProc e := by
  have hLeave : s.leave = { s with uc := (s.pcb s.runningProc).uc } := by
    unfold leave
    rw [hMode]
  rw [hLeave]
  exact .back hMode rfl hUc

variable [Hardware] {o : Outcomes}

theorem recalls_switchAway {kc : KernelContext} (hFits : e.Fits (some kc))
    (hUc : e.Resumes (s.pcb s.runningProc).uc) : (s.switchAway kc).leave.Recalls s.runningProc e := by
  have hCpu := cpu_switchAway s kc
  have hMode : (s.switchAway kc).mode = .resuming := congrArg Cpu.mode hCpu
  have hKc : ((s.switchAway kc).pcb s.runningProc).kc = some kc :=
    (congrFun (congrArg Cpu.kc hCpu) s.runningProc).trans (Function.update_self _ _ _)
  have hSame := uc_of_records (records_switchAway s kc) s.runningProc
  unfold leave
  rw [hMode]
  exact .left (some kc) ⟨hKc, fun _ => hMode⟩ hFits (hSame ▸ hUc)

/-- The end of a call, for the process that made it. -/
theorem Handled.recalls {leaves : KernelContext → Word × Nat → Prop} (h : Handled s leaves t) (hMode : s.mode = .user)
    (hBack : ∀ uc, uc.result 0 = (s.pcb s.runningProc).uc.result 0 → e.Resumes uc)
    (hAway : ∀ kc request, t.mode = .resuming → leaves kc request → e.Fits (some kc)) :
    t.leave.Recalls s.runningProc e := by
  cases h with
  | back h =>
      have hRunning : t.runningProc = s.runningProc := congrArg Desk.runningProc h
      have hUser : t.mode = .user := (congrArg Desk.mode h).trans hMode
      rw [← hRunning]
      refine recalls_leave hUser (hBack _ ?_)
      rw [hRunning]
      exact rest_of_desk h s.runningProc
  | @away u kc h hLeaves =>
      have hRunning : u.runningProc = s.runningProc := congrArg Desk.runningProc h
      have hResuming : (u.switchAway kc).mode = .resuming := congrArg Cpu.mode (cpu_switchAway u kc)
      rw [← hRunning]
      refine recalls_switchAway (hAway kc _ hResuming hLeaves) (hBack _ ?_)
      rw [hRunning]
      exact rest_of_desk h s.runningProc

/-- A call, for its caller. -/
theorem recalls_dispatch {call : Syscall} (hUser : s.inUser) (hLt : s.runningProc < s.numPcbs)
    (h : (s.saveUc uc).dispatch call o = .ok t) (hLives : ¬t.Gone s.runningProc) :
    t.leave.Recalls s.runningProc ⟨uc, some call, decide (t.mode = .resuming)⟩ := by
  have hSaved : ((s.saveUc uc).pcb s.runningProc).uc = uc := by simp [saveUc, modifyPcb]
  have hStart := Trapped.Resumes.refl ⟨uc, some call, decide (t.mode = .resuming)⟩
  have hRest {uc' : UserContext} (hSame : uc'.result 0 = ((s.saveUc uc).pcb s.runningProc).uc.result 0) :
      Trapped.Resumes ⟨uc, some call, decide (t.mode = .resuming)⟩ uc' := by
    rw [hSaved] at hSame
    exact hStart.of_rest (by simp) hSame
  by_cases hExit : call = .exit
  · subst hExit
    exact absurd (gone_of_kernelExit hLt hUser.2 (cpu_modifyPcb rfl rfl) h) hLives
  by_cases hFork : call = .fork
  · subst hFork
    obtain ⟨kc, -, hCpu⟩ := cpu_kernelFork h
    have hRunning : t.runningProc = s.runningProc := congrArg Cpu.runningProc hCpu
    have hMode : t.mode = .user := (congrArg Cpu.mode hCpu).trans hUser.1
    have hSame := (registers_kernelFork (s := s.saveUc uc) hLt h).1 s.runningProc hLt
    generalize decide (t.mode = .resuming) = blocked at hRest
    rw [← hRunning] at hSame ⊢
    exact recalls_leave hMode (hRest (hRunning ▸ hSame))
  by_cases hExec : call = .exec
  · subst hExec
    rcases registers_kernelExec h with ⟨left, hCpu, hKill⟩ | ⟨hMode, hRunning, pc, sp, hLoaded⟩
    · exact absurd (gone_of_kernelExit hLt hUser.2 (hCpu.trans (cpu_modifyPcb rfl rfl)) hKill) hLives
    · have hRunning' : t.runningProc = s.runningProc := hRunning
      have hLoaded' : (t.pcb s.runningProc).uc.result 0 = { uc.result 0 with pc := pc, sp := sp } :=
        hSaved ▸ hLoaded
      generalize decide (t.mode = .resuming) = blocked at hStart
      rw [← hRunning'] at hLoaded' ⊢
      exact recalls_leave (hMode.trans hUser.1) (hStart.loaded rfl hLoaded')
  · refine (handled_dispatch hExit hFork hExec h).recalls hUser.1 (fun _ hSame => hRest hSame) ?_
    intro kc request hResuming hLeaves kc' hKc
    obtain rfl := Option.some.inj hKc
    refine ⟨?_, fun hNone => ?_, ?_⟩
    · rintro rfl
      cases call <;> exact hLeaves
    · cases hNone
    · rintro rfl
      have hWait : call = .wait := by
        cases call <;> first | rfl | exact hLeaves.elim
      exact ⟨congrArg some hWait, decide_eq_true hResuming⟩

/-- A tick, for the process that it interrupts. -/
theorem recalls_preempt (hMode : s.mode = .user) (hUc : e.Resumes (s.pcb s.runningProc).uc) :
    s.preempt.leave.Recalls s.runningProc e := by
  have hSame := uc_of_records (records_preempt s) s.runningProc
  rcases cpu_preempt s with hCpu | hCpu
  · rw [← runningProc_of_cpu hCpu] at hUc hSame ⊢
    refine recalls_leave ((mode_of_cpu hCpu).trans hMode) ?_
    rw [hSame]
    exact hUc
  · have hResuming : s.preempt.mode = .resuming := congrArg Cpu.mode hCpu
    have hKc : (s.preempt.pcb s.runningProc).kc = some .clock :=
      (congrFun (congrArg Cpu.kc hCpu) s.runningProc).trans (Function.update_self _ _ _)
    unfold leave
    rw [hResuming]
    refine .left (some .clock) ⟨hKc, fun _ => hResuming⟩ ?_ (hSame ▸ hUc)
    intro kc hKc
    obtain rfl := Option.some.inj hKc
    exact ⟨by simp, fun _ => Or.inl rfl, by simp⟩

omit [Hardware] in
/-- The trap of a terminal, for the process that it interrupts. -/
theorem recalls_leave_of_views (hMode : s.mode = .user) (hCpu : t.cpu = s.cpu)
    (hRecords : t.records = (s.saveUc uc).records) (hUc : e.uc = uc) : t.leave.Recalls s.runningProc e := by
  have hSaved : ((s.saveUc uc).pcb s.runningProc).uc = uc := by simp [saveUc, modifyPcb]
  rw [← runningProc_of_cpu hCpu]
  refine recalls_leave ((mode_of_cpu hCpu).trans hMode) ?_
  rw [runningProc_of_cpu hCpu, uc_of_records hRecords, hSaved, ← hUc]
  exact .refl e

/-- A trap, for the process that takes it. -/
theorem recalls_trap (hLt : s.runningProc < s.numPcbs) (hContext : label.context = some uc)
    (hStep : s.step label = .ok t) (hLives : ¬t.Gone s.runningProc) :
    t.Recalls s.runningProc ⟨uc, label.call, decide (t.mode = .resuming)⟩ := by
  cases label with
  | syscall call uc' o =>
      obtain rfl := Option.some.inj hContext
      simp only [step] at hStep
      split_ifs at hStep with hUser
      obtain ⟨done, hDone, hStep⟩ := bind_eq_ok.mp hStep
      obtain rfl := Except.ok.inj hStep
      rw [mode_of_cpu (leave_cpu _)]
      exact recalls_dispatch hUser hLt hDone fun hGone => hLives hGone.leave
  | clock uc' o =>
      obtain rfl := Option.some.inj hContext
      simp only [step] at hStep
      split_ifs at hStep with hMode
      obtain rfl := Except.ok.inj hStep
      have hCpu : ((s.tick o).saveUc uc').cpu = s.cpu :=
        (cpu_modifyPcb rfl rfl).trans (cpu_of_outside (outside_tick s o))
      have hRunning : ((s.tick o).saveUc uc').runningProc = s.runningProc := runningProc_of_cpu hCpu
      have hSaved : (((s.tick o).saveUc uc').pcb (s.tick o).runningProc).uc = uc' := by simp [saveUc, modifyPcb]
      rw [← hRunning]
      refine recalls_preempt ((mode_of_cpu hCpu).trans hMode) ?_
      show Trapped.Resumes _ (((s.tick o).saveUc uc').pcb (s.tick o).runningProc).uc
      rw [hSaved]
      exact Trapped.Resumes.refl ⟨uc', _, _⟩
  | memory uc' =>
      obtain rfl := Option.some.inj hContext
      simp only [step] at hStep
      split_ifs at hStep with hUser
      unfold trapMemoryHandler at hStep
      dsimp only at hStep
      split_ifs at hStep
      · obtain rfl := Except.ok.inj hStep
        exact .back hUser.1 rfl (.refl _)
      · exact absurd (gone_of_kernelExit hLt hUser.2 (cpu_setMem s _) hStep) hLives
  | ttyReceive uc' ttyId line lineOk =>
      obtain rfl := Option.some.inj hContext
      simp only [step] at hStep
      split_ifs at hStep with hMode
      obtain rfl := Except.ok.inj hStep
      exact recalls_leave_of_views hMode.1 ((cpu_ttyReceiveDone (s.saveUc uc') ttyId line lineOk).trans (cpu_modifyPcb rfl rfl))
        (records_ttyReceiveDone _ ttyId line lineOk) rfl
  | ttyTransmit uc' ttyId =>
      obtain rfl := Option.some.inj hContext
      simp only [step] at hStep
      split_ifs at hStep with hMode
      obtain rfl := Except.ok.inj hStep
      exact recalls_leave_of_views hMode
        ((cpu_ttyTransmitDone (s.saveUc uc') ttyId).trans (cpu_modifyPcb rfl rfl)) (records_ttyTransmitDone _ ttyId) rfl
  | math | illegal | resume o | heap addr | userStore addr byte => cases hContext

/-- The `Fork` of its parent, for a new child. -/
theorem recalls_child (hLt : s.runningProc < s.numPcbs) (hIdle : s.idleProc < s.numPcbs)
    (hStep : s.step (.syscall .fork uc o) = .ok t) (hLives : ¬t.Gone s.numPcbs) :
    t.Recalls s.numPcbs ⟨uc.result 0, none, false⟩ := by
  simp only [step] at hStep
  split_ifs at hStep with hUser
  obtain ⟨done, hDone, hStep⟩ := bind_eq_ok.mp hStep
  obtain rfl := Except.ok.inj hStep
  have hSaved : ((s.saveUc uc).pcb s.runningProc).uc = uc := by simp [saveUc, modifyPcb]
  obtain ⟨kc, hKc, hCpu⟩ := cpu_kernelFork hDone
  have hMode : done.mode = .user := (congrArg Cpu.mode hCpu).trans hUser.1
  have hRunning : done.runningProc = s.runningProc := congrArg Cpu.runningProc hCpu
  have hSize : done.numPcbs = s.numPcbs + 1 := congrArg Cpu.numPcbs hCpu
  have hSame : done.idleProc = s.idleProc := congrArg Cpu.idleProc hCpu
  have hLive : done.Live s.numPcbs := by
    by_contra hNot
    refine hLives (Gone.leave ⟨?_, ?_, hNot⟩)
    · rw [hSize]
      exact Nat.lt_succ_self _
    · rw [hSame]
      exact hIdle.ne'
  have hUc := (registers_kernelFork (s := s.saveUc uc) hLt hDone).2 hLive
  have hSavedKc : (done.pcb s.numPcbs).kc = kc :=
    (congrFun (congrArg Cpu.kc hCpu) s.numPcbs).trans (Function.update_self _ _ _)
  have hLeave : done.leave = { done with uc := (done.pcb done.runningProc).uc } := by
    unfold leave
    rw [hMode]
  rw [hLeave]
  refine .left kc ⟨hSavedKc, fun hIs => absurd (hIs.trans hRunning) hLt.ne'⟩ ?_ ?_
  · intro kc' hIs
    rcases hKc with hNone | hFork
    · rw [hNone] at hIs
      cases hIs
    · obtain rfl := Option.some.inj (hFork.symm.trans hIs)
      exact ⟨by simp, fun _ => Or.inr rfl, by simp⟩
  · have hChild : (done.pcb s.numPcbs).uc = uc.result 0 := by
      rw [← hSaved]
      exact hUc
    show Trapped.Resumes _ (done.pcb s.numPcbs).uc
    rw [hChild]
    exact .refl _

/-- A process that continues, in the step in which it does. -/
theorem recalls_resume {saved : Option KernelContext} (hParked : s.Parked s.runningProc saved) (hFits : e.Fits saved)
    (hUc : e.Resumes (s.pcb s.runningProc).uc) (hStep : s.step (.resume o) = .ok t) :
    t.Recalls s.runningProc e := by
  simp only [step] at hStep
  split_ifs at hStep
  unfold resume at hStep
  split at hStep
  · cases hStep
  · rename_i kc hKc
    obtain ⟨done, hDone, hStep⟩ := bind_eq_ok.mp hStep
    obtain rfl := Except.ok.inj hStep
    obtain ⟨hBoot, hTick, -⟩ := hFits kc (hParked.1.symm.trans hKc)
    by_cases hCall : e.call = none
    · have hSame : done = { s with mode := .user } := by
        rcases hTick hCall with rfl | rfl
        · exact (Except.ok.inj hDone).symm
        · exact (Except.ok.inj hDone).symm
      rw [hSame]
      exact recalls_leave (s := { s with mode := .user }) rfl hUc
    · refine (handled_continueAt hBoot hDone).recalls rfl (fun uc hRest => hUc.of_rest hCall hRest) ?_
      rintro left request - ⟨-, id, buf, len, rfl⟩ kc' hIs
      obtain rfl := Option.some.inj hIs
      exact ⟨by simp, fun hNone => absurd hNone hCall, by simp⟩

/-- A process that stays inside the kernel, in the steps of the others. -/
theorem recalls_aside {saved : Option KernelContext} (hSound : KernelStart.Sound s) (hWaiting : s.Waiting)
    (hLt : p < s.numPcbs) (hParked : s.Parked p saved) (hFits : e.Fits saved) (hUc : e.Resumes (s.pcb p).uc)
    (hOther : ¬(p = s.runningProc ∧ label.isResume = true)) (hStep : s.step label = .ok t) : t.Recalls p e := by
  have hLast := Parked.preserve (I := fun u => u.Waiting ∧ e.Resumes (u.pcb p).uc) ?_ ?_
    (fun _ _ hInv => hInv) hSound hLt hParked hOther ⟨hWaiting, hUc⟩ hStep
  · exact .left saved hLast.2.1 hFits hLast.2.2.2
  · intro label u v hu hLt hParked hAside hEffect hInv
    refine ⟨hInv.1.effect hu hEffect, ?_⟩
    rcases saved_effect hEffect hAside hLt with hSame | ⟨proc, shrinkOk, found, hFind, rfl⟩
    · have hUc : (v.pcb p).uc = (u.pcb p).uc := congrArg Prod.fst hSame
      rw [hUc]
      exact hInv.2
    · obtain ⟨hWaiter, -, code, -, -, hOwn, hOthers⟩ :=
        kin_findWaiter (hu.settled.placement.linked (.sched .waitBlocking)).1 hFind
      rw [uc_of_records (records_scheduleProcess found proc)]
      by_cases hp : p = proc
      · subst hp
        -- the clock reports only to a process that was left in a `Wait`
        obtain ⟨kc, hKc, hAt⟩ := hInv.1 (.queue (.sched .waitBlocking)) rfl p hWaiter
        have hWait := (hFits kc (hParked.1.symm.trans hKc)).2.2 hAt
        rw [hOwn]
        exact hInv.2.report hWait code
      · rw [hOthers p hp]
        exact hInv.2
  · intro u id len hu hInv
    refine ⟨hInv.1.read hu id len, ?_⟩
    obtain ⟨ttys, lines, trace, hEq⟩ := read_eq u id len
    rw [hEq]
    exact hInv.2

/-- The traps that were noted, for the processes that are not gone. -/
def Remembers (s : Kernel) (note : Proc → Option Trapped) : Prop :=
  ∀ p e, note p = some e → p < s.numPcbs ∧ (¬s.Gone p → s.Recalls p e)

/-- A process that takes no trap in this step. -/
theorem recalls_step (hSound : KernelStart.Sound s) (hWaiting : s.Waiting) (hLt : p < s.numPcbs)
    (hTrap : p = s.runningProc → label.context = none) (hStep : s.step label = .ok t) (hLives : ¬t.Gone p)
    (h : s.Recalls p e) : t.Recalls p e := by
  cases h with
  | left saved hParked hFits hUc =>
      by_cases hOwn : p = s.runningProc ∧ label.isResume = true
      · obtain ⟨rfl, hResume⟩ := hOwn
        cases label with
        | resume o => exact recalls_resume hParked hFits hUc hStep
        | _ => cases hResume
      · exact recalls_aside hSound hWaiting hLt hParked hFits hUc hOwn hStep
  | back hMode hRunning hUc =>
      subst hRunning
      have hContext := hTrap rfl
      cases label with
      | math | illegal =>
          simp only [step] at hStep
          split_ifs at hStep with hUser
          exact absurd (gone_of_kernelExit hLt hUser.2 rfl hStep) hLives
      | resume o =>
          simp only [step] at hStep
          split_ifs at hStep with hResuming
          rw [hMode] at hResuming
          cases hResuming
      | heap addr =>
          obtain rfl := Except.ok.inj hStep
          exact .back hMode rfl hUc
      | userStore addr byte =>
          simp only [step] at hStep
          split_ifs at hStep
          obtain rfl := Except.ok.inj hStep
          exact .back hMode rfl hUc
      | syscall | clock | memory | ttyReceive | ttyTransmit => cases hContext

theorem Remembers.step {note : Proc → Option Trapped} (h : s.Remembers note) (hSound : KernelStart.Sound s)
    (hWaiting : s.Waiting) (hStep : s.step label = .ok t) : t.Remembers (noteTrap s label t note) := by
  have hOutlived := outlived_step hSound hStep
  have hOld (p : Proc) (e : Trapped) (hNote : note p = some e)
      (hTrap : p = s.runningProc → label.context = none) : p < t.numPcbs ∧ (¬t.Gone p → t.Recalls p e) := by
    obtain ⟨hLt, hRecalls⟩ := h p e hNote
    exact ⟨hLt.trans_le hOutlived.size, fun hLives =>
      recalls_step hSound hWaiting hLt hTrap hStep hLives (hRecalls fun hGone => hLives (hOutlived.gone hGone))⟩
  intro p e hNote
  unfold noteTrap at hNote
  cases hContext : label.context with
  | none =>
    rw [hContext] at hNote
    exact hOld p e hNote fun _ => hContext
  | some uc =>
    rw [hContext] at hNote
    have hOwn (hNote : Function.update note s.runningProc
        (some ⟨uc, label.call, decide (t.mode = .resuming)⟩) p = some e) :
        p < t.numPcbs ∧ (¬t.Gone p → t.Recalls p e) := by
      by_cases hp : p = s.runningProc
      · subst hp
        rw [Function.update_self] at hNote
        obtain rfl := Option.some.inj hNote
        exact ⟨hSound.running_lt.trans_le hOutlived.size, recalls_trap hSound.running_lt hContext hStep⟩
      · rw [Function.update_of_ne hp] at hNote
        exact hOld p e hNote fun hIs => absurd hIs hp
    dsimp only at hNote
    split_ifs at hNote with hFork
    · by_cases hp : p = s.numPcbs
      · subst hp
        rw [Function.update_self] at hNote
        obtain rfl := Option.some.inj hNote
        refine ⟨hFork.2, ?_⟩
        cases label with
        | syscall call uc' o =>
            obtain rfl := Option.some.inj hFork.1
            obtain rfl := Option.some.inj hContext
            exact recalls_child hSound.running_lt hSound.contexts.idle_lt hStep
        | _ => cases hFork.1
      · rw [Function.update_of_ne hp] at hNote
        exact hOwn hNote
    · exact hOwn hNote

end Kernel

namespace KernelStart

open Kernel

section Runs

variable [Hardware]

/-- The kernel with the observer of its traps. -/
def watched : System (Kernel × (Proc → Option Trapped)) Label Stop :=
  system.observe (fun _ => none) noteTrap

theorem remembers_reachable {x : Kernel × (Proc → Option Trapped)} (run : watched.Reachable x) :
    x.1.Remembers x.2 := by
  induction run with
  | initial start =>
      intro p e hNote
      rw [start.2] at hNote
      cases hNote
  | step before _ last ih =>
      obtain ⟨hStep, hNote⟩ := System.observe_step.mp last
      have hRun := System.observe_reachable before
      rw [hNote]
      exact ih.step (sound_reachable hRun) (waiting_reachable hRun) hStep

end Runs

/-- A process in user mode has the registers with which it took its last trap, but for
what the call of that trap may set. After a trap that was no call, and in a child that
was forked and took no trap yet, the registers are the noted ones. -/
theorem context_preserved [Hardware] {x : Kernel × (Proc → Option Trapped)} (run : watched.Reachable x)
    (hUser : x.1.mode = .user) {e : Trapped} (hNote : x.2 x.1.runningProc = some e) :
    e.Resumes x.1.uc ∧ (e.call = none → x.1.uc = e.uc) := by
  have hSound := sound_reachable (System.observe_reachable run)
  have hLives : ¬x.1.Gone x.1.runningProc := (fates_gone hSound).running
  have hResumes : e.Resumes x.1.uc := by
    cases (remembers_reachable run _ e hNote).2 hLives with
    | back _ _ hUc => exact hUc
    | left _ hParked _ _ =>
        have hResuming := hParked.2 rfl
        rw [hUser] at hResuming
        cases hResuming
  exact ⟨hResumes, fun hCall => hResumes.eq hCall⟩

open Sample in
theorem watched_booted : watched.initial (booted, fun _ => none) := ⟨initial_booted, rfl⟩

open Sample in
/-- A child runs with register 0 cleared after its parent forked with 5 and 6 in its
registers. -/
theorem context_preserved_child : ∃ x, watched.Reachable x ∧ x.1.runningProc = 2 ∧
    x.1.uc.regs 0 = 0 ∧ x.1.uc.regs 1 = 6 := by
  obtain ⟨x, run, hUser, hRunning, e, hNote, hCall, hRegs⟩ := System.exists_reachable
    (P := fun x : Kernel × (Proc → Option Trapped) => x.1.mode = .user ∧ x.1.runningProc = 2 ∧
      ∃ e ∈ x.2 x.1.runningProc, e.call = none ∧ e.uc.regs 0 = 0 ∧ e.uc.regs 1 = 6)
    (turn ++ [call .fork [5, 6]] ++ turn) watched_booted (by decide +kernel)
  have hSame := (context_preserved run hUser hNote).2 hCall
  exact ⟨x, run, hRunning, hSame ▸ hRegs.1, hSame ▸ hRegs.2⟩

end KernelStart
end Yalnix
