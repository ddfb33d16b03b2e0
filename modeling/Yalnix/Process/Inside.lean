import Yalnix.Process.Invariant

/-! The processes that are inside a call: blocked in it, woken and ready, or
about to continue it. Where a process waits depends on the call it is in. -/
namespace Yalnix

open Hardware

/-- The contexts saved by `kernel_tty_read` and `kernel_tty_write`. -/
def KernelContext.isTty : KernelContext → Bool
  | .ttyRead _ | .ttyWrite _ => true
  | _ => false

/-- The contexts saved by calls on locks, semaphores and condition variables. -/
def KernelContext.isSync : KernelContext → Bool
  | .acquire _ | .semDown _ | .cvarWait _ => true
  | _ => false

/-- Processes that were switched away with this context wait at this place. A
condition variable passes its waiters on to their lock. -/
def KernelContext.WaitsAt (kc : KernelContext) : Place → Prop
  | .sleeping => kc = .delay
  | .queue (.sched .waitBlocking) => kc = .wait
  | .queue (.lock id) => kc = .acquire id ∨ kc = .semDown id ∨ ∃ lockId, kc = .cvarWait lockId
  | .queue (.cvar _) => ∃ lockId, kc = .cvarWait lockId
  | .queue (.pipe id) => ∃ buf len, kc = .pipeRead id buf len
  | .queue (.reader id) => kc = .ttyRead id
  | .queue (.writer id) | .transmitting id => kc = .ttyWrite id
  | .queue (.sched .main) | .queue (.sched .ioBlocking) | .cpu | .hand => False

theorem KernelContext.reader_of_waitsAt {id : Nat} {a : Place}
    (h : (KernelContext.ttyRead id).WaitsAt a) : a = .queue (.reader id) := by
  cases a with
  | queue q =>
      cases q with
      | sched type => cases type <;> cases h
      | reader k => exact congrArg (fun k => Place.queue (.reader k)) (KernelContext.ttyRead.inj h).symm
      | lock | cvar | pipe | writer => simp [WaitsAt] at h
  | sleeping | transmitting | cpu | hand => cases h

/-- How a process comes to be inside a call: it is preempted, it is a new child,
or it blocks. -/
inductive Enters [Hardware] (label : Label) (s t : Kernel) (p : Proc) : KernelContext → Prop where
  | clock : Enters label s t p .clock
  | fork : Enters label s t p .fork
  | block {parked u : Kernel} {kc : KernelContext} (hp : p = s.runningProc) (hUser : s.inUser)
      (hParks : Parks label s kc parked) (hQuiet : Quiet parked u) (hSwitch : t = u.switchAway kc) :
      Enters label s t p kc

/-- How a process comes to a place where it waits: it blocks there, it is the
next owner of a terminal, or it was signalled and now waits for its lock. -/
inductive Joins [Hardware] (label : Label) (s t : Kernel) (lists : Place → List Proc) (p : Proc) :
    Place → Prop where
  | block {a : Place} {kc : KernelContext} (hEnters : Enters label s t p kc)
      (hKc : (t.pcb p).kc = some kc) (hAt : kc.WaitsAt a) : Joins label s t lists p a
  | own {id : Nat} (hp : p ∈ lists (.queue (.writer id))) : Joins label s t lists p (.transmitting id)
  | signalled {c id : Nat} (hp : p ∈ lists (.queue (.cvar c))) :
      Joins label s t lists p (.queue (.lock id))

/-- Everybody who waits waited there before, or has come in one of these ways. -/
def Arrivals [Hardware] (label : Label) (s t : Kernel) (lists others : Place → List Proc) : Prop :=
  ∀ a : Place, a.isBlocked = true → ∀ p ∈ others a, p ∈ lists a ∨ Joins label s t lists p a

/-- The queues of locks and condition variables are the same. -/
def SyncFrame (lists others : Place → List Proc) : Prop :=
  ∀ a : Place, a.isSync = true → others a = lists a

/-- The effects that change the queue of a lock or a condition variable. -/
inductive SyncEffect [Hardware] : Kernel → Kernel → Prop where
  | enqueue {s t u : Kernel} {id : Nat} {kc : KernelContext} (hUser : s.inUser)
      (hKc : kc = .acquire id ∨ kc = .semDown id)
      (h : s.acquire id s.runningProc false = (u, .need)) (hQuiet : Quiet u t) :
      SyncEffect s (t.switchAway kc)
  | wait {s t u : Kernel} {cvarId lockId : Nat} (hUser : s.inUser)
      (h : s.waitCvar cvarId lockId s.runningProc = (u, true)) (hQuiet : Quiet u t) :
      SyncEffect s (t.switchAway (.cvarWait lockId))
  | release {s t : Kernel} {id : Nat} (hUser : s.inUser)
      (h : s.release id s.runningProc false = (t, true)) : SyncEffect s t
  | signal {s t : Kernel} {id : Nat} {waiter : Proc} (h : s.popCvar id = (t, some waiter)) :
      SyncEffect s (t.reacquire waiter)

section Frames

variable {s t : Kernel} {lists others base : Place → List Proc} {a : Place} {list : List Proc}

theorem Place.isBlocked_of_isSync {a : Place} (h : a.isSync = true) : a.isBlocked = true := by
  cases a with
  | queue q => cases q <;> simp_all [isSync, isBlocked]
  | _ => simp [isSync] at h

theorem Calm.sync (h : Calm lists others) : SyncFrame lists others :=
  fun c hc => h c (Place.isBlocked_of_isSync hc)

theorem TtyFrame.update (ha : a.isTty = false) : TtyFrame lists (Function.update lists a list) :=
  fun c hc => Function.update_of_ne (by rintro rfl; simp [ha] at hc) _ _

theorem TtyFrame.calm (h : TtyFrame lists base) (hCalm : Calm base others) : TtyFrame lists others :=
  fun c hc => (hCalm.tty c hc).trans (h c hc)

theorem SyncFrame.update (ha : a.isSync = false) : SyncFrame lists (Function.update lists a list) :=
  fun c hc => Function.update_of_ne (by rintro rfl; simp [ha] at hc) _ _

theorem SyncFrame.calm (h : SyncFrame lists base) (hCalm : Calm base others) :
    SyncFrame lists others := fun c hc => (hCalm.sync c hc).trans (h c hc)

theorem Arrivals.refl [Hardware] (label : Label) (s t : Kernel) (lists : Place → List Proc) :
    Arrivals label s t lists lists := fun _ _ _ hp => Or.inl hp

theorem Arrivals.calm [Hardware] {label : Label} (h : Arrivals label s t lists base)
    (hCalm : Calm base others) : Arrivals label s t lists others := by
  intro c hc p hp
  rw [hCalm c hc] at hp
  exact h c hc p hp

/-- One place changes. -/
theorem Arrivals.update [Hardware] {label : Label}
    (h : ∀ p ∈ list, p ∈ lists a ∨ Joins label s t lists p a) :
    Arrivals label s t lists (Function.update lists a list) := by
  intro c hc p hp
  by_cases he : c = a
  · subst he
    rw [Function.update_self] at hp
    exact h p hp
  · rw [Function.update_of_ne he] at hp
    exact Or.inl hp

end Frames

namespace Kernel

/-- The process has entered the kernel with the call `kc` and has not
continued it. -/
def Inside (s : Kernel) (p : Proc) (kc : KernelContext) : Prop :=
  s.Live p ∧ (s.pcb p).kc = some kc ∧ (p = s.runningProc → s.mode = .resuming)

instance (s : Kernel) (p : Proc) (kc : KernelContext) : Decidable (s.Inside p kc) :=
  inferInstanceAs (Decidable (_ ∧ _))

variable {s t : Kernel} {p : Proc} {kc kc' : KernelContext}

theorem not_inside_running (hMode : s.mode = .user) : ¬s.Inside s.runningProc kc := by
  rintro ⟨-, -, hRunning⟩
  have hResuming := hRunning rfl
  simp [hMode] at hResuming

/-- A process is inside at most one call. -/
theorem Inside.unique (h : s.Inside p kc) (h' : s.Inside p kc') : kc = kc' :=
  Option.some.inj (h.2.1.symm.trans h'.2.1)

theorem inside_iff_of_cpu (hCpu : t.cpu = s.cpu) (hLive : t.Live = s.Live) :
    t.Inside p kc ↔ s.Inside p kc := by
  simp only [Inside, hLive, kc_of_cpu hCpu, runningProc_of_cpu hCpu, mode_of_cpu hCpu]

/-- A process that continues its call is no longer inside it. -/
theorem inside_user : Inside { s with mode := .user } p kc ↔ p ≠ s.runningProc ∧ s.Inside p kc := by
  by_cases hp : p = s.runningProc
  · subst hp
    simp [Inside]
  · simp [Inside, Live, hp]

theorem live_ttyWriteReturn (s : Kernel) (id : Nat) : (s.ttyWriteReturn id).Live = s.Live := by
  have hCleared := live_of_shape (shape_modifyPcb (s := s) (p := s.runningProc)
    (f := fun p => { p with ioKbuf := [] }) rfl rfl rfl Iff.rfl)
  refine Eq.trans ?_ hCleared
  exact funext fun p => propext ((Quiet.ret (s.modifyPcb s.runningProc fun p =>
    { p with ioKbuf := [] }) (BitVec.ofNat 32 (s.pcb s.runningProc).ioTotal)).live_iff p)

/-- After a switch the process that ran is inside its call. -/
theorem inside_switch {n : Proc} (hMode : s.mode = .user) (hLive : t.Live = s.Live)
    (hCpu : t.cpu = { s.cpu with
      mode := .resuming, runningProc := n, kc := Function.update s.cpu.kc s.runningProc (some kc) }) :
    t.Inside p kc' ↔ s.Inside p kc' ∨ p = s.runningProc ∧ s.Live p ∧ kc = kc' := by
  have hResuming : t.mode = .resuming := congrArg Cpu.mode hCpu
  have hKc : (t.pcb p).kc = Function.update s.cpu.kc s.runningProc (some kc) p :=
    congrFun (congrArg Cpu.kc hCpu) p
  by_cases hp : p = s.runningProc
  · subst hp
    rw [Function.update_self] at hKc
    simp [Inside, hLive, hKc, hResuming, hMode]
  · rw [Function.update_of_ne hp] at hKc
    have hSame : s.cpu.kc p = (s.pcb p).kc := rfl
    simp [Inside, hLive, hKc, hResuming, hp, hSame]

end Kernel

/-- The same processes are inside a call on a terminal. -/
def InsideFrame (s t : Kernel) : Prop := ∀ p kc, kc.isTty = true → (t.Inside p kc ↔ s.Inside p kc)

namespace InsideFrame

variable [Hardware] {s t u : Kernel}

omit [Hardware] in
theorem of_cpu (hCpu : t.cpu = s.cpu) (hLive : t.Live = s.Live) : InsideFrame s t :=
  fun _ _ _ => Kernel.inside_iff_of_cpu hCpu hLive

omit [Hardware] in
theorem quiet (h : Quiet s t) : InsideFrame s t :=
  of_cpu (Kernel.cpu_of_outside h.outside) (funext fun p => propext (h.live_iff p))

omit [Hardware] in
/-- A process that is switched away with another context is not inside. -/
theorem switch {kc : KernelContext} {n : Proc} (hMode : s.mode = .user) (hKc : kc.isTty = false)
    (hLive : t.Live = s.Live) (hCpu : t.cpu = { s.cpu with
      mode := .resuming, runningProc := n, kc := Function.update s.cpu.kc s.runningProc (some kc) }) :
    InsideFrame s t := by
  intro p kc' hTty
  rw [Kernel.inside_switch hMode hLive hCpu, or_iff_left_iff_imp]
  rintro ⟨-, -, rfl⟩
  simp [hKc] at hTty

theorem preempt (hMode : s.mode = .user) (hLive : s.preempt.Live = s.Live) :
    InsideFrame s s.preempt := by
  rcases Kernel.cpu_preempt s with hCpu | hCpu
  · exact of_cpu hCpu hLive
  · exact switch hMode rfl hLive hCpu

theorem kernelExit {code : Word} (hUser : s.inUser) (hExit : s.kernelExit code = .ok t)
    (hLive : ∀ p, t.Live p ↔ p ≠ s.runningProc ∧ s.Live p) : InsideFrame s t := by
  have hCpu := Kernel.cpu_kernelExit hExit
  have hResuming : t.mode = .resuming := congrArg Cpu.mode hCpu
  intro p kc hTty
  have hKc : (t.pcb p).kc = (s.pcb p).kc := congrFun (congrArg Cpu.kc hCpu) p
  by_cases hp : p = s.runningProc
  · subst hp
    simp [Kernel.Inside, hLive, hUser.1]
  · simp [Kernel.Inside, hLive, hKc, hp, hResuming]

theorem kernelFork {o : Outcomes} (hFork : s.kernelFork o = .ok t) : InsideFrame s t := by
  obtain ⟨child, hChild, hCpu⟩ := Kernel.cpu_kernelFork hFork
  have hMode : t.mode = s.mode := congrArg Cpu.mode hCpu
  have hRunning : t.runningProc = s.runningProc := congrArg Cpu.runningProc hCpu
  intro p kc hTty
  have hKc : (t.pcb p).kc = Function.update s.cpu.kc s.numPcbs child p :=
    congrFun (congrArg Cpu.kc hCpu) p
  by_cases hp : p = s.numPcbs
  · -- the block of the child: not in use before, and without such a context after
    rw [hp, Function.update_self] at hKc
    rw [hp]
    refine iff_of_false (fun hInside => ?_) fun hInside => Nat.lt_irrefl _ hInside.1.2.1
    have hSaved := hInside.2.1.symm.trans hKc
    rcases hChild with rfl | rfl <;> cases hSaved
    simp [KernelContext.isTty] at hTty
  · rw [Function.update_of_ne hp] at hKc
    have hSame : s.cpu.kc p = (s.pcb p).kc := rfl
    simp only [Kernel.Inside, Settled.live_kernelFork hFork hp, hKc, hSame, hMode, hRunning]

omit [Hardware] in
/-- A call that continues was not a terminal call. -/
theorem resumed {kc : KernelContext} (hKc : (s.pcb s.runningProc).kc = some kc)
    (hTty : kc.isTty = false) : InsideFrame s { s with mode := .user } := by
  intro p kc' hTty'
  by_cases hp : p = s.runningProc
  · subst hp
    refine iff_of_false (fun hInside => ?_) fun hInside => ?_
    · exact (Kernel.inside_user.mp hInside).1 rfl
    · obtain rfl := Option.some.inj (hInside.2.1.symm.trans hKc)
      simp [hTty] at hTty'
  · simp [Kernel.inside_user, hp]

end InsideFrame

/-- Everybody who is inside a call was so before, or has come in one of these
ways. Nobody leaves but the process that continues. -/
structure Entries [Hardware] (label : Label) (s t : Kernel) : Prop where
  enter : ∀ p kc, t.Inside p kc → s.Inside p kc ∨ Enters label s t p kc
  stay : ∀ p kc, s.Inside p kc → t.Inside p kc ∨ p = s.runningProc ∧ label.isResume = true

namespace Entries

variable [Hardware] {label : Label} {s t : Kernel}

theorem of_cpu (hCpu : t.cpu = s.cpu) (hLive : t.Live = s.Live) : Entries label s t :=
  ⟨fun _ _ hInside => Or.inl ((Kernel.inside_iff_of_cpu hCpu hLive).mp hInside),
    fun _ _ hInside => Or.inl ((Kernel.inside_iff_of_cpu hCpu hLive).mpr hInside)⟩

theorem quiet (h : Quiet s t) : Entries label s t :=
  of_cpu (Kernel.cpu_of_outside h.outside) (funext fun p => propext (h.live_iff p))

theorem preempt (hMode : s.mode = .user) (hLive : s.preempt.Live = s.Live) :
    Entries label s s.preempt := by
  rcases Kernel.cpu_preempt s with hCpu | hCpu
  · exact of_cpu hCpu hLive
  · refine ⟨fun p kc hInside => ?_, fun p kc hInside => ?_⟩
    · rcases (Kernel.inside_switch hMode hLive hCpu).mp hInside with hOld | ⟨-, -, rfl⟩
      · exact Or.inl hOld
      · exact Or.inr .clock
    · exact Or.inl ((Kernel.inside_switch hMode hLive hCpu).mpr (Or.inl hInside))

theorem kernelExit {code : Word} (hUser : s.inUser) (hExit : s.kernelExit code = .ok t)
    (hLive : ∀ p, t.Live p ↔ p ≠ s.runningProc ∧ s.Live p) : Entries label s t := by
  have hCpu := Kernel.cpu_kernelExit hExit
  have hResuming : t.mode = .resuming := congrArg Cpu.mode hCpu
  have hKc (p : Proc) : (t.pcb p).kc = (s.pcb p).kc := congrFun (congrArg Cpu.kc hCpu) p
  refine ⟨fun p kc hInside => ?_, fun p kc hInside => ?_⟩
  · obtain ⟨hNe, hOld⟩ := (hLive p).mp hInside.1
    exact Or.inl ⟨hOld, hKc p ▸ hInside.2.1, fun hp => absurd hp hNe⟩
  · have hNe : p ≠ s.runningProc := by
      rintro rfl
      exact Kernel.not_inside_running hUser.1 hInside
    exact Or.inl ⟨(hLive p).mpr ⟨hNe, hInside.1⟩, (hKc p).trans hInside.2.1, fun _ => hResuming⟩

theorem kernelFork {o : Outcomes} (hFork : s.kernelFork o = .ok t) : Entries label s t := by
  obtain ⟨child, hChild, hCpu⟩ := Kernel.cpu_kernelFork hFork
  have hMode : t.mode = s.mode := congrArg Cpu.mode hCpu
  have hRunning : t.runningProc = s.runningProc := congrArg Cpu.runningProc hCpu
  have hOld {p : Proc} {kc : KernelContext} (hp : p ≠ s.numPcbs) : t.Inside p kc ↔ s.Inside p kc := by
    have hKc : (t.pcb p).kc = (s.pcb p).kc :=
      (congrFun (congrArg Cpu.kc hCpu) p).trans (Function.update_of_ne hp _ _)
    simp only [Kernel.Inside, Settled.live_kernelFork hFork hp, hKc, hMode, hRunning]
  refine ⟨fun p kc hInside => ?_, fun p kc hInside => Or.inl ((hOld ?_).mpr hInside)⟩
  · by_cases hp : p = s.numPcbs
    · have hKc : (t.pcb p).kc = Function.update s.cpu.kc s.numPcbs child p :=
        congrFun (congrArg Cpu.kc hCpu) p
      rw [hp, Function.update_self] at hKc
      rw [hp] at hInside
      have hSaved := hInside.2.1.symm.trans hKc
      rcases hChild with rfl | rfl
      · cases hSaved
      · obtain rfl := Option.some.inj hSaved
        exact Or.inr .fork
    · exact Or.inl ((hOld hp).mp hInside)
  · exact Nat.ne_of_lt hInside.1.2.1

theorem user (hCall : label.isResume = true) : Entries label s { s with mode := .user } := by
  refine ⟨fun _ _ hInside => Or.inl (Kernel.inside_user.mp hInside).2, fun p kc hInside => ?_⟩
  by_cases hp : p = s.runningProc
  · exact Or.inr ⟨hp, hCall⟩
  · exact Or.inl (Kernel.inside_user.mpr ⟨hp, hInside⟩)

theorem written (hCall : label.isResume = true) (id : Nat) :
    Entries label s ({ s with mode := .user }.ttyWriteReturn id) := by
  have hSame {p : Proc} {kc : KernelContext} : Kernel.Inside ({ s with mode := .user }.ttyWriteReturn id) p kc ↔
      Kernel.Inside { s with mode := .user } p kc :=
    Kernel.inside_iff_of_cpu (Kernel.cpu_ttyWriteReturn _ id) (Kernel.live_ttyWriteReturn _ id)
  refine ⟨fun p kc hInside => Or.inl (Kernel.inside_user.mp (hSame.mp hInside)).2, fun p kc hInside => ?_⟩
  exact ((user hCall).stay p kc hInside).imp_left hSame.mpr

/-- The running process blocks. -/
theorem block {parked : Kernel} {kc : KernelContext} (hUser : s.inUser)
    (hParks : Parks label s kc parked) (hQuiet : Quiet parked t) (hRunning : t.runningProc = s.runningProc)
    (hLive : t.Live = s.Live) (hSwitch : (t.switchAway kc).Live = s.Live) :
    Entries label s (t.switchAway kc) := by
  have hSaved : t.cpu.kc = s.cpu.kc := by
    rw [Kernel.cpu_of_outside hQuiet.outside]
    rcases Kernel.cpu_parks hParks with ⟨hSame, -⟩ | ⟨_, _, _, _, _, _, hSame⟩
    · rw [hSame]
    · rw [hSame]
  have hMode : t.mode = .user := by
    rw [hQuiet.mode]
    rcases Kernel.cpu_parks hParks with ⟨hSame, -⟩ | ⟨_, _, _, _, _, _, hSame⟩
    · exact (Kernel.mode_of_cpu hSame).trans hUser.1
    · exact (congrArg Cpu.mode hSame).trans hUser.1
  have hSame {p : Proc} {kc' : KernelContext} : t.Inside p kc' ↔ s.Inside p kc' := by
    have hKc : (t.pcb p).kc = (s.pcb p).kc := congrFun hSaved p
    simp only [Kernel.Inside, hLive, hKc, hRunning, hMode, hUser.1]
  have hIff {p : Proc} {kc' : KernelContext} : (t.switchAway kc).Inside p kc' ↔ _ :=
    Kernel.inside_switch hMode (hSwitch.trans hLive.symm) (Kernel.cpu_switchAway t kc)
  refine ⟨fun p kc' hInside => ?_, fun p kc' hInside => Or.inl (hIff.mpr (Or.inl (hSame.mpr hInside)))⟩
  rcases hIff.mp hInside with hOld | ⟨hp, -, rfl⟩
  · exact Or.inl (hSame.mp hOld)
  · exact Or.inr (.block (hp.trans hRunning) hUser hParks hQuiet rfl)

end Entries

/-- A process that blocks inside a terminal call does so in one of two ways. -/
theorem TtyEffect.of_parks {label : Label} [Hardware] {s parked t : Kernel} {kc : KernelContext} (hUser : s.inUser)
    (hParks : Parks label s kc parked) (hTty : kc.isTty = true) (hQuiet : Quiet parked t) :
    TtyEffect s (t.switchAway kc) := by
  cases hParks with
  | ttyRead hId hEmpty hLen => exact .readBlock hUser hId hEmpty hLen hQuiet
  | ttyWrite hId hBytes hShort => exact .writeBlock hUser hId hBytes hShort hQuiet
  | lock hKc => rcases hKc with rfl | rfl <;> cases hTty
  | sleep | wait | cvar | pipe => cases hTty

end Yalnix
