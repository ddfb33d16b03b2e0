import Yalnix.Process.Conservation

/-! A process waits where the call it is inside makes it wait, so a process
that was woken and did not continue yet is ready or running. -/
namespace Yalnix

open Hardware

namespace Kernel

variable [Hardware] {s t : Kernel} {p : Proc} {a : Place} {kc : KernelContext}

/-- What an effect does to the processor: nothing, a new process, a switch to
another process, or the return of a process to its call. -/
inductive CpuStep (label : Label) (s t : Kernel) : Prop where
  | same (hCpu : t.cpu = s.cpu) : CpuStep label s t
  | fork {o : Outcomes} {kc : Option KernelContext} (hUser : s.inUser) (hFork : s.kernelFork o = .ok t)
      (hCall : label.forks = some o) (hCpu : t.cpu = { s.cpu with
        numPcbs := s.numPcbs + 1
        kc := Function.update s.cpu.kc s.numPcbs kc
        request := Function.update s.cpu.request s.numPcbs (0, 0) }) : CpuStep label s t
  | switch (hUser : s.mode = .user) (hMode : t.mode = .resuming) (hFixed : t.idleProc = s.idleProc ∧ t.numPcbs = s.numPcbs)
      (hOthers : ∀ p, p ≠ s.runningProc →
        (t.pcb p).kc = (s.pcb p).kc ∧ (t.pcb p).request = (s.pcb p).request)
      (hOwn : (s.pcb s.runningProc).kc ≠ none → (t.pcb s.runningProc).kc ≠ none) : CpuStep label s t
  | resume (hCall : label.isResume = true) (hCpu : t.cpu = { s.cpu with mode := .user }) : CpuStep label s t

omit [Hardware] in
theorem CpuStep.of_outside [Hardware] {label : Label} (h : t.outside = s.outside) : CpuStep label s t :=
  .same (cpu_of_outside h)

theorem cpu_effect {label : Label} (h : Effect label s t) : CpuStep label s t := by
  have hSwitch {u : Kernel} {n : Proc} {k : KernelContext} (hUser : s.mode = .user) (hIdle : u.idleProc = s.idleProc)
      (hSize : u.numPcbs = s.numPcbs)
      (hRequest : ∀ p, p ≠ s.runningProc → u.cpu.request p = s.cpu.request p) (hCpu : t.cpu = { u.cpu with
      mode := .resuming, runningProc := n, kc := Function.update s.cpu.kc s.runningProc (some k) }) :
      CpuStep label s t :=
    .switch hUser (congrArg Cpu.mode hCpu)
      ⟨(congrArg Cpu.idleProc hCpu).trans hIdle, (congrArg Cpu.numPcbs hCpu).trans hSize⟩ (fun p hp =>
        ⟨(congrFun (congrArg Cpu.kc hCpu) p).trans (Function.update_of_ne hp _ _),
          (congrFun (congrArg Cpu.request hCpu) p).trans (hRequest p hp)⟩) fun _ => by
      have hSaved : (t.pcb s.runningProc).kc = some k :=
        (congrFun (congrArg Cpu.kc hCpu) s.runningProc).trans (Function.update_self _ _ _)
      simp [hSaved]
  cases h with
  | quiet hQuiet => exact .of_outside hQuiet.outside
  | ticked => exact .of_outside (Quiet.ticked s).outside
  | reap _ _ hFound => exact .of_outside (Quiet.findExitedChild hFound).outside
  | @block parked u kc hUser hParks hQuiet =>
      have hQuietCpu := cpu_of_outside hQuiet.outside
      have hSame : u.cpu.kc = s.cpu.kc ∧ u.runningProc = s.runningProc ∧ u.idleProc = s.idleProc ∧
          u.numPcbs = s.numPcbs ∧ ∀ p, p ≠ s.runningProc → u.cpu.request p = s.cpu.request p := by
        rw [runningProc_of_cpu hQuietCpu, idleProc_of_cpu hQuietCpu, numPcbs_of_cpu hQuietCpu, hQuietCpu]
        rcases cpu_parks hParks with ⟨hSame, -⟩ | ⟨_, _, _, _, _, _, hSame⟩
        · rw [runningProc_of_cpu hSame, idleProc_of_cpu hSame, numPcbs_of_cpu hSame, hSame]
          exact ⟨rfl, rfl, rfl, rfl, fun _ _ => rfl⟩
        · refine ⟨?_, congrArg Cpu.runningProc hSame, congrArg Cpu.idleProc hSame,
            congrArg Cpu.numPcbs hSame, fun p hp => ?_⟩
          · rw [hSame]
          · rw [hSame]
            exact Function.update_of_ne hp _ _
      refine hSwitch (u := u) (n := u.getNextProcess.2) (k := kc) hUser.1 hSame.2.2.1 hSame.2.2.2.1 hSame.2.2.2.2 ?_
      rw [cpu_switchAway, hSame.1, hSame.2.1]
  | sleepless hUser hSleep => exact .of_outside (outside_fst (outside_putToSleep s _ _ _) hSleep)
  | preempt hMode =>
      rcases cpu_preempt s with hCpu | hCpu
      · exact .same hCpu
      · exact hSwitch hMode rfl rfl (fun _ _ => rfl) hCpu
  | exit hUser hExit =>
      have hCpu := cpu_kernelExit hExit
      exact .switch hUser.1 (congrArg Cpu.mode hCpu) ⟨congrArg Cpu.idleProc hCpu, congrArg Cpu.numPcbs hCpu⟩
        (fun p _ => ⟨congrFun (congrArg Cpu.kc hCpu) p, congrFun (congrArg Cpu.request hCpu) p⟩)
        fun hKc => (congrFun (congrArg Cpu.kc hCpu) s.runningProc).trans_ne hKc
  | fork hUser hFork hCall =>
      obtain ⟨kc, -, hCpu⟩ := cpu_kernelFork hFork
      exact .fork hUser hFork hCall hCpu
  | newLock => exact .of_outside (outside_newLock s _ _ _)
  | newCvar => exact .of_outside (outside_newCvar s _)
  | newPipe => exact .same (cpu_newPipe s _ _)
  | deleteLock => exact .of_outside (outside_deleteLock s _ _)
  | deleteCvar => exact .of_outside (outside_deleteCvar s _ _)
  | pipeReclaim => exact .same (cpu_pipeReclaim s _)
  | acquire hUser hAcquire => exact .of_outside (outside_fst (outside_acquire s _ _ _) hAcquire)
  | release hUser hCall hRelease => exact .of_outside (outside_fst (outside_release s _ _ _) hRelease)
  | signal hPop =>
      exact .same ((cpu_of_outside (outside_reacquire _ _)).trans
        (cpu_of_outside (outside_fst (outside_popCvar s _) hPop)))
  | pipeRead => exact .same rfl
  | pipeWrite => exact .same (cpu_wakeReaders _ _ _)
  | wakeWaiter hFind =>
      exact .same ((cpu_scheduleProcess _ _).trans
        (cpu_of_outside (outside_fst (outside_findWaiter s _) hFind)))
  | wakeSleeper _ _ hRemove =>
      apply CpuStep.same
      rw [cpu_emit, cpu_of_outside (outside_enqueProcess _ _ _),
        cpu_of_outside (outside_fst (outside_removeFromHeap s _) hRemove)]
  | transmitted => exact .same (cpu_ttyTransmitDone s _)
  | received => exact .same (cpu_ttyReceiveDone s _ _ _)
  | resumed _ _ _ _ hCall => exact .resume hCall rfl
  | @written id _ _ hCall => exact .resume hCall (cpu_ttyWriteReturn { s with mode := .user } id)

/-- Only a fork makes a new process. -/
theorem size_effect {label : Label} (h : Effect label s t) : t.idleProc = s.idleProc ∧
    (t.numPcbs = s.numPcbs ∨
      ∃ o, s.inUser ∧ label.forks = some o ∧ s.kernelFork o = .ok t ∧ t.numPcbs = s.numPcbs + 1) := by
  cases cpu_effect h with
  | same hCpu => exact ⟨idleProc_of_cpu hCpu, Or.inl (numPcbs_of_cpu hCpu)⟩
  | fork hUser hFork hCall hCpu =>
      exact ⟨congrArg Cpu.idleProc hCpu, Or.inr ⟨_, hUser, hCall, hFork, congrArg Cpu.numPcbs hCpu⟩⟩
  | switch _ _ hFixed _ _ => exact ⟨hFixed.1, Or.inl hFixed.2⟩
  | resume _ hCpu => exact ⟨congrArg Cpu.idleProc hCpu, Or.inl (congrArg Cpu.numPcbs hCpu)⟩

/-- Only the running process and a new one get another context. -/
theorem kc_effect {label : Label} (h : Effect label s t) (hp : p ≠ s.runningProc) (hLt : p < s.numPcbs) :
    (t.pcb p).kc = (s.pcb p).kc := by
  cases cpu_effect h with
  | same hCpu => exact kc_of_cpu hCpu p
  | fork _ _ _ hCpu =>
      exact (congrFun (congrArg Cpu.kc hCpu) p).trans (Function.update_of_ne (Nat.ne_of_lt hLt) _ _)
  | switch _ _ _ hOthers _ => exact (hOthers p hp).1
  | resume _ hCpu => exact congrFun (congrArg Cpu.kc hCpu) p

/-- Nobody loses a context. -/
theorem context_effect {label : Label} (h : Effect label s t) (hLt : p < s.numPcbs) (hSaved : (s.pcb p).kc ≠ none) :
    (t.pcb p).kc ≠ none := by
  by_cases hp : p = s.runningProc
  · subst hp
    cases cpu_effect h with
    | same hCpu => exact (kc_of_cpu hCpu _).trans_ne hSaved
    | fork _ _ _ hCpu =>
        exact ((congrFun (congrArg Cpu.kc hCpu) _).trans (Function.update_of_ne hLt.ne _ _)).trans_ne hSaved
    | switch _ _ _ _ hOwn => exact hOwn hSaved
    | resume _ hCpu => exact (congrFun (congrArg Cpu.kc hCpu) s.runningProc).trans_ne hSaved
  · exact (kc_effect h hp hLt).trans_ne hSaved

/-- A step other than a continuation never leads to the user code of another
process. -/
theorem user_effect {label : Label} (h : Effect label s t) (hCall : label.isResume = false)
    (hMode : t.mode = .user) : s.mode = .user ∧ t.runningProc = s.runningProc := by
  cases cpu_effect h with
  | same hCpu => exact ⟨mode_of_cpu hCpu ▸ hMode, runningProc_of_cpu hCpu⟩
  | fork _ _ _ hCpu =>
      have hSame : t.mode = s.mode := congrArg Cpu.mode hCpu
      exact ⟨hSame ▸ hMode, congrArg Cpu.runningProc hCpu⟩
  | switch _ hResuming _ _ _ => simp [hMode] at hResuming
  | resume hResume _ => simp [hCall] at hResume

omit [Hardware] in
/-- Whoever waits was switched away with a context that waits there. -/
def Waiting (s : Kernel) : Prop :=
  ∀ a : Place, a.isBlocked = true → ∀ p ∈ s.contents a,
    ∃ kc, (s.pcb p).kc = some kc ∧ kc.WaitsAt a

/-- A process that waits is not on the processor. -/
theorem ne_running (h : KernelStart.Sound s) (ha : a.isBlocked = true) (hp : p ∈ s.contents a) :
    p ≠ s.runningProc := by
  rintro rfl
  have hLive : s.Live s.runningProc := h.settled.placement.live_of_mem hp
  have hCpu : s.runningProc ∈ s.contents .cpu := by
    rw [contents, onCpu, if_neg hLive.1]
    simp
  have hSame := h.settled.placement.placed.unique hp hCpu
  subst hSame
  cases ha

theorem Waiting.effect {label : Label} (hWaiting : s.Waiting) (h : KernelStart.Sound s) (hEffect : Effect label s t) :
    t.Waiting := by
  obtain ⟨others, hOutcome⟩ := h.settled.effect h.contexts hEffect
  have hKeep {b : Place} {p : Proc} (hb : b.isBlocked = true) (hp : p ∈ s.contents b) :
      ∃ kc, (t.pcb p).kc = some kc ∧ kc.WaitsAt b := by
    have hLive : s.Live p := h.settled.placement.live_of_mem hp
    rw [kc_effect hEffect (ne_running h hb hp) hLive.2.1]
    exact hWaiting b hb p hp
  intro a ha p hp
  rw [hOutcome.settled.contents_eq] at hp
  rcases hOutcome.arrivals a ha p hp with hOld | hNew
  · exact hKeep ha hOld
  · cases hNew with
    | block _ hKc hAt => exact ⟨_, hKc, hAt⟩
    | own hWriter => exact hKeep (b := .queue (.writer _)) rfl hWriter
    | signalled hWaiter =>
        obtain ⟨kc, hKc, hAt⟩ := hKeep (b := .queue (.cvar _)) rfl hWaiter
        exact ⟨kc, hKc, Or.inr (Or.inr hAt)⟩

/-- A process inside a call waits where the call makes it wait, or it is ready
or on the processor. -/
theorem Waiting.place (hWaiting : s.Waiting) (h : KernelStart.Sound s) (hInside : s.Inside p kc) :
    p ∈ s.contents (.queue (.sched .main)) ∨ p ∈ s.contents .cpu ∨
      ∃ a, a.isBlocked = true ∧ p ∈ s.contents a ∧ kc.WaitsAt a := by
  obtain ⟨a, ha⟩ := (h.settled.placement.live p).mpr hInside.1
  cases hBlocked : a.isBlocked with
  | true =>
      obtain ⟨kc', hKc, hAt⟩ := hWaiting a hBlocked p ha
      obtain rfl := Option.some.inj (hInside.2.1.symm.trans hKc)
      exact Or.inr (Or.inr ⟨a, hBlocked, ha, hAt⟩)
  | false =>
      cases a with
      | cpu => exact Or.inr (Or.inl ha)
      | hand => cases ha
      | sleeping | transmitting id => cases hBlocked
      | queue q =>
          cases q with
          | sched type =>
              cases type with
              | main => exact Or.inl ha
              | waitBlocking | ioBlocking => cases hBlocked
          | lock id | cvar id | pipe id | writer id | reader id => cases hBlocked

/-- Reading a line moves nobody. -/
theorem contents_read (h : KernelStart.Sound s) (id len : Nat) : (s.read id len).contents = s.contents := by
  have hCpu : (s.read id len).cpu = s.cpu := by simp [Kernel.read]
  exact (h.settled.of_inv (h.settled.read id len) hCpu rfl h.settled.hand).contents_eq

theorem Waiting.read (hWaiting : s.Waiting) (h : KernelStart.Sound s) (id len : Nat) :
    (s.read id len).Waiting := by
  have hCpu : (s.read id len).cpu = s.cpu := by simp [Kernel.read]
  intro a ha p hp
  rw [contents_read h] at hp
  rw [kc_of_cpu hCpu]
  exact hWaiting a ha p hp

omit [Hardware] in
/-- A read of a line changes the terminals only. -/
theorem read_eq (s : Kernel) (id len : Nat) : ∃ ttys lines trace,
    s.read id len = { s with ttys := ttys, lines := lines, trace := trace } := by
  unfold read consume
  dsimp only
  split
  · exact ⟨_, _, _, rfl⟩
  · split_ifs <;> exact ⟨_, _, _, rfl⟩

omit [Hardware] in
/-- The state in which a process starts to continue its call. -/
theorem inside_resumes (h : Resumes s t) : t.Inside p kc ↔ p ≠ s.runningProc ∧ s.Inside p kc := by
  cases h with
  | user => exact inside_user
  | read =>
      rw [← inside_user]
      obtain ⟨ttys, lines, trace, hRead⟩ := read_eq { s with mode := .user } _ _
      rw [hRead]
      rfl
  | written =>
      rw [← inside_user]
      exact inside_iff_of_cpu (cpu_ttyWriteReturn _ _) (live_ttyWriteReturn _ _)

theorem sound_resumes (o : Outcomes) (h : KernelStart.Sound s) (hMode : s.mode = .resuming) (hResumes : Resumes s t) :
    KernelStart.Sound t := by
  cases hResumes with
  | user => exact h.user
  | read => exact h.user.read _ _
  | @written id hKc =>
      have hWritten : Effect (.resume o) s _ := .written hMode hKc rfl
      exact h.effects hWritten.one

omit [Hardware] in
/-- The process is not on the processor, or it does not continue its call yet. -/
def Aside (s : Kernel) (label : Label) (p : Proc) : Prop :=
  p = s.runningProc → s.mode = .resuming ∧ label.isResume = false

omit [Hardware] in
/-- The process was left with this context and has not continued yet. -/
def Parked (s : Kernel) (p : Proc) (kc : Option KernelContext) : Prop :=
  (s.pcb p).kc = kc ∧ (p = s.runningProc → s.mode = .resuming)

theorem Parked.effect {label : Label} {saved : Option KernelContext} (h : s.Parked p saved) (hLt : p < s.numPcbs)
    (hAside : s.Aside label p) (hEffect : Effect label s t) : t.Parked p saved := by
  cases cpu_effect hEffect with
  | same hCpu =>
      refine ⟨(kc_of_cpu hCpu p).trans h.1, fun hp => ?_⟩
      rw [mode_of_cpu hCpu]
      exact h.2 (hp.trans (runningProc_of_cpu hCpu))
  | fork _ _ _ hCpu =>
      have hKc := congrFun (congrArg Cpu.kc hCpu) p
      have hRunning : t.runningProc = s.runningProc := congrArg Cpu.runningProc hCpu
      have hMode : t.mode = s.mode := congrArg Cpu.mode hCpu
      refine ⟨(hKc.trans (Function.update_of_ne hLt.ne _ _)).trans h.1, fun hp => ?_⟩
      rw [hMode]
      exact h.2 (hp.trans hRunning)
  | switch hUser hMode _ hOthers _ =>
      refine ⟨(hOthers p fun hp => ?_).1.trans h.1, fun _ => hMode⟩
      have hResuming := h.2 hp
      rw [hUser] at hResuming
      cases hResuming
  | resume hCall hCpu =>
      have hRunning : t.runningProc = s.runningProc := congrArg Cpu.runningProc hCpu
      refine ⟨(congrFun (congrArg Cpu.kc hCpu) p).trans h.1, fun hp => ?_⟩
      have hNot := (hAside (hp.trans hRunning)).2
      rw [hCall] at hNot
      cases hNot

/-- The buffer that such a process asked for stays the same. -/
theorem Parked.request {label : Label} {saved : Option KernelContext} (h : s.Parked p saved) (hLt : p < s.numPcbs)
    (hEffect : Effect label s t) : (t.pcb p).request = (s.pcb p).request := by
  cases cpu_effect hEffect with
  | same hCpu => exact request_of_cpu hCpu p
  | fork _ _ _ hCpu =>
      exact (congrFun (congrArg Cpu.request hCpu) p).trans (Function.update_of_ne hLt.ne _ _)
  | switch hUser _ _ hOthers _ =>
      refine (hOthers p fun hp => ?_).2
      have hResuming := h.2 hp
      rw [hUser] at hResuming
      cases hResuming
  | resume _ hCpu => exact congrFun (congrArg Cpu.request hCpu) p

/-- The invariant rule for a process that was left inside the kernel: it stays there in
every step but the one in which it continues, and what survives the effects in the
meantime survives the step. -/
theorem Parked.preserve {I : Kernel → Prop} {label : Label} {saved : Option KernelContext}
    (hEffect : ∀ label u v, KernelStart.Sound u → p < u.numPcbs → u.Parked p saved → u.Aside label p →
      Effect label u v → I u → I v)
    (hRead : ∀ u id len, KernelStart.Sound u → I u → I (u.read id len))
    (hUser : ∀ u, KernelStart.Sound u → I u → I { u with mode := .user })
    (h : KernelStart.Sound s) (hLt : p < s.numPcbs) (hParked : s.Parked p saved)
    (hOther : ¬(p = s.runningProc ∧ label.isResume = true)) (hInv : I s) (hStep : s.step label = .ok t) :
    p < t.numPcbs ∧ t.Parked p saved ∧ I t := by
  have hStay {label : Label} (hCall : label.isResume = false) {u v : Kernel} (h : KernelStart.Sound u)
      (hStep : Effect label u v) (hOld : p < u.numPcbs ∧ u.Parked p saved ∧ I u) :
      p < v.numPcbs ∧ v.Parked p saved ∧ I v := by
    have hAside : u.Aside label p := fun hp => ⟨hOld.2.1.2 hp, hCall⟩
    refine ⟨?_, hOld.2.1.effect hOld.1 hAside hStep, hEffect label u v h hOld.1 hOld.2.1 hAside hStep hOld.2.2⟩
    rcases (size_effect hStep).2 with hSize | ⟨_, _, _, _, hSize⟩
    · exact hSize ▸ hOld.1
    · exact hSize ▸ Nat.lt_succ_of_lt hOld.1
  have hLine {u : Kernel} {id len : Nat} (h : KernelStart.Sound u) (hOld : p < u.numPcbs ∧ u.Parked p saved ∧ I u) :
      p < (u.read id len).numPcbs ∧ (u.read id len).Parked p saved ∧ I (u.read id len) := by
    have hInv := hRead u id len h hOld.2.2
    obtain ⟨ttys, lines, trace, hEq⟩ := read_eq u id len
    rw [hEq] at hInv ⊢
    exact ⟨hOld.1, hOld.2.1, hInv⟩
  cases hCall : label.isResume with
  | false =>
      refine h.preserve (I := fun u => p < u.numPcbs ∧ u.Parked p saved ∧ I u)
        (fun u v hu hOld hStep => hStay hCall hu hStep hOld) ⟨hLt, hParked, hInv⟩ hStep
        (fun uc o id len _ _ hSaved hOld => hLine hSaved hOld) fun o id hLabel => ?_
      rw [hLabel] at hCall
      cases hCall
  | true =>
      cases label with
      | resume o =>
          unfold Kernel.step at hStep
          dsimp only at hStep
          split_ifs at hStep with hMode
          obtain ⟨u, hResumes, hEffects⟩ := resume_cases .math h.contexts hStep
          have hNe : p ≠ s.runningProc := fun hp => hOther ⟨hp, rfl⟩
          have hContinues : ({ s with mode := .user } : Kernel).Parked p saved := ⟨hParked.1, fun hp => absurd hp hNe⟩
          have hStart : p < u.numPcbs ∧ u.Parked p saved ∧ I u := by
            cases hResumes with
            | user => exact ⟨hLt, hContinues, hUser s h hInv⟩
            | read => exact hLine h.user ⟨hLt, hContinues, hUser s h hInv⟩
            | @written id hKc =>
                have hCpu := cpu_ttyWriteReturn { s with mode := .user } id
                refine ⟨?_, ⟨(kc_of_cpu hCpu p).trans hParked.1, fun hp => ?_⟩, ?_⟩
                · rw [numPcbs_of_cpu hCpu]
                  exact hLt
                · exact absurd (hp.trans (runningProc_of_cpu hCpu)) hNe
                · exact hEffect (.resume o) s _ h hLt hParked (fun hp => absurd hp hNe) (.written hMode hKc rfl) hInv
          have hSound := sound_resumes o h hMode hResumes
          clear hStep
          induction hEffects with
          | refl => exact hStart
          | tail hBefore hLast ih => exact hStay rfl (hSound.effects hBefore) hLast ih
      | _ => cases hCall

/-- A process that does not continue keeps its context. -/
theorem Parked.step {label : Label} {saved : Option KernelContext} (hParked : s.Parked p saved)
    (h : KernelStart.Sound s) (hLt : p < s.numPcbs) (hOther : ¬(p = s.runningProc ∧ label.isResume = true))
    (hStep : s.step label = .ok t) : t.Parked p saved :=
  (Parked.preserve (I := fun _ => True) (fun _ _ _ _ _ _ _ _ _ => trivial) (fun _ _ _ _ _ => trivial)
    (fun _ _ _ => trivial) h hLt hParked hOther trivial hStep).2.1

/-- And it keeps the buffer it asked for. -/
theorem Parked.request_step {label : Label} {saved : Option KernelContext} (hParked : s.Parked p saved)
    (h : KernelStart.Sound s) (hLt : p < s.numPcbs) (hOther : ¬(p = s.runningProc ∧ label.isResume = true))
    (hStep : s.step label = .ok t) : (t.pcb p).request = (s.pcb p).request := by
  refine (Parked.preserve (I := fun u => (u.pcb p).request = (s.pcb p).request) ?_ ?_ (fun _ _ hSame => hSame) h hLt
    hParked hOther rfl hStep).2.2
  · intro label u v _ hLt hParked _ hEffect hSame
    exact (hParked.request hLt hEffect).trans hSame
  · intro u id len _ hSame
    obtain ⟨ttys, lines, trace, hEq⟩ := read_eq u id len
    rw [hEq]
    exact hSame

omit [Hardware] in
/-- A process inside a call was left there. -/
theorem Inside.parked (hInside : s.Inside p kc) : s.Parked p (some kc) := ⟨hInside.2.1, hInside.2.2⟩

/-- The same rule for a process that is inside a call. -/
theorem Inside.preserve {I : Kernel → Prop} {label : Label}
    (hEffect : ∀ label u v, KernelStart.Sound u → u.Inside p kc → u.Aside label p → Effect label u v → I u → I v)
    (hRead : ∀ u id len, KernelStart.Sound u → I u → I (u.read id len))
    (hUser : ∀ u, KernelStart.Sound u → I u → I { u with mode := .user })
    (h : KernelStart.Sound s) (hInside : s.Inside p kc) (hOther : ¬(p = s.runningProc ∧ label.isResume = true))
    (hInv : I s) (hStep : s.step label = .ok t) : t.Inside p kc ∧ I t := by
  have hLast := Parked.preserve (I := fun u => u.Live p ∧ I u) (fun label u v hu _ hParked hAside hStep hOld => ?_)
    (fun u id len hu hOld => ⟨?_, hRead u id len hu hOld.2⟩) (fun u hu hOld => ⟨hOld.1, hUser u hu hOld.2⟩) h
    hInside.1.2.1 hInside.parked hOther ⟨hInside.1, hInv⟩ hStep
  · exact ⟨⟨hLast.2.2.1, hLast.2.1.1, hLast.2.1.2⟩, hLast.2.2.2⟩
  · have hOld' : u.Inside p kc := ⟨hOld.1, hParked.1, hParked.2⟩
    obtain ⟨others, hOutcome⟩ := hu.settled.effect hu.contexts hStep
    refine ⟨?_, hEffect label u v hu hOld' hAside hStep hOld.2⟩
    rcases hOutcome.entries.stay p kc hOld' with hStays | hContinues
    · exact hStays.1
    · have hNot := (hAside hContinues.1).2
      rw [hContinues.2] at hNot
      cases hNot
  · obtain ⟨ttys, lines, trace, hEq⟩ := read_eq u id len
    rw [hEq]
    exact hOld.1

/-- Nobody but the process that continues leaves the call it is inside. -/
theorem Inside.step {label : Label} (hInside : s.Inside p kc) (h : KernelStart.Sound s)
    (hOther : ¬(p = s.runningProc ∧ label.isResume = true)) (hStep : s.step label = .ok t) :
    t.Inside p kc :=
  (Inside.preserve (I := fun _ => True) (fun _ _ _ _ _ _ _ _ => trivial) (fun _ _ _ _ _ => trivial)
    (fun _ _ _ => trivial) h hInside hOther trivial hStep).1

end Kernel

namespace KernelStart

variable [Hardware] {s : Kernel}

/-- A process that blocks is inside the call it blocks in. -/
theorem Sound.inside_parked {label : Label} {parked t : Kernel} {kc : KernelContext} (h : Sound s)
    (hUser : s.inUser) (hParks : Parks label s kc parked) (hQuiet : Quiet parked t) :
    (t.switchAway kc).Inside s.runningProc kc := by
  obtain ⟨base, parkedLists, hInv, hFrame, hCpu, hHand, -⟩ := h.settled.parks hUser hParks
  obtain ⟨others, -, hSwitch⟩ := (hInv.quiet hQuiet).switchAway kc hCpu hHand
  have hLive : t.Live = parked.Live := funext fun p => propext (hQuiet.live_iff p)
  have hRunning : t.runningProc = s.runningProc := by
    rw [hQuiet.runningProc]
    rcases Kernel.cpu_parks hParks with ⟨hSame, -⟩ | ⟨_, _, _, _, _, _, hSame⟩
    · exact Kernel.runningProc_of_cpu hSame
    · exact congrArg Cpu.runningProc hSame
  have hSwitched := Kernel.cpu_switchAway t kc
  refine ⟨?_, ?_, fun _ => congrArg Cpu.mode hSwitched⟩
  · rw [hSwitch.live, hLive, hFrame.live]
    exact h.settled.live_running hUser
  · refine (congrFun (congrArg Cpu.kc hSwitched) s.runningProc).trans ?_
    rw [← hRunning]
    exact Function.update_self _ _ _

/-- At boot nobody waits. -/
theorem not_blocked_kernelStart (uctxt : UserContext) (early late : List Word) {a : Place} {p : Proc}
    (ha : a.isBlocked = true) : p ∉ (kernelStart uctxt early late).contents a := by
  obtain ⟨others, hSettled, hCalm⟩ := settled_kernelStart uctxt early late
  rw [hSettled.contents_eq, hCalm a ha]
  exact List.not_mem_nil

theorem waiting_reachable (run : system.Reachable s) : s.Waiting :=
  invariant (I := Kernel.Waiting)
    (fun uctxt early late _ ha _ hp => absurd hp (not_blocked_kernelStart uctxt early late ha))
    (fun _ _ _ h hWaiting hEffect => hWaiting.effect h hEffect)
    (fun _ id len h hWaiting => hWaiting.read h id len) (fun _ _ _ hWaiting _ _ => hWaiting) run

end KernelStart
end Yalnix
