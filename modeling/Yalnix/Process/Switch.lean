import Yalnix.Process.Effect

/-! The effects that change the processor view, and the saved contexts along
all effects. -/
namespace Yalnix

open Hardware

namespace Kernel

variable [Hardware] {s t : Kernel}

omit [Hardware] in
/-- `proc->kc` is saved. -/
theorem cpu_saveKc (s : Kernel) (p : Proc) (kc : Option KernelContext) :
    (s.modifyPcb p fun pcb => { pcb with kc := kc }).cpu =
      { s.cpu with kc := Function.update s.cpu.kc p kc } := by
  have hKc : (fun q => ((s.modifyPcb p fun pcb => { pcb with kc := kc }).pcb q).kc) =
      Function.update s.cpu.kc p kc := by
    funext q
    by_cases hq : q = p
    · subst hq
      simp [modifyPcb]
    · simp [modifyPcb, Function.update_of_ne hq, cpu]
  have hRequest : (fun q => ((s.modifyPcb p fun pcb => { pcb with kc := kc }).pcb q).request) =
      s.cpu.request := funext fun q => pcb_modifyPcb (v := Pcb.request) rfl q
  rw [cpu, hKc, hRequest]
  rfl

theorem cpu_fullContextSwitch (s : Kernel) (p next : Proc) (kc : KernelContext) :
    (s.fullContextSwitch (some (p, kc)) next).cpu =
      { s.cpu with
        mode := .resuming, runningProc := next, kc := Function.update s.cpu.kc p (some kc) } := by
  have hSave := cpu_saveKc (s.setMem (UserMemory.ucSwitch s.mem next)) p (some kc)
  rw [cpu_setMem] at hSave
  exact congrArg (fun c : Cpu => { c with mode := .resuming, runningProc := next }) hSave

theorem cpu_fullContextSwitch_none (s : Kernel) (next : Proc) :
    (s.fullContextSwitch none next).cpu =
      { s.cpu with mode := .resuming, runningProc := next } := rfl

@[simp] theorem devices_fullContextSwitch (s : Kernel) (curr : Option (Proc × KernelContext))
    (next : Proc) : (s.fullContextSwitch curr next).devices = s.devices := by
  cases curr with
  | none => rfl
  | some saved =>
      have hTransfer : (fun q => ((s.fullContextSwitch (some saved) next).pcb q).transfer) =
          fun q => (s.pcb q).transfer := by
        funext q
        by_cases hq : q = saved.1
        · subst hq
          simp [fullContextSwitch, modifyPcb, setMem, Pcb.transfer]
        · simp [fullContextSwitch, modifyPcb, setMem, Function.update_of_ne hq]
      rw [devices, hTransfer]
      rfl

theorem cpu_switchAway (s : Kernel) (kc : KernelContext) :
    (s.switchAway kc).cpu = { s.cpu with
      mode := .resuming
      runningProc := s.getNextProcess.2
      kc := Function.update s.cpu.kc s.runningProc (some kc) } := by
  rw [switchAway, cpu_fullContextSwitch, cpu_getNextProcess]

@[simp] theorem devices_switchAway (s : Kernel) (kc : KernelContext) :
    (s.switchAway kc).devices = s.devices := by
  rw [switchAway, devices_fullContextSwitch]
  exact devices_of_outside (outside_getNextProcess s)

/-- The clock either leaves the running process where it is or switches it
away with the context `clock`. -/
theorem cpu_preempt (s : Kernel) :
    s.preempt.cpu = s.cpu ∨ s.preempt.cpu = { s.cpu with
      mode := .resuming
      runningProc := (s.scheduleProcess s.runningProc).getNextProcess.2
      kc := Function.update s.cpu.kc s.runningProc (some .clock) } := by
  unfold preempt
  dsimp only
  split_ifs
  · right
    rw [cpu_fullContextSwitch, cpu_getNextProcess, cpu_scheduleProcess]
  · left
    rw [cpu_getNextProcess, cpu_scheduleProcess]

@[simp] theorem devices_preempt (s : Kernel) : s.preempt.devices = s.devices := by
  have h : (s.scheduleProcess s.runningProc).getNextProcess.1.devices = s.devices :=
    devices_of_outside ((outside_getNextProcess _).trans (outside_scheduleProcess _ _))
  unfold preempt
  dsimp only
  split_ifs
  · rw [devices_fullContextSwitch, h]
  · exact h

/-- The parts of an exit: choose the next process, mark the caller, release
its memory, detach its children, and switch. -/
theorem kernelExit_cases {code : Word} (h : s.kernelExit code = .ok t) :
    (s.pcb s.runningProc).pid ≠ 1 ∧ ∃ marked detached,
      marked = s.getNextProcess.1.modifyPcb s.runningProc (fun p =>
        { p with exitCode := code, state := .exited }) ∧
      Quiet marked detached ∧ t = detached.fullContextSwitch none s.getNextProcess.2 := by
  unfold kernelExit at h
  dsimp only at h
  split_ifs at h with hInit
  refine ⟨hInit, _, _, rfl, ?_, (Except.ok.inj h).symm⟩
  refine ((Quiet.emit _ (e := .exited s.runningProc code) trivial).trans (Quiet.setMem _ _)).trans
    (Quiet.retirePcb ?_)
  simp [modifyPcb, setMem, emit]

theorem cpu_kernelExit {code : Word} (h : s.kernelExit code = .ok t) :
    t.cpu = { s.cpu with mode := .resuming, runningProc := s.getNextProcess.2 } := by
  obtain ⟨-, marked, detached, rfl, hQuiet, rfl⟩ := kernelExit_cases h
  rw [cpu_fullContextSwitch_none, cpu_of_outside hQuiet.outside, cpu_modifyPcb rfl rfl,
    cpu_getNextProcess]

theorem devices_kernelExit {code : Word} (h : s.kernelExit code = .ok t) :
    t.devices = s.devices := by
  obtain ⟨-, marked, detached, rfl, hQuiet, rfl⟩ := kernelExit_cases h
  rw [devices_fullContextSwitch, devices_of_outside hQuiet.outside,
    devices_of_outside (outside_modifyPcb rfl rfl rfl),
    devices_of_outside (outside_getNextProcess s)]

omit [Hardware] in
/-- A control block with a parent and without children is not touched. -/
theorem retirePcb_eq {p : Proc} (hParent : (s.pcb p).relations.hasParent = true)
    (hChildren : (s.pcb p).relations.numChildren = 0) : s.retirePcb p = s := by
  simp [retirePcb, hParent, hChildren]

/-- `create_new_pcb` when all its allocations succeed. -/
theorem createNewPcb_eq {uc : UserContext} {o : Outcomes} {child : Proc}
    (h : s.createNewPcb uc o = (t, some child)) :
    child = s.numPcbs ∧ ∃ mem pcb, t = { s with
        mem := mem
        pcb := Function.update s.pcb s.numPcbs pcb
        next := Function.update s.next s.numPcbs none
        numPcbs := s.numPcbs + 1 } ∧
      pcb.pid = newPid s.numPcbs ∧ pcb.state = .ready ∧ pcb.freed = false ∧ pcb.kc = none ∧
      pcb.request = (0, 0) ∧ pcb.relations = ⟨true, fun _ => none, 0, childArrSize⟩ ∧
      pcb.transfer = ⟨[], 0, 0⟩ := by
  unfold createNewPcb at h
  dsimp only at h
  split_ifs at h
  · obtain ⟨rfl, hChild⟩ := Prod.mk.inj h
    exact ⟨(Option.some.inj hChild).symm, _, _, rfl, rfl, rfl, rfl, rfl, rfl, rfl, rfl⟩
  · simp at h

theorem quiet_forkLink (s : Kernel) (child : Proc) (o : Outcomes) :
    Quiet s (s.forkLink child o) :=
  (((Quiet.ret s _).trans (Quiet.setResult _ child 0)).trans
    ((Quiet.addChildProc _ s.runningProc child (o.alloc 4)).trans
      (Quiet.emit _ (e := .forked s.runningProc child) trivial))).trans (Quiet.setMem _ _)

theorem forkCommit_cases (s : Kernel) (child : Proc) (o : Outcomes) :
    ∃ cloned, Quiet ((s.forkLink child o).scheduleProcess child) cloned ∧
      (s.forkCommit child o = cloned ∨
        s.forkCommit child o = cloned.modifyPcb child fun p => { p with kc := some .fork }) := by
  refine ⟨_, Quiet.setMem _
    (KernelMemory.kcCopy ((s.forkLink child o).scheduleProcess child).mem child).1, ?_⟩
  unfold forkCommit
  dsimp only
  split_ifs
  · exact Or.inr rfl
  · exact Or.inl rfl

/-- A fork creates a control block and, after quiet changes, either frees it
again or puts it on the ready queue. -/
theorem kernelFork_cases {o : Outcomes} (h : s.kernelFork o = .ok t) :
    ∃ created copied,
      s.createNewPcb (s.pcb s.runningProc).uc o = (created, some s.numPcbs) ∧
      Quiet created copied ∧
        (t = copied.freePcb s.numPcbs ∨
          ∃ cloned, Quiet (copied.scheduleProcess s.numPcbs) cloned ∧
            (t = cloned ∨ t = cloned.modifyPcb s.numPcbs fun p => { p with kc := some .fork })) := by
  unfold kernelFork at h
  dsimp only at h
  split at h
  · cases h
  · rename_i created child hCreate
    obtain ⟨rfl, mem, pcb, hCreated, -, -, -, -, -, hPcb, -⟩ := createNewPcb_eq hCreate
    have hRelations : (created.pcb s.numPcbs).relations = ⟨true, fun _ => none, 0, childArrSize⟩ := by
      rw [hCreated, ← hPcb]
      simp
    obtain ⟨copied, -, h⟩ := Transition.bind_eq_ok.mp h
    refine ⟨created, ?_⟩
    split_ifs at h
    · have hUc : Quiet created ((created.setMem copied.1).modifyPcb s.numPcbs fun p =>
          { p with uc := (s.pcb s.runningProc).uc }) :=
        (Quiet.setMem created copied.1).trans (Quiet.modifyPcb rfl (Or.inl rfl) fun _ => rfl)
      obtain rfl := Except.ok.inj h
      exact ⟨_, hCreate, hUc.trans (quiet_forkLink _ s.numPcbs o),
        Or.inr (forkCommit_cases _ s.numPcbs o)⟩
    · obtain rfl := Except.ok.inj h
      have hSame : (((created.setMem copied.1).ret errorCode).pcb s.numPcbs).relations =
          (created.pcb s.numPcbs).relations := by
        unfold ret setResult
        exact pcb_modifyPcb rfl s.numPcbs
      rw [retirePcb_eq (by rw [hSame, hRelations]) (by rw [hSame, hRelations])]
      exact ⟨_, hCreate, (Quiet.setMem created copied.1).trans (Quiet.ret _ _), Or.inl rfl⟩

theorem cpu_createNewPcb {uc : UserContext} {o : Outcomes} {child : Proc}
    (h : s.createNewPcb uc o = (t, some child)) :
    t.cpu = { s.cpu with
      numPcbs := s.numPcbs + 1
      kc := Function.update s.cpu.kc s.numPcbs none
      request := Function.update s.cpu.request s.numPcbs (0, 0) } := by
  obtain ⟨-, mem, pcb, rfl, -, -, -, hKc, hRequest, -⟩ := createNewPcb_eq h
  simp only [cpu, Cpu.mk.injEq, true_and]
  constructor <;> funext q
  · by_cases hq : q = s.numPcbs
    · subst hq
      simp [hKc]
    · simp [Function.update_of_ne hq]
  · by_cases hq : q = s.numPcbs
    · subst hq
      simp [hRequest]
    · simp [Function.update_of_ne hq]

theorem cpu_kernelFork {o : Outcomes} (h : s.kernelFork o = .ok t) :
    ∃ kc, (kc = none ∨ kc = some .fork) ∧ t.cpu = { s.cpu with
      numPcbs := s.numPcbs + 1
      kc := Function.update s.cpu.kc s.numPcbs kc
      request := Function.update s.cpu.request s.numPcbs (0, 0) } := by
  obtain ⟨created, copied, hCreate, hCopied, hResult⟩ := kernelFork_cases h
  have hCreated := cpu_createNewPcb hCreate
  rw [← cpu_of_outside hCopied.outside] at hCreated
  rcases hResult with rfl | ⟨cloned, hCloned, hResult⟩
  · exact ⟨none, Or.inl rfl, by rw [cpu_of_outside (outside_freePcb _ _), hCreated]⟩
  · rw [← cpu_scheduleProcess copied s.numPcbs, ← cpu_of_outside hCloned.outside] at hCreated
    rcases hResult with rfl | rfl
    · exact ⟨none, Or.inl rfl, hCreated⟩
    · refine ⟨some .fork, Or.inr rfl, ?_⟩
      rw [cpu_saveKc, hCreated]
      simp

/-- A fork leaves the devices alone; the new process has no transfer. -/
theorem devices_kernelFork {o : Outcomes} (h : s.kernelFork o = .ok t) :
    t.devices = { s.devices with
      transfer := Function.update s.devices.transfer s.numPcbs ⟨[], 0, 0⟩ } := by
  obtain ⟨created, copied, hCreate, hCopied, hResult⟩ := kernelFork_cases h
  have hCreated : created.devices = { s.devices with
      transfer := Function.update s.devices.transfer s.numPcbs ⟨[], 0, 0⟩ } := by
    obtain ⟨-, mem, pcb, rfl, -, -, -, -, -, -, hTransfer⟩ := createNewPcb_eq hCreate
    simp only [devices, Devices.mk.injEq, true_and, and_true]
    funext q
    by_cases hq : q = s.numPcbs
    · subst hq
      simp [hTransfer]
    · simp [Function.update_of_ne hq]
  rw [← devices_of_outside hCopied.outside] at hCreated
  rcases hResult with rfl | ⟨cloned, hCloned, hResult⟩
  · rw [← hCreated]
    exact devices_of_outside (outside_freePcb _ _)
  · rw [← devices_of_outside (outside_scheduleProcess copied s.numPcbs),
      ← devices_of_outside hCloned.outside] at hCreated
    rcases hResult with rfl | rfl
    · exact hCreated
    · rw [← hCreated]
      simp only [devices, pcb_modifyPcb (v := Pcb.transfer) (s := cloned) (p := s.numPcbs)
        (f := fun p => { p with kc := some .fork }) rfl]
      rfl

omit [Hardware] in
@[simp] theorem cpu_ttyRecord (s : Kernel) (id : Nat) (bytes : List Byte) :
    (s.ttyRecord id bytes).cpu = s.cpu := by
  rw [ttyRecord, cpu_emit]
  exact cpu_modifyPcb rfl rfl

theorem cpu_ttyWriteBlock (s : Kernel) (id : Nat) (bytes : List Byte) :
    (s.ttyWriteBlock id bytes).cpu = s.cpu := by
  unfold ttyWriteBlock
  dsimp only
  rw [cpu_setState]
  split
  · rw [cpu_startChunk, cpu_setTty, cpu_ttyRecord]
  · exact cpu_ttyRecord s id bytes

omit [Hardware] in
theorem cpu_ttyWriteReturn (s : Kernel) (id : Nat) : (s.ttyWriteReturn id).cpu = s.cpu := by
  unfold ttyWriteReturn
  dsimp only
  rw [cpu_emit, cpu_of_outside (Quiet.ret _ _).outside]
  exact cpu_modifyPcb rfl rfl

omit [Hardware] in
theorem cpu_ttyReadBlock (s : Kernel) (id : Nat) (buf : Word) (len : Nat) :
    (s.ttyReadBlock id buf len).cpu =
      { s.cpu with request := Function.update s.cpu.request s.runningProc (buf, len) } := by
  unfold ttyReadBlock
  dsimp only
  rw [cpu_setState]
  have hKc : (fun q => ((s.modifyPcb s.runningProc fun p => { p with
      ioUserBuf := buf, ioLen := len, ioTtyId := id }).pcb q).kc) = s.cpu.kc :=
    funext fun q => pcb_modifyPcb (v := Pcb.kc) rfl q
  have hRequest : (fun q => ((s.modifyPcb s.runningProc fun p => { p with
      ioUserBuf := buf, ioLen := len, ioTtyId := id }).pcb q).request) =
      Function.update s.cpu.request s.runningProc (buf, len) := by
    funext q
    by_cases hq : q = s.runningProc
    · subst hq
      simp [modifyPcb, Pcb.request]
    · simp [modifyPcb, Function.update_of_ne hq, cpu]
  rw [← hKc, ← hRequest]
  rfl

/-- Joining a container changes nothing on the processor, except that a
terminal read records its buffer. -/
theorem cpu_parks {label : Label} {kc : KernelContext} (h : Parks label s kc t) :
    t.cpu = s.cpu ∧ (∀ request, kc.Valid request) ∨
      ∃ buf len id, (0 < len ∧ len < 2 ^ 31) ∧ id < numTerminals ∧ kc = .ttyRead id ∧
        t.cpu = { s.cpu with request := Function.update s.cpu.request s.runningProc (buf, len) } := by
  cases h with
  | sleep h =>
      exact Or.inl ⟨cpu_of_outside (outside_fst (outside_putToSleep s _ _ _) h), fun _ => trivial⟩
  | wait => exact Or.inl ⟨cpu_of_outside (outside_waitBlockProcess s _), fun _ => trivial⟩
  | lock hKc h =>
      refine Or.inl ⟨cpu_of_outside (outside_fst (outside_acquire s _ _ _) h), fun _ => ?_⟩
      rcases hKc with rfl | rfl <;> trivial
  | cvar _ h =>
      exact Or.inl ⟨cpu_of_outside (outside_fst (outside_waitCvar s _ _ _) h), fun _ => trivial⟩
  | pipe hPipe hEmpty hLen => exact Or.inl ⟨cpu_setState _ _ _, fun _ => hLen⟩
  | ttyRead hId hEmpty hLen =>
      exact Or.inr ⟨_, _, _, hLen, hId, rfl, cpu_ttyReadBlock s _ _ _⟩
  | ttyWrite hId hBytes => exact Or.inl ⟨cpu_ttyWriteBlock s _ _, fun _ => hId⟩

end Kernel

namespace Contexts

variable [Hardware] {c : Cpu}

/-- A switch keeps the contexts valid if the one it saves is. -/
theorem switch (h : Contexts c) {kc : KernelContext} {next : Proc}
    (hIdle : c.runningProc = c.idleProc → kc = .clock) (hValid : kc.Valid (c.request c.runningProc)) :
    Contexts { c with
      mode := .resuming, runningProc := next, kc := Function.update c.kc c.runningProc (some kc) } where
  idle_lt := h.idle_lt
  idle kc' hKc := by
    dsimp only at hKc
    by_cases he : c.idleProc = c.runningProc
    · rw [he, Function.update_self] at hKc
      rw [← Option.some.inj hKc]
      exact hIdle he.symm
    · rw [Function.update_of_ne he] at hKc
      exact h.idle kc' hKc
  valid p kc' hKc := by
    dsimp only at hKc
    by_cases he : p = c.runningProc
    · subst he
      rw [Function.update_self] at hKc
      rw [← Option.some.inj hKc]
      exact hValid
    · rw [Function.update_of_ne he] at hKc
      exact h.valid p kc' hKc

theorem request (h : Contexts c) {p : Proc} {buf : Word} {len : Nat} (hLen : 0 < len ∧ len < 2 ^ 31) :
    Contexts { c with request := Function.update c.request p (buf, len) } where
  idle_lt := h.idle_lt
  idle := h.idle
  valid q kc hKc := by
    have hValid := h.valid q kc hKc
    by_cases he : q = p
    · subst he
      cases kc <;> simp_all [KernelContext.Valid]
    · simpa [Function.update_of_ne he] using hValid

theorem spawn (h : Contexts c) {kc : Option KernelContext} {request : Word × Nat}
    (hKc : kc = none ∨ kc = some .fork) :
    Contexts { c with
      numPcbs := c.numPcbs + 1
      kc := Function.update c.kc c.numPcbs kc
      request := Function.update c.request c.numPcbs request } where
  idle_lt := Nat.lt_succ_of_lt h.idle_lt
  idle kc' hKc' := by
    dsimp only at hKc'
    rw [Function.update_of_ne (Nat.ne_of_lt h.idle_lt)] at hKc'
    exact h.idle kc' hKc'
  valid p kc' hKc' := by
    dsimp only at hKc' ⊢
    by_cases he : p = c.numPcbs
    · subst he
      rw [Function.update_self] at hKc'
      rcases hKc with rfl | rfl <;> cases hKc'
      trivial
    · rw [Function.update_of_ne he] at hKc' ⊢
      exact h.valid p kc' hKc'

end Contexts

open Kernel in
theorem Effect.contexts {label : Label} [Hardware] {s t : Kernel} (h : Effect label s t) (hContexts : Contexts s.cpu) :
    Contexts t.cpu := by
  cases h with
  | quiet hQuiet => rwa [cpu_of_outside hQuiet.outside]
  | ticked => rwa [cpu_of_outside (Quiet.ticked s).outside]
  | reap _ _ hFound => rwa [cpu_of_outside (Quiet.findExitedChild hFound).outside]
  | @block parked u kc hUser hParks hQuiet =>
      rw [cpu_switchAway, runningProc_of_cpu (cpu_of_outside hQuiet.outside),
        cpu_of_outside hQuiet.outside]
      rcases cpu_parks hParks with ⟨hCpu, hValid⟩ | ⟨buf, len, id, hLen, hId, rfl, hCpu⟩
      · rw [hCpu, runningProc_of_cpu hCpu]
        exact hContexts.switch (fun he => absurd he hUser.2) (hValid _)
      · have hRunning : parked.runningProc = s.runningProc := congrArg Cpu.runningProc hCpu
        rw [hCpu, hRunning]
        refine (hContexts.request hLen).switch (fun he => absurd he hUser.2) ⟨hId, ?_⟩
        simpa [cpu] using hLen
  | sleepless _ h => rwa [cpu_of_outside (outside_fst (outside_putToSleep s _ _ _) h)]
  | preempt hMode =>
      rcases cpu_preempt s with hCpu | hCpu
      · rwa [hCpu]
      · rw [hCpu]
        exact hContexts.switch (fun _ => rfl) trivial
  | exit hUser h =>
      rw [cpu_kernelExit h]
      exact ⟨hContexts.idle_lt, hContexts.idle, hContexts.valid⟩
  | fork hUser h =>
      obtain ⟨kc, hKc, hCpu⟩ := cpu_kernelFork h
      rw [hCpu]
      exact hContexts.spawn hKc
  | newLock => rwa [cpu_of_outside (outside_newLock s _ _ _)]
  | newCvar => rwa [cpu_of_outside (outside_newCvar s _)]
  | newPipe => rwa [cpu_newPipe]
  | deleteLock => rwa [cpu_of_outside (outside_deleteLock s _ _)]
  | deleteCvar => rwa [cpu_of_outside (outside_deleteCvar s _ _)]
  | pipeReclaim => rwa [cpu_pipeReclaim]
  | acquire _ h => rwa [cpu_of_outside (outside_fst (outside_acquire s _ _ _) h)]
  | release _ _ h => rwa [cpu_of_outside (outside_fst (outside_release s _ _ _) h)]
  | signal h =>
      rwa [cpu_of_outside (outside_reacquire _ _),
        cpu_of_outside (outside_fst (outside_popCvar s _) h)]
  | pipeRead => exact hContexts
  | pipeWrite =>
      rw [cpu_wakeReaders]
      exact hContexts
  | wakeWaiter h =>
      rwa [cpu_scheduleProcess, cpu_of_outside (outside_fst (outside_findWaiter s _) h)]
  | wakeSleeper _ _ h =>
      rw [cpu_emit, cpu_of_outside (outside_enqueProcess _ _ _),
        cpu_of_outside (outside_fst (outside_removeFromHeap s _) h)]
      exact hContexts
  | transmitted => rwa [cpu_ttyTransmitDone]
  | received => rwa [cpu_ttyReceiveDone]
  | resumed => exact ⟨hContexts.idle_lt, hContexts.idle, hContexts.valid⟩
  | written =>
      rw [cpu_ttyWriteReturn]
      exact ⟨hContexts.idle_lt, hContexts.idle, hContexts.valid⟩

end Yalnix
