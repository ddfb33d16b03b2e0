import Yalnix.Process.Effect

/-! The decomposition of every trap into effects. -/
namespace Yalnix

open Hardware Relation Transition

theorem Quiet.inUser {s t : Kernel} (h : Quiet s t) (hUser : s.inUser) : t.inUser := by
  simpa [Kernel.inUser, h.mode, h.runningProc, h.idleProc] using hUser

namespace Kernel

variable [Hardware] {s t : Kernel} {o : Outcomes} {label : Label}

/-- A computation that ends in a store to user memory and a result. -/
theorem effects_store {mem : Except Stop Memory} {f : Memory → Kernel} (hMode : s.mode = .user)
    (hQuiet : ∀ m, Silent s (f m)) (h : (do let m ← mem; return f m) = Except.ok t) :
    Effects label s t := by
  obtain ⟨m, -, hResult⟩ := bind_eq_ok.mp h
  obtain rfl := Except.ok.inj hResult
  exact (hQuiet m).effects hMode

theorem effects_storeId {addr id : Word} (hMode : s.mode = .user) (h : s.storeId addr id = .ok t) :
    Effects label s t :=
  effects_store hMode (fun m => (Silent.setMem s m).trans (Silent.ret _ _)) h

theorem effects_ret {value : Word} (hMode : s.mode = .user)
    (h : Except.ok (s.ret value) = (Except.ok t : Except Stop Kernel)) : Effects label s t := by
  obtain rfl := Except.ok.inj h
  exact (Silent.ret s value).effects hMode

/-- A handler that was switched away from does not leave the kernel. -/
theorem effects_leave (s : Kernel) : Effects label s s.leave := by
  cases hMode : s.mode with
  | user => exact (Silent.leave s).effects hMode
  | resuming =>
      have hSame : s.leave = s := by simp [leave, hMode]
      rw [hSame]

omit [Hardware] in
theorem mode_read (s : Kernel) (id len : Nat) : (s.read id len).mode = s.mode := by
  have hCpu : (s.read id len).cpu = s.cpu := by simp [Kernel.read]
  exact mode_of_cpu hCpu

theorem effects_kernelDelay (hUser : s.inUser) (o : Outcomes) : Effects label s (s.kernelDelay o) := by
  unfold kernelDelay
  dsimp only
  by_cases hTicks : (s.reg 0).toInt ≤ 0
  · rw [if_pos hTicks]
    exact (Silent.ret s _).effects hUser.1
  · rw [if_neg hTicks]
    split
    · rename_i parked hPark
      exact (Effect.block hUser (.sleep hPark) (Silent.ret _ _)).one
    · rename_i failed hPark
      have hMode := mode_of_cpu (cpu_of_outside (outside_fst (outside_putToSleep s _ _ _) hPark))
      exact .trans (Effect.sleepless hUser hPark).one ((Silent.ret _ _).effects (hMode.trans hUser.1))

theorem effects_kernelExec (hUser : s.inUser) (hCall : label.exits = true)
    (h : s.kernelExec o = .ok t) : Effects label s t := by
  simp only [kernelExec, bind_eq_ok] at h
  obtain ⟨args, -, h⟩ := h
  cases args with
  | none => exact effects_ret hUser.1 h
  | some args =>
      obtain ⟨loaded, -, h⟩ := bind_eq_ok.mp h
      have hQuiet : Silent s ((s.setMem loaded.mem).modifyPcb s.runningProc fun p =>
          { p with uc := loaded.uc }) :=
        (Silent.setMem s _).trans (Silent.saveUc _ _)
      refine ReflTransGen.trans (hQuiet.effects hUser.1) ?_
      cases hResult : loaded.result with
      | kill =>
          simp only [hResult] at h
          exact (Effect.exit (hQuiet.inUser hUser) h hCall).one
      | error =>
          simp only [hResult] at h
          exact effects_ret (hQuiet.inUser hUser).1 h
      | success =>
          simp only [hResult] at h
          obtain rfl := Except.ok.inj h
          exact .refl

theorem effects_kernelWait (hUser : s.inUser) (hCall : label.waits ≠ none) (h : s.kernelWait o = .ok t) : Effects label s t := by
  unfold kernelWait at h
  dsimp only at h
  split at h
  · obtain rfl := Except.ok.inj h
    exact (Effect.block hUser .wait (Silent.refl _)).one
  · rename_i found code hFound
    refine ReflTransGen.trans (Effect.reap hUser hCall hFound).one ?_
    have hMode := ((Quiet.findExitedChild hFound).inUser hUser).1
    split_ifs at h
    · exact effects_ret hMode h
    · exact effects_store hMode (fun m => (Silent.setMem _ m).trans (Silent.ret _ _)) h

theorem effects_waitReturn (hMode : s.mode = .user) (h : s.waitReturn = .ok t) : Effects label s t := by
  unfold waitReturn at h
  split_ifs at h
  · exact effects_ret hMode h
  · exact effects_store hMode (fun m => (Silent.setMem _ m).trans (Silent.ret _ _)) h

theorem effects_bootReturn (hMode : s.mode = .user) (h : s.bootReturn o = .ok t) : Effects label s t := by
  simp only [bootReturn, bind_eq_ok] at h
  obtain ⟨loaded, -, h⟩ := h
  split at h
  · obtain rfl := Except.ok.inj h
    exact ((Silent.setMem s _).trans (Silent.saveUc _ _)).effects hMode
  · cases h

omit [Hardware] in
theorem eq_of_acquire_error {id : Nat} {proc : Proc} {cvarUse : Bool}
    (h : s.acquire id proc cvarUse = (t, .error)) : t = s := by
  unfold acquire at h
  dsimp only at h
  split_ifs at h <;> cases h
  rfl

theorem effects_acquireImpl (hUser : s.inUser) (isId : Word → Bool) {kc : Nat → KernelContext}
    (hKc : ∀ id, kc id = .acquire id ∨ kc id = .semDown id)
    (hCall : isId (s.reg 0) = true → label.locks = some (Identifiers.getId (s.reg 0))) :
    Effects label s (s.acquireImpl isId kc) := by
  unfold acquireImpl
  dsimp only
  split_ifs with hId
  · exact (Silent.ret s _).effects hUser.1
  · split
    · rename_i u hAcquire
      obtain rfl := eq_of_acquire_error hAcquire
      exact (Silent.ret u _).effects hUser.1
    · rename_i u hAcquire
      have hMode := mode_of_cpu (cpu_of_outside (outside_fst (outside_acquire s _ _ _) hAcquire))
      exact .trans (Effect.acquire hUser hAcquire).one ((Silent.ret _ _).effects (hMode.trans hUser.1))
    · rename_i u hAcquire
      refine (Effect.block hUser (.lock (hKc _) hAcquire) (Silent.ret _ _) fun id hId' => ?_).one
      have hSame : id = Identifiers.getId (s.reg 0) := by
        rcases hKc (Identifiers.getId (s.reg 0)) with hEq | hEq <;> rw [hEq] at hId' <;>
          exact (by simpa using hId' : _ = id).symm
      rw [hSame]
      exact hCall (by simpa using hId)

omit [Hardware] in
theorem eq_of_release_false {id : Nat} {proc : Proc} {cvarUse : Bool}
    (h : s.release id proc cvarUse = (t, false)) : t = s := by
  unfold release at h
  dsimp only at h
  split at h
  · exact (Prod.mk.inj h).1.symm
  · split at h <;> simp at h

theorem effects_releaseImpl (hUser : s.inUser) (isId : Word → Bool)
    (hCall : isId (s.reg 0) = true → label.releases = some (Identifiers.getId (s.reg 0))) :
    Effects label s (s.releaseImpl isId) := by
  unfold releaseImpl
  dsimp only
  split_ifs with hId
  · exact (Silent.ret s _).effects hUser.1
  · have hMode := mode_of_cpu (cpu_of_outside
      (outside_release s (Identifiers.getId (s.reg 0)) s.runningProc false))
    refine ReflTransGen.trans ?_ ((Silent.retBool _ _).effects (hMode.trans hUser.1))
    cases hRelease : s.release (Identifiers.getId (s.reg 0)) s.runningProc false with
    | mk u ok =>
        cases ok with
        | false =>
            obtain rfl := eq_of_release_false hRelease
            exact .refl
        | true => exact (Effect.release hUser (hCall (by simpa using hId)) hRelease).one

/-- The init calls: create an object, then store its identifier. -/
theorem effects_init {created : Kernel × Option Nat} {addr flag : Word}
    (hCreated : Effect label s created.1) (hMode : created.1.mode = .user)
    (h : (match created with
      | (u, none) => .ok (u.ret errorCode)
      | (u, some id) => u.storeId addr (Identifiers.createId flag id)) = Except.ok t) :
    Effects label s t := by
  obtain ⟨u, result⟩ := created
  refine ReflTransGen.trans hCreated.one ?_
  cases result with
  | none => exact effects_ret hMode h
  | some id => exact effects_storeId hMode h

theorem effects_kernelLockInit (hMode : s.mode = .user) (hCall : label.capacity = some 1)
    (h : s.kernelLockInit o = .ok t) : Effects label s t := by
  unfold kernelLockInit at h
  dsimp only at h
  split_ifs at h
  · exact effects_ret hMode h
  · exact effects_init (.newLock Nat.one_pos hCall)
      ((mode_of_cpu (cpu_of_outside (outside_newLock s _ _ _))).trans hMode) h

theorem effects_kernelSemInit (hMode : s.mode = .user) (hCall : label.capacity = some (s.reg 1).toInt.toNat)
    (h : s.kernelSemInit o = .ok t) : Effects label s t := by
  unfold kernelSemInit at h
  dsimp only at h
  split_ifs at h with hArgs
  · exact effects_ret hMode h
  · exact effects_init (.newLock (by omega) hCall)
      ((mode_of_cpu (cpu_of_outside (outside_newLock s _ _ _))).trans hMode) h

theorem effects_kernelCvarInit (hMode : s.mode = .user) (hCall : label.creates = some .cvar)
    (h : s.kernelCvarInit o = .ok t) :
    Effects label s t := by
  unfold kernelCvarInit at h
  dsimp only at h
  split_ifs at h
  · exact effects_ret hMode h
  · exact effects_init (.newCvar hCall) hMode h

theorem effects_kernelPipeInit (hMode : s.mode = .user) (hCall : label.creates = some .pipe)
    (h : s.kernelPipeInit o = .ok t) :
    Effects label s t := by
  unfold kernelPipeInit at h
  dsimp only at h
  split_ifs at h
  · exact effects_ret hMode h
  · exact effects_init (.newPipe hCall) ((mode_of_cpu (cpu_newPipe s _ _)).trans hMode) h

omit [Hardware] in
theorem eq_of_waitCvar_false {cvarId lockId : Nat} {proc : Proc}
    (h : s.waitCvar cvarId lockId proc = (t, false)) : t = s := by
  unfold waitCvar at h
  split_ifs at h
  · exact (Prod.mk.inj h).1.symm
  · split at h
    · rename_i u hRelease
      exact (Prod.mk.inj h).1.symm.trans (eq_of_release_false hRelease)
    · simp at h

theorem effects_kernelCvarWait (hUser : s.inUser)
    (hCall : Identifiers.isCvarId (s.reg 0) = true → Identifiers.isLockId (s.reg 1) = true →
      label.waitsWith = some (Identifiers.getId (s.reg 1))) : Effects label s s.kernelCvarWait := by
  unfold kernelCvarWait
  dsimp only
  split_ifs with hArgs
  · exact (Silent.ret s _).effects hUser.1
  · split
    · rename_i u hWait
      simp only [not_or, Bool.not_eq_false] at hArgs
      exact (Effect.block hUser (.cvar (hCall hArgs.1 hArgs.2) hWait) (Silent.ret _ _)).one
    · rename_i u hWait
      obtain rfl := eq_of_waitCvar_false hWait
      exact (Silent.ret u _).effects hUser.1

omit [Hardware] in
theorem eq_of_popCvar_none {id : Nat} (h : s.popCvar id = (t, none)) : t = s := by
  unfold popCvar at h
  dsimp only at h
  split at h
  · exact (Prod.mk.inj h).1.symm
  · simp at h

omit [Hardware] in
theorem mode_signalCvar (s : Kernel) (id : Nat) : (s.signalCvar id).1.mode = s.mode := by
  have hPop := outside_popCvar s id
  unfold signalCvar
  split_ifs
  · rfl
  · split
    · rename_i u hNone
      rw [hNone] at hPop
      exact mode_of_cpu (cpu_of_outside hPop)
    · rename_i u waiter hSome
      rw [hSome] at hPop
      exact mode_of_cpu (cpu_of_outside ((outside_reacquire u waiter).trans hPop))

theorem effects_kernelCvarSignal (hMode : s.mode = .user) : Effects label s s.kernelCvarSignal := by
  unfold kernelCvarSignal
  dsimp only
  split_ifs
  · exact (Silent.ret s _).effects hMode
  · refine ReflTransGen.trans ?_ ((Silent.retBool _ _).effects ((mode_signalCvar s _).trans hMode))
    unfold signalCvar
    split_ifs
    · exact .refl
    · split
      · rename_i u hPop
        obtain rfl := eq_of_popCvar_none hPop
        exact .refl
      · rename_i u waiter hPop
        exact (Effect.signal hPop).one

omit [Hardware] in
theorem mode_broadcastLoop (s : Kernel) (id fuel : Nat) : (s.broadcastLoop id fuel).mode = s.mode := by
  induction fuel generalizing s with
  | zero => rfl
  | succ fuel ih =>
      have hPop := outside_popCvar s id
      unfold broadcastLoop
      split
      · rename_i u hNone
        rw [hNone] at hPop
        exact mode_of_cpu (cpu_of_outside hPop)
      · rename_i u waiter hSome
        rw [hSome] at hPop
        rw [ih]
        exact mode_of_cpu (cpu_of_outside ((outside_reacquire u waiter).trans hPop))

theorem effects_broadcastLoop (s : Kernel) (id fuel : Nat) : Effects label s (s.broadcastLoop id fuel) := by
  induction fuel generalizing s with
  | zero => exact .refl
  | succ fuel ih =>
      unfold broadcastLoop
      split
      · rename_i u hPop
        obtain rfl := eq_of_popCvar_none hPop
        exact .refl
      · rename_i u waiter hPop
        exact .trans (Effect.signal hPop).one (ih _)

theorem effects_kernelCvarBroadcast (hMode : s.mode = .user) : Effects label s s.kernelCvarBroadcast := by
  unfold kernelCvarBroadcast
  dsimp only
  split_ifs
  · exact (Silent.ret s _).effects hMode
  · unfold broadcastCvar
    split_ifs
    · exact (Silent.retBool s _).effects hMode
    · exact .trans (effects_broadcastLoop _ _ _)
        ((Silent.retBool _ _).effects ((mode_broadcastLoop s _ _).trans hMode))

theorem effects_kernelReclaim (hMode : s.mode = .user) (o : Outcomes) :
    Effects label s (s.kernelReclaim o) := by
  unfold kernelReclaim
  dsimp only
  split_ifs
  · exact .trans Effect.deleteLock.one ((Silent.retBool _ _).effects
      ((mode_of_cpu (cpu_of_outside (outside_deleteLock s _ _))).trans hMode))
  · exact .trans Effect.pipeReclaim.one ((Silent.retBool _ _).effects
      ((mode_of_cpu (cpu_pipeReclaim s _)).trans hMode))
  · exact .trans Effect.deleteCvar.one ((Silent.retBool _ _).effects
      ((mode_of_cpu (cpu_of_outside (outside_deleteCvar s _ _))).trans hMode))
  · exact (Silent.retBool s _).effects hMode

theorem effects_pipeReadLoop (hUser : s.inUser) {id len : Nat} {buf : Word} (hLen : 0 < len)
    (h : s.pipeReadLoop id buf len = .ok t) : Effects label s t := by
  unfold pipeReadLoop at h
  split at h
  · exact effects_ret hUser.1 h
  · rename_i pipe hPipe
    split_ifs at h with hEmpty
    · obtain rfl := Except.ok.inj h
      exact (Effect.block hUser (.pipe hPipe hEmpty hLen) (Silent.refl _)).one
    · obtain ⟨mem, -, h⟩ := bind_eq_ok.mp h
      obtain rfl := Except.ok.inj h
      exact .trans (Effect.pipeRead hPipe hEmpty hLen).one
        (((Silent.setMem _ mem).trans (Silent.ret _ _)).effects hUser.1)

theorem effects_pipeReadImpl (hUser : s.inUser) (h : s.pipeReadImpl = .ok t) : Effects label s t := by
  unfold pipeReadImpl at h
  dsimp only at h
  split_ifs at h with hArgs hZero
  · exact effects_ret hUser.1 h
  · exact effects_ret hUser.1 h
  · exact effects_pipeReadLoop hUser (by omega) h

theorem effects_pipeWriteImpl (hUser : s.inUser) (hCall : label.isPipeWrite = true) (h : s.pipeWriteImpl o = .ok t) : Effects label s t := by
  unfold pipeWriteImpl at h
  dsimp only at h
  split_ifs at h with hArgs hZero
  · exact effects_ret hUser.1 h
  · exact effects_ret hUser.1 h
  · split at h
    · exact effects_ret hUser.1 h
    · rename_i grown hGrown
      obtain ⟨pipe, hPipe, hGrown⟩ := Option.bind_eq_some_iff.mp hGrown
      obtain ⟨bytes, hBytes, h⟩ := bind_eq_ok.mp h
      obtain rfl := Except.ok.inj h
      rw [← Memory.length_loadBytes hBytes] at hGrown
      exact .trans (Effect.pipeWrite hPipe hGrown hCall).one ((Silent.ret _ _).effects
        ((mode_of_cpu (cpu_wakeReaders _ _ _)).trans hUser.1))

theorem effects_kernelTtyWriteImpl (hUser : s.inUser) (h : s.kernelTtyWriteImpl o = .ok t) :
    Effects label s t := by
  unfold kernelTtyWriteImpl at h
  dsimp only at h
  split_ifs at h with hArgs hZero
  · exact effects_ret hUser.1 h
  · exact effects_ret hUser.1 h
  · exact effects_ret hUser.1 h
  · obtain ⟨bytes, hBytes, h⟩ := bind_eq_ok.mp h
    obtain rfl := Except.ok.inj h
    have hLength := Memory.length_loadBytes hBytes
    have hShort := (s.reg 2).toInt_lt
    refine (Effect.block hUser (.ttyWrite (by omega) (fun hNil => ?_) (by omega)) (Silent.refl _)).one
    rw [hNil, List.length_nil] at hLength
    omega

theorem effects_guardBuf {needsWrite : Bool} {body : Except Stop Kernel} (hMode : s.mode = .user)
    (hBody : body = .ok t → Effects label s t) (h : s.guardBuf needsWrite body = .ok t) :
    Effects label s t := by
  unfold guardBuf at h
  split_ifs at h
  · exact hBody h
  · exact effects_ret hMode h

omit [Hardware] in
theorem eq_of_findBlockedFrom_none {type : QueueType} {cond : Kernel → Proc → Option Kernel}
    {fuel : Nat} {prev curr : Option Proc} (h : s.findBlockedFrom type cond fuel prev curr = (t, none)) :
    t = s := by
  induction fuel generalizing prev curr with
  | zero =>
      cases curr <;> exact (Prod.mk.inj h).1.symm
  | succ fuel ih =>
      cases curr with
      | none => exact (Prod.mk.inj h).1.symm
      | some curr =>
          unfold findBlockedFrom at h
          split at h
          · exact ih h
          · simp at h

theorem effects_wakeWaiters (hCall : label.isClock = true) (s : Kernel) (shrinkOk : Nat → Bool) (fuel : Nat) :
    Effects label s (s.wakeWaiters shrinkOk fuel) := by
  induction fuel generalizing s with
  | zero => exact .refl
  | succ fuel ih =>
      unfold wakeWaiters
      split
      · rename_i u hFind
        obtain rfl := eq_of_findBlockedFrom_none hFind
        exact .refl
      · rename_i u proc hFind
        exact .trans (Effect.wakeWaiter hFind hCall).one (ih _)

theorem effects_wakeSleepers (hCall : label.isClock = true) (s : Kernel) (shrinkOk : Nat → Bool) (fuel : Nat) :
    Effects label s (s.wakeSleepers shrinkOk fuel) := by
  induction fuel generalizing s with
  | zero => exact .refl
  | succ fuel ih =>
      unfold wakeSleepers
      split
      · exact .refl
      · rename_i root hRoot
        split_ifs with hDue
        · split
          · rename_i u hRemove
            simp [removeFromHeap, hRoot] at hRemove
          · rename_i u proc hRemove
            exact .trans (Effect.wakeSleeper hRoot hDue hRemove hCall).one (ih _)
        · exact .refl

theorem effects_trapClockHandler (hCall : label.isClock = true) (hMode : s.mode = .user) (uc : UserContext) (o : Outcomes) :
    Effects label s (s.trapClockHandler uc o) := by
  unfold trapClockHandler
  have hTicked : (s.tick o).mode = .user := by
    rw [mode_of_cpu (cpu_of_outside (outside_tick s o)), hMode]
  refine ReflTransGen.trans ?_ (effects_leave _)
  refine ReflTransGen.trans ?_ (Effect.preempt ?_).one
  · refine ReflTransGen.trans ?_ ((Silent.saveUc _ uc).effects hTicked)
    unfold tick
    refine ReflTransGen.trans ?_ (effects_wakeSleepers hCall _ _ _)
    refine ReflTransGen.trans ?_ (effects_wakeWaiters hCall _ _ _)
    exact (Effect.ticked hCall).one
  · rw [(Silent.saveUc _ uc).mode, hTicked]

/-- All syscalls but a terminal read. -/
theorem effects_dispatch (hUser : s.inUser) {call : Syscall} {uc : UserContext} (hCall : call ≠ .ttyRead)
    (hReg : ∀ i, s.reg i = uc.regs i) (h : s.dispatch call o = .ok t) :
    Effects (.syscall call uc o) s t := by
  unfold dispatch at h
  cases call with
  | ttyRead => exact absurd rfl hCall
  | getPid => exact effects_ret hUser.1 h
  | brk =>
      obtain rfl := Except.ok.inj h
      exact ((Silent.setMem s _).trans (Silent.ret _ _)).effects hUser.1
  | delay => exact Except.ok.inj h ▸ effects_kernelDelay hUser o
  | exit => exact (Effect.exit hUser h rfl).one
  | fork => exact (Effect.fork hUser h rfl).one
  | exec => exact effects_kernelExec hUser rfl h
  | wait => exact effects_kernelWait hUser (Option.some_ne_none uc) h
  | ttyWrite => exact effects_guardBuf hUser.1 (effects_kernelTtyWriteImpl hUser) h
  | lockInit => exact effects_kernelLockInit hUser.1 rfl h
  | cvarInit => exact effects_kernelCvarInit hUser.1 rfl h
  | acquire =>
      refine Except.ok.inj h ▸ effects_acquireImpl hUser _ (fun _ => .inl rfl) fun hId => ?_
      rw [hReg] at hId ⊢
      exact if_pos hId
  | release =>
      refine Except.ok.inj h ▸ effects_releaseImpl hUser _ fun hId => ?_
      rw [hReg] at hId ⊢
      exact if_pos hId
  | cvarSignal => exact Except.ok.inj h ▸ effects_kernelCvarSignal hUser.1
  | cvarBroadcast => exact Except.ok.inj h ▸ effects_kernelCvarBroadcast hUser.1
  | cvarWait =>
      refine Except.ok.inj h ▸ effects_kernelCvarWait hUser fun hCvar hLock => ?_
      rw [hReg] at hCvar hLock
      rw [hReg]
      exact if_pos (by simp [hCvar, hLock])
  | reclaim => exact Except.ok.inj h ▸ effects_kernelReclaim hUser.1 o
  | semUp =>
      refine Except.ok.inj h ▸ effects_releaseImpl hUser _ fun hId => ?_
      rw [hReg] at hId ⊢
      exact if_pos hId
  | semDown =>
      refine Except.ok.inj h ▸ effects_acquireImpl hUser _ (fun _ => .inr rfl) fun hId => ?_
      rw [hReg] at hId ⊢
      exact if_pos hId
  | semInit => exact effects_kernelSemInit hUser.1 (by rw [hReg]; rfl) h
  | pipeInit => exact effects_kernelPipeInit hUser.1 rfl h
  | pipeRead => exact effects_guardBuf hUser.1 (effects_pipeReadImpl hUser) h
  | pipeWrite => exact effects_guardBuf hUser.1 (effects_pipeWriteImpl hUser rfl) h
  | notImplemented =>
      obtain rfl := Except.ok.inj h
      exact .refl

theorem quiet_consumeIntoUser {id len : Nat} {buf : Word}
    (h : s.consumeIntoUser id buf len = .ok t) : Silent (s.read id len) t := by
  simp only [consumeIntoUser, bind_eq_ok] at h
  obtain ⟨mem, -, h⟩ := h
  obtain rfl := Except.ok.inj h
  exact (Silent.setMem (s.read id len) mem).trans (Silent.ret _ _)

/-- A terminal read is served from the first line, or blocks the caller. -/
theorem kernelTtyRead_cases (hUser : s.inUser) (h : s.kernelTtyRead = .ok t) :
    Effects label s t ∨ ∃ id len : Nat, id < numTerminals ∧ 0 < len ∧ (s.reg 0).toInt = id ∧
      (s.reg 2).toInt = len ∧ (s.ttys id).rx.first ≠ none ∧
      checkCBuf s.mem (s.reg 1) (s.reg 2).toInt true = true ∧ Silent (s.read id len) t := by
  unfold kernelTtyRead guardBuf at h
  split at h
  · rename_i hBuf
    unfold kernelTtyReadImpl at h
    dsimp only at h
    split_ifs at h with hArgs hZero hLine
    · exact Or.inl (effects_ret hUser.1 h)
    · exact Or.inl (effects_ret hUser.1 h)
    · exact Or.inr ⟨(s.reg 0).toInt.toNat, (s.reg 2).toInt.toNat, by omega, by omega, by omega,
        by omega, hLine, hBuf, quiet_consumeIntoUser h⟩
    · obtain rfl := Except.ok.inj h
      have hShort := BitVec.toInt_lt (x := s.reg 2)
      exact Or.inl (Effect.block hUser
        (.ttyRead (by omega) (not_not.mp hLine) (by omega)) (Silent.refl _)).one
  · exact Or.inl (effects_ret hUser.1 h)

/-- The code after the switch, but for the two terminal calls. -/
theorem effects_continueAt (hContexts : Contexts s.cpu) {kc : KernelContext}
    (hKc : (s.pcb s.runningProc).kc = some kc) (hRead : ∀ id, kc ≠ .ttyRead id)
    (hWrite : ∀ id, kc ≠ .ttyWrite id) (h : { s with mode := .user }.continueAt kc o = .ok t) :
    Effects label { s with mode := .user } t := by
  unfold continueAt at h
  cases kc with
  | ttyRead id => exact absurd rfl (hRead id)
  | ttyWrite id => exact absurd rfl (hWrite id)
  | boot => exact effects_bootReturn rfl h
  | wait => exact effects_waitReturn rfl h
  | pipeRead id buf len =>
      refine effects_pipeReadLoop ⟨rfl, ?_⟩ (hContexts.valid _ _ hKc) h
      intro hIdle
      have hSame : s.cpu.kc s.cpu.idleProc = (s.pcb s.runningProc).kc :=
        congrArg (fun p => (s.pcb p).kc) (Eq.symm hIdle)
      simpa using hContexts.idle _ (hSame.trans hKc)
  | fork | clock | delay | acquire id | semDown id | cvarWait id =>
      obtain rfl := Except.ok.inj h
      exact .refl

/-- The state in which a process starts to continue its call: the terminal
calls do all they do at once. -/
inductive Resumes (s : Kernel) : Kernel → Prop where
  | user {kc : KernelContext} (hKc : (s.pcb s.runningProc).kc = some kc) (hRead : ∀ id, kc ≠ .ttyRead id)
      (hWrite : ∀ id, kc ≠ .ttyWrite id) : Resumes s { s with mode := .user }
  | read {id : Nat} (hKc : (s.pcb s.runningProc).kc = some (.ttyRead id)) :
      Resumes s ({ s with mode := .user }.read id (s.pcb s.runningProc).ioLen)
  | written {id : Nat} (hKc : (s.pcb s.runningProc).kc = some (.ttyWrite id)) :
      Resumes s ({ s with mode := .user }.ttyWriteReturn id)

/-- A process continues its call, and what it does then is not yet another
continuation. -/
theorem resume_cases (label : Label) (hContexts : Contexts s.cpu) (h : s.resume o = .ok t) :
    ∃ u, Resumes s u ∧ Effects label u t := by
  unfold resume at h
  split at h
  · cases h
  · rename_i kc hKc
    obtain ⟨u, hContinue, h⟩ := bind_eq_ok.mp h
    obtain rfl := Except.ok.inj h
    have hOther (hRead : ∀ id, kc ≠ .ttyRead id) (hWrite : ∀ id, kc ≠ .ttyWrite id) :
        ∃ v, Resumes s v ∧ Effects label v u.leave := by
      refine ⟨_, .user hKc hRead hWrite, ?_⟩
      exact (effects_continueAt hContexts hKc hRead hWrite hContinue).trans (effects_leave u)
    cases kc with
    | ttyRead id => exact ⟨_, .read hKc,
        ((quiet_consumeIntoUser hContinue).trans (Silent.leave u)).effects (mode_read _ _ _)⟩
    | ttyWrite id =>
        obtain rfl := Except.ok.inj hContinue
        exact ⟨_, .written hKc, effects_leave _⟩
    | boot | wait | pipeRead | fork | clock | delay | acquire | semDown | cvarWait =>
        exact hOther (by simp) (by simp)

/-- The continuation of every context but that of a terminal read. -/
theorem effects_resume (hContexts : Contexts s.cpu) (hMode : s.mode = .resuming)
    (hRead : ∀ id, (s.pcb s.runningProc).kc ≠ some (.ttyRead id)) (hCall : label.isResume = true)
    (h : s.resume o = .ok t) : Effects label s t := by
  obtain ⟨u, hResumes, hEffects⟩ := resume_cases label hContexts h
  cases hResumes with
  | user hKc hOther hWrite => exact .trans (Effect.resumed hMode hKc hOther hWrite hCall).one hEffects
  | read hKc => exact absurd hKc (hRead _)
  | written hKc => exact .trans (Effect.written hMode hKc hCall).one hEffects

/-- The arguments of a terminal read that passes all checks. -/
structure ReadCall (s : Kernel) (uc : UserContext) (id len : Nat) : Prop where
  user : s.inUser
  tty : id < numTerminals
  pos : 0 < len
  id_eq : (uc.regs 0).toInt = id
  len_eq : (uc.regs 2).toInt = len
  buf : checkCBuf s.mem (uc.regs 1) len true = true

/-- What one step of the machine does: a sequence of effects, a terminal read
that is served at once, or the read of a process woken for it. -/
theorem step_cases {label : Label} (hContexts : Contexts s.cpu) (h : s.step label = .ok t) :
    Effects label s t ∨
      (∃ uc o id len, label = .syscall .ttyRead uc o ∧ s.ReadCall uc id len ∧
        (s.ttys id).rx.first ≠ none ∧ Silent ((s.saveUc uc).read id len) t) ∨
      (∃ o id, label = .resume o ∧ s.mode = .resuming ∧
        (s.pcb s.runningProc).kc = some (.ttyRead id) ∧
        Silent ({ s with mode := .user }.read id (s.pcb s.runningProc).ioLen) t) := by
  unfold step at h
  cases label with
  | syscall call uc o =>
      dsimp only at h
      split_ifs at h with hUser
      have hSave := Silent.saveUc s uc
      obtain ⟨u, hDispatch, h⟩ := bind_eq_ok.mp h
      obtain rfl := Except.ok.inj h
      by_cases hCall : call = .ttyRead
      · subst hCall
        rcases kernelTtyRead_cases (hSave.inUser hUser) hDispatch with
          hEffects | ⟨id, len, hId, hLen, hReg0, hReg2, hLine, hBuf, hRead⟩
        · exact Or.inl (((hSave.effects hUser.1).trans hEffects).trans (effects_leave u))
        · rw [hSave.ttys] at hLine
          rw [hReg2] at hBuf
          rw [reg_saveUc] at hReg0 hReg2 hBuf
          exact Or.inr (Or.inl ⟨uc, o, id, len, rfl, ⟨hUser, hId, hLen, hReg0, hReg2, hBuf⟩, hLine,
            hRead.trans (Silent.leave u)⟩)
      · exact Or.inl (((hSave.effects hUser.1).trans
          (effects_dispatch (hSave.inUser hUser) hCall (reg_saveUc s uc) hDispatch)).trans (effects_leave u))
  | clock uc o =>
      dsimp only at h
      split_ifs at h with hMode
      exact Or.inl (Except.ok.inj h ▸ effects_trapClockHandler rfl hMode uc o)
  | math | illegal =>
      dsimp only at h
      split_ifs at h with hUser
      exact Or.inl (Effect.exit hUser h rfl).one
  | memory uc =>
      dsimp only at h
      split_ifs at h with hUser
      unfold trapMemoryHandler at h
      dsimp only at h
      have hMem := Silent.setMem s (UserMemory.expandStack s.mem uc.addr).1
      split_ifs at h
      · obtain rfl := Except.ok.inj h
        exact Or.inl ((hMem.trans (Silent.setUc _ uc)).effects hUser.1)
      · exact Or.inl ((hMem.effects hUser.1).trans (Effect.exit (hMem.inUser hUser) h rfl).one)
  | ttyReceive uc ttyId line lineOk =>
      dsimp only at h
      split_ifs at h with hMode
      obtain rfl := Except.ok.inj h
      exact Or.inl ((((Silent.saveUc s uc).effects hMode.1).trans Effect.received.one).trans
        (effects_leave _))
  | ttyTransmit uc ttyId =>
      dsimp only at h
      split_ifs at h with hMode
      obtain rfl := Except.ok.inj h
      exact Or.inl ((((Silent.saveUc s uc).effects hMode).trans Effect.transmitted.one).trans
        (effects_leave _))
  | resume o =>
      dsimp only at h
      split_ifs at h with hMode
      by_cases hRead : ∃ id, (s.pcb s.runningProc).kc = some (.ttyRead id)
      · obtain ⟨id, hKc⟩ := hRead
        simp only [resume, hKc, bind_eq_ok] at h
        obtain ⟨u, hContinue, h⟩ := h
        obtain rfl := Except.ok.inj h
        exact Or.inr (Or.inr ⟨o, id, rfl, hMode, hKc,
          (quiet_consumeIntoUser hContinue).trans (Silent.leave u)⟩)
      · exact Or.inl (effects_resume hContexts hMode (fun id he => hRead ⟨id, he⟩) rfl h)
  | heap addr =>
      obtain rfl := Except.ok.inj h
      exact Or.inl (Effect.quiet (Silent.setMem s (KernelMemory.setKernelBrk s.mem addr).1) (Or.inr rfl)).one
  | userStore addr byte =>
      dsimp only at h
      split_ifs at h
      obtain rfl := Except.ok.inj h
      exact Or.inl (Effect.quiet (Silent.setMem s (s.mem.pokeByte addr byte)) (Or.inr rfl)).one

end Kernel
end Yalnix
