import Yalnix.Memory.Stages
import Yalnix.Process.Record

/-! What the kernel does to saved registers while it handles a call: of its caller it
sets register 0, and it leaves the others alone. -/
namespace Yalnix

open Hardware Identifiers Transition

/-- Who runs, and the saved registers of all processes but for register 0. -/
structure Desk where
  mode : Mode
  runningProc : Proc
  rest : Proc → UserContext

namespace Kernel

def desk (s : Kernel) : Desk := ⟨s.mode, s.runningProc, fun p => (s.pcb p).uc.result 0⟩

variable {s t u : Kernel}

theorem desk_of_views (hCpu : t.cpu = s.cpu) (hRecords : t.records = s.records) : t.desk = s.desk := by
  have hRest : (fun p => (t.pcb p).uc.result 0) = fun p => (s.pcb p).uc.result 0 :=
    funext fun p => congrArg (UserContext.result · 0) (uc_of_records hRecords p)
  rw [desk, desk, mode_of_cpu hCpu, runningProc_of_cpu hCpu, hRest]

theorem rest_of_desk (h : t.desk = s.desk) (p : Proc) : (t.pcb p).uc.result 0 = (s.pcb p).uc.result 0 :=
  congrFun (congrArg Desk.rest h) p

theorem desk_modifyPcb {p : Proc} {f : Pcb → Pcb} (h : (f (s.pcb p)).uc.result 0 = (s.pcb p).uc.result 0) :
    (s.modifyPcb p f).desk = s.desk := by
  have hRest : (fun q => ((s.modifyPcb p f).pcb q).uc.result 0) = fun q => (s.pcb q).uc.result 0 :=
    funext fun q => pcb_modifyPcb (v := fun pcb => pcb.uc.result 0) h q
  rw [desk, hRest]
  rfl

@[simp] theorem desk_setResult (s : Kernel) (p : Proc) (value : Word) : (s.setResult p value).desk = s.desk := by
  refine desk_modifyPcb ?_
  simp [UserContext.result]

@[simp] theorem desk_ret (s : Kernel) (value : Word) : (s.ret value).desk = s.desk := desk_setResult s _ value
@[simp] theorem desk_setState (s : Kernel) (p : Proc) (state : ProcessState) : (s.setState p state).desk = s.desk :=
  desk_modifyPcb rfl
@[simp] theorem desk_setMem (s : Kernel) (mem : Memory) : (s.setMem mem).desk = s.desk := rfl
@[simp] theorem desk_emit (s : Kernel) (e : Event) : (s.emit e).desk = s.desk := rfl

/-- The state a function returns beside its result. -/
theorem desk_fst {β : Type} {r : Kernel × β} {b : β} (hDesk : r.1.desk = s.desk) (h : r = (t, b)) :
    t.desk = s.desk := by
  subst h
  exact hDesk

variable [Hardware] {o : Outcomes}

omit [Hardware] in
@[simp] theorem desk_retBool [Hardware] (s : Kernel) (ok : Bool) : (s.retBool ok).desk = s.desk := desk_ret s _

/-- The end of a call: it returns, or the caller is switched away with a context and a
read request that the call may leave. -/
inductive Handled (s : Kernel) (leaves : KernelContext → Word × Nat → Prop) : Kernel → Prop where
  | back {t : Kernel} (h : t.desk = s.desk) : Handled s leaves t
  | away {u : Kernel} {kc : KernelContext} (h : u.desk = s.desk) (hLeaves : leaves kc (u.pcb s.runningProc).request) :
      Handled s leaves (u.switchAway kc)

/-- Where a call may leave its caller. The buffer of a read was checked. -/
def Leaves (s : Kernel) (call : Syscall) (kc : KernelContext) (request : Word × Nat) : Prop :=
  match call, kc with
  | .delay, .delay | .wait, .wait | .acquire, .acquire _ | .semDown, .semDown _ => True
  | .cvarWait, .cvarWait _ | .ttyWrite, .ttyWrite _ => True
  | .pipeRead, .pipeRead _ buf len =>
      checkCBuf s.mem (s.reg 1) (s.reg 2).toInt true = true ∧ (buf, len) = (s.reg 1, (s.reg 2).toInt.toNat)
  | .ttyRead, .ttyRead _ =>
      checkCBuf s.mem (s.reg 1) (s.reg 2).toInt true = true ∧ request = (s.reg 1, (s.reg 2).toInt.toNat)
  | _, _ => False

variable {leaves : KernelContext → Word × Nat → Prop}

theorem handled_ok (h : Except.ok u = (Except.ok t : Except Stop Kernel)) (hDesk : u.desk = s.desk) :
    Handled s leaves t := by
  obtain rfl := Except.ok.inj h
  exact .back hDesk

theorem handled_store {mem : Except Stop Memory} {f : Memory → Kernel}
    (h : (do let m ← mem; return f m) = Except.ok t) (hDesk : ∀ m, (f m).desk = s.desk) : Handled s leaves t := by
  obtain ⟨m, -, h⟩ := bind_eq_ok.mp h
  exact handled_ok h (hDesk m)

theorem handled_guardBuf {needsWrite : Bool} {body : Except Stop Kernel}
    (hBody : checkCBuf s.mem (s.reg 1) (s.reg 2).toInt needsWrite = true → body = .ok t → Handled s leaves t)
    (h : s.guardBuf needsWrite body = .ok t) : Handled s leaves t := by
  unfold guardBuf at h
  split_ifs at h with hCheck
  · exact hBody hCheck h
  · exact handled_ok h (desk_ret s _)

omit [Hardware] in
theorem desk_putToSleep (s : Kernel) (p : Proc) (ticks : Word) (growOk : Bool) :
    (s.putToSleep p ticks growOk).1.desk = s.desk := by
  unfold putToSleep
  dsimp only
  split
  · rename_i u hAdd
    rw [addToHeap_eq hAdd]
    exact desk_modifyPcb (s := s) (f := fun pcb => { pcb with wakeUp := s.numTicks + ticks, state := .waiting }) rfl
  · refine (desk_setState _ _ _).trans ?_
    exact desk_modifyPcb (s := s) (f := fun pcb => { pcb with wakeUp := s.numTicks + ticks, state := .waiting }) rfl

theorem handled_kernelDelay (hLeaves : ∀ request, leaves .delay request) : Handled s leaves (s.kernelDelay o) := by
  unfold kernelDelay
  dsimp only
  split_ifs
  · exact .back (desk_ret s _)
  · exact .back (desk_ret s _)
  · have hSleep := desk_putToSleep s s.runningProc (s.reg 0) (o.alloc 0)
    split <;> rename_i hPut <;> rw [hPut] at hSleep
    · exact .away ((desk_ret _ _).trans hSleep) (hLeaves _)
    · exact .back ((desk_ret _ _).trans hSleep)

theorem handled_acquireImpl {isId : Word → Bool} {kc : Nat → KernelContext}
    (hLeaves : ∀ id request, leaves (kc id) request) : Handled s leaves (s.acquireImpl isId kc) := by
  unfold acquireImpl
  split_ifs
  · exact .back (desk_ret s _)
  · have hDesk : (s.acquire (getId (s.reg 0)) s.runningProc false).1.desk = s.desk :=
      desk_of_views (cpu_of_outside (outside_acquire s _ _ _)) (records_acquire s _ _ _)
    dsimp only
    split <;> rename_i hAcquire <;> rw [hAcquire] at hDesk
    · exact .back ((desk_ret _ _).trans hDesk)
    · exact .back ((desk_ret _ _).trans hDesk)
    · exact .away ((desk_ret _ _).trans hDesk) (hLeaves _ _)

theorem desk_releaseImpl (s : Kernel) (isId : Word → Bool) : (s.releaseImpl isId).desk = s.desk := by
  unfold releaseImpl
  split_ifs
  · exact desk_ret s _
  · exact (desk_retBool _ _).trans (desk_of_views (cpu_of_outside (outside_release s _ _ _)) (records_release s _ _ _))

theorem handled_storeId {addr id : Word} (h : u.storeId addr id = .ok t) (hDesk : u.desk = s.desk) :
    Handled s leaves t := handled_store h fun _ => (desk_ret _ _).trans hDesk

theorem handled_kernelLockInit (h : s.kernelLockInit o = .ok t) : Handled s leaves t := by
  unfold kernelLockInit at h
  dsimp only at h
  split_ifs at h
  · exact handled_ok h (desk_ret s _)
  · have hDesk : (s.newLock 1 (o.alloc 0) (o.alloc 1)).1.desk = s.desk :=
      desk_of_views (cpu_of_outside (outside_newLock s _ _ _)) (records_newLock s _ _ _)
    split at h <;> rename_i hNew <;> rw [hNew] at hDesk
    · exact handled_ok h ((desk_ret _ _).trans hDesk)
    · exact handled_storeId h hDesk

theorem handled_kernelSemInit (h : s.kernelSemInit o = .ok t) : Handled s leaves t := by
  unfold kernelSemInit at h
  dsimp only at h
  split_ifs at h
  · exact handled_ok h (desk_ret s _)
  · have hDesk : (s.newLock (s.reg 1).toInt.toNat (o.alloc 0) (o.alloc 1)).1.desk = s.desk :=
      desk_of_views (cpu_of_outside (outside_newLock s _ _ _)) (records_newLock s _ _ _)
    split at h <;> rename_i hNew <;> rw [hNew] at hDesk
    · exact handled_ok h ((desk_ret _ _).trans hDesk)
    · exact handled_storeId h hDesk

theorem handled_kernelCvarInit (h : s.kernelCvarInit o = .ok t) : Handled s leaves t := by
  unfold kernelCvarInit at h
  dsimp only at h
  split_ifs at h
  · exact handled_ok h (desk_ret s _)
  · have hDesk : (s.newCvar (o.alloc 0)).1.desk = s.desk :=
      desk_of_views (cpu_of_outside (outside_newCvar s _)) rfl
    split at h <;> rename_i hNew <;> rw [hNew] at hDesk
    · exact handled_ok h ((desk_ret _ _).trans hDesk)
    · exact handled_storeId h hDesk

theorem handled_kernelPipeInit (h : s.kernelPipeInit o = .ok t) : Handled s leaves t := by
  unfold kernelPipeInit at h
  dsimp only at h
  split_ifs at h
  · exact handled_ok h (desk_ret s _)
  · have hDesk : (s.newPipe (o.alloc 0) (o.alloc 1)).1.desk = s.desk :=
      desk_of_views (cpu_newPipe s _ _) (records_newPipe s _ _)
    split at h <;> rename_i hNew <;> rw [hNew] at hDesk
    · exact handled_ok h ((desk_ret _ _).trans hDesk)
    · exact handled_storeId h hDesk

theorem handled_kernelCvarWait (hLeaves : ∀ id request, leaves (.cvarWait id) request) :
    Handled s leaves s.kernelCvarWait := by
  unfold kernelCvarWait
  split_ifs
  · exact .back (desk_ret s _)
  · have hDesk : (s.waitCvar (getId (s.reg 0)) (getId (s.reg 1)) s.runningProc).1.desk = s.desk :=
      desk_of_views (cpu_of_outside (outside_waitCvar s _ _ _)) (records_waitCvar s _ _ _)
    dsimp only
    split <;> rename_i hWait <;> rw [hWait] at hDesk
    · exact .away ((desk_ret _ _).trans hDesk) (hLeaves _ _)
    · exact .back ((desk_ret _ _).trans hDesk)

omit [Hardware] in
/-- A waiter that is popped gets its lock or joins the queue for it. -/
theorem desk_popCvar {id : Nat} {waiter : Proc} (h : s.popCvar id = (t, some waiter)) :
    (t.reacquire waiter).desk = s.desk := by
  have hDesk : t.desk = s.desk := desk_fst (desk_of_views (cpu_of_outside (outside_popCvar s id)) (records_popCvar s id)) h
  exact (desk_of_views (cpu_of_outside (outside_reacquire t waiter)) (records_reacquire t waiter)).trans hDesk

omit [Hardware] in
theorem desk_broadcastLoop (s : Kernel) (id fuel : Nat) : (s.broadcastLoop id fuel).desk = s.desk := by
  induction fuel generalizing s with
  | zero => rfl
  | succ fuel ih =>
      unfold broadcastLoop
      split <;> rename_i hPop
      · exact desk_fst (desk_of_views (cpu_of_outside (outside_popCvar s id)) (records_popCvar s id)) hPop
      · exact (ih _).trans (desk_popCvar hPop)

theorem desk_kernelCvarSignal (s : Kernel) : s.kernelCvarSignal.desk = s.desk := by
  unfold kernelCvarSignal signalCvar
  dsimp only
  split_ifs
  · exact desk_ret s _
  · exact desk_retBool s _
  · refine (desk_retBool _ _).trans ?_
    split <;> rename_i hPop
    · exact desk_fst (desk_of_views (cpu_of_outside (outside_popCvar s _)) (records_popCvar s _)) hPop
    · exact desk_popCvar hPop

theorem desk_kernelCvarBroadcast (s : Kernel) : s.kernelCvarBroadcast.desk = s.desk := by
  unfold kernelCvarBroadcast broadcastCvar
  dsimp only
  split_ifs
  · exact desk_ret s _
  · exact desk_retBool s _
  · exact (desk_retBool _ _).trans (desk_broadcastLoop s _ _)

theorem desk_kernelReclaim (s : Kernel) (o : Outcomes) : (s.kernelReclaim o).desk = s.desk := by
  unfold kernelReclaim
  refine (desk_retBool _ _).trans ?_
  split_ifs
  · exact desk_of_views (cpu_of_outside (outside_deleteLock s _ _)) (records_deleteLock s _ _)
  · exact desk_of_views (cpu_pipeReclaim s _) (records_pipeReclaim s _)
  · exact desk_of_views (cpu_of_outside (outside_deleteCvar s _ _)) (records_deleteCvar s _ _)
  · rfl

omit [Hardware] in
theorem desk_pipeBlock (s : Kernel) (id : Nat) : (s.pipeBlock id).desk = s.desk := desk_setState _ _ _

theorem handled_pipeReadLoop {id len : Nat} {buf : Word}
    (hLeaves : ∀ request, leaves (.pipeRead id buf len) request) (h : s.pipeReadLoop id buf len = .ok t) :
    Handled s leaves t := by
  unfold pipeReadLoop at h
  split at h
  · exact handled_ok h (desk_ret s _)
  · split_ifs at h
    · obtain rfl := Except.ok.inj h
      exact .away (desk_pipeBlock s id) (hLeaves _)
    · exact handled_store h fun m => desk_ret _ _

theorem handled_pipeReadImpl
    (hLeaves : ∀ id request, leaves (.pipeRead id (s.reg 1) (s.reg 2).toInt.toNat) request) (h : s.pipeReadImpl = .ok t) : Handled s leaves t := by
  unfold pipeReadImpl at h
  dsimp only at h
  split_ifs at h
  · exact handled_ok h (desk_ret s _)
  · exact handled_ok h (desk_ret s _)
  · exact handled_pipeReadLoop (hLeaves _) h

theorem handled_pipeWriteImpl (h : s.pipeWriteImpl o = .ok t) : Handled s leaves t := by
  unfold pipeWriteImpl at h
  dsimp only at h
  split_ifs at h
  · exact handled_ok h (desk_ret s _)
  · exact handled_ok h (desk_ret s _)
  · split at h
    · exact handled_ok h (desk_ret s _)
    · obtain ⟨bytes, -, h⟩ := bind_eq_ok.mp h
      refine handled_ok h ((desk_ret _ _).trans ?_)
      exact (desk_of_views (cpu_wakeReaders _ _ _) (records_wakeReaders _ _ _)).trans rfl

theorem handled_consumeIntoUser {id len : Nat} {buf : Word} (h : s.consumeIntoUser id buf len = .ok t) :
    Handled s leaves t := by
  refine handled_store h fun m => (desk_ret _ _).trans ?_
  exact desk_of_views (t := (s.consume id len).1) (cpu_consume s id len) (records_consume s id len)

theorem handled_kernelTtyReadImpl
    (hLeaves : ∀ id, leaves (.ttyRead id) (s.reg 1, (s.reg 2).toInt.toNat)) (h : s.kernelTtyReadImpl = .ok t) : Handled s leaves t := by
  unfold kernelTtyReadImpl at h
  dsimp only at h
  split_ifs at h
  · exact handled_ok h (desk_ret s _)
  · exact handled_ok h (desk_ret s _)
  · exact handled_consumeIntoUser h
  · obtain rfl := Except.ok.inj h
    refine .away ((desk_setState _ _ _).trans ?_) ?_
    · exact desk_modifyPcb (s := s) (p := s.runningProc)
        (f := fun p => { p with ioUserBuf := s.reg 1, ioLen := _, ioTtyId := _ }) rfl
    · have hRequest := congrFun (congrArg Cpu.request (cpu_ttyReadBlock s (s.reg 0).toInt.toNat (s.reg 1)
        (s.reg 2).toInt.toNat)) s.runningProc
      have hOwn : ((s.ttyReadBlock (s.reg 0).toInt.toNat (s.reg 1) (s.reg 2).toInt.toNat).pcb s.runningProc).request =
          (s.reg 1, (s.reg 2).toInt.toNat) := hRequest.trans (Function.update_self _ _ _)
      rw [hOwn]
      exact hLeaves _

theorem handled_kernelTtyWriteImpl (hLeaves : ∀ id request, leaves (.ttyWrite id) request)
    (h : s.kernelTtyWriteImpl o = .ok t) : Handled s leaves t := by
  unfold kernelTtyWriteImpl at h
  dsimp only at h
  split_ifs at h
  · exact handled_ok h (desk_ret s _)
  · exact handled_ok h (desk_ret s _)
  · exact handled_ok h (desk_ret s _)
  · obtain ⟨bytes, -, h⟩ := bind_eq_ok.mp h
    obtain rfl := Except.ok.inj h
    exact .away (desk_of_views (cpu_ttyWriteBlock s _ bytes) (records_ttyWriteBlock s _ bytes)) (hLeaves _ _)

omit [Hardware] in
theorem desk_findExitedChild {parent : Proc} {shrinkOk : Bool} {code : Word}
    (h : s.findExitedChild parent shrinkOk = some (t, code)) : t.desk = s.desk := by
  have hQuiet := Quiet.findExitedChild h
  have hRest : (fun p => (t.pcb p).uc.result 0) = fun p => (s.pcb p).uc.result 0 :=
    funext fun p => congrArg (fun saved => UserContext.result saved.1 0) (saved_findExitedChild h p)
  rw [desk, desk, hQuiet.mode, hQuiet.runningProc, hRest]

theorem handled_kernelWait (hLeaves : ∀ request, leaves .wait request) (h : s.kernelWait o = .ok t) :
    Handled s leaves t := by
  unfold kernelWait at h
  dsimp only at h
  split at h
  · obtain rfl := Except.ok.inj h
    refine .away ?_ (hLeaves _)
    exact desk_setState s _ _
  · rename_i u code hFound
    have hDesk := desk_findExitedChild hFound
    split_ifs at h
    · exact handled_ok h ((desk_ret _ _).trans hDesk)
    · exact handled_store h fun m => (desk_ret _ _).trans hDesk

/-- All calls but `Exit`, `Fork` and `Exec`. -/
theorem handled_dispatch {call : Syscall} (hExit : call ≠ .exit) (hFork : call ≠ .fork) (hExec : call ≠ .exec)
    (h : s.dispatch call o = .ok t) : Handled s (s.Leaves call) t := by
  unfold dispatch at h
  cases call with
  | exit => exact absurd rfl hExit
  | fork => exact absurd rfl hFork
  | exec => exact absurd rfl hExec
  | getPid => exact handled_ok h (desk_ret s _)
  | brk => exact handled_ok h ((desk_ret _ _).trans (desk_setMem s _))
  | delay => exact Except.ok.inj h ▸ handled_kernelDelay fun _ => trivial
  | wait => exact handled_kernelWait (fun _ => trivial) h
  | ttyRead => exact handled_guardBuf (fun hCheck => handled_kernelTtyReadImpl fun _ => ⟨hCheck, rfl⟩) h
  | ttyWrite => exact handled_guardBuf (fun _ => handled_kernelTtyWriteImpl fun _ _ => trivial) h
  | lockInit => exact handled_kernelLockInit h
  | cvarInit => exact handled_kernelCvarInit h
  | acquire => exact Except.ok.inj h ▸ handled_acquireImpl fun _ _ => trivial
  | release => exact handled_ok h (desk_releaseImpl s _)
  | cvarSignal => exact handled_ok h (desk_kernelCvarSignal s)
  | cvarBroadcast => exact handled_ok h (desk_kernelCvarBroadcast s)
  | cvarWait => exact Except.ok.inj h ▸ handled_kernelCvarWait fun _ _ => trivial
  | reclaim => exact handled_ok h (desk_kernelReclaim s o)
  | semUp => exact handled_ok h (desk_releaseImpl s _)
  | semDown => exact Except.ok.inj h ▸ handled_acquireImpl fun _ _ => trivial
  | semInit => exact handled_kernelSemInit h
  | pipeInit => exact handled_kernelPipeInit h
  | pipeRead => exact handled_guardBuf (fun hCheck => handled_pipeReadImpl fun _ _ => ⟨hCheck, rfl⟩) h
  | pipeWrite => exact handled_guardBuf (fun _ => handled_pipeWriteImpl) h
  | notImplemented => exact handled_ok h rfl

/-- Once both results are set a fork writes no saved context. -/
theorem uc_forkCommit_eq (s : Kernel) (child p : Proc) (o : Outcomes) : ((s.forkCommit child o).pcb p).uc =
    (((s.ret (BitVec.ofNat 32 (s.pcb child).pid)).setResult child 0).pcb p).uc := by
  have hLinked : (((s.forkLink child o).scheduleProcess child).pcb p).uc =
      (((s.ret (BitVec.ofNat 32 (s.pcb child).pid)).setResult child 0).pcb p).uc := by
    rw [uc_of_records (records_scheduleProcess _ _)]
    exact congrArg Prod.fst (saved_addChildProc _ s.runningProc child (o.alloc 4) p)
  rw [← hLinked]
  unfold forkCommit
  dsimp only
  split_ifs
  · exact pcb_modifyPcb (v := Pcb.uc) rfl p
  · rfl

/-- The two results of a `Fork`. -/
theorem uc_forkCommit {child : Proc} (hOther : child ≠ s.runningProc) :
    ((s.forkCommit child o).pcb child).uc = (s.pcb child).uc.result 0 ∧
      ∀ p, p ≠ child → ((s.forkCommit child o).pcb p).uc.result 0 = (s.pcb p).uc.result 0 := by
  constructor
  · rw [uc_forkCommit_eq]
    simp [setResult, ret, modifyPcb, Function.update_of_ne hOther]
  · intro p hp
    rw [uc_forkCommit_eq, rest_of_desk (desk_setResult _ _ _), rest_of_desk (desk_ret _ _)]

/-- A fork that succeeds gives the child the registers of its parent. -/
theorem registers_kernelFork (hLt : s.runningProc < s.numPcbs) (h : s.kernelFork o = .ok t) :
    (∀ p < s.numPcbs, (t.pcb p).uc.result 0 = (s.pcb p).uc.result 0) ∧
      (t.Live s.numPcbs → (t.pcb s.numPcbs).uc = (s.pcb s.runningProc).uc.result 0) := by
  unfold kernelFork at h
  dsimp only at h
  split at h
  · cases h
  · rename_i created child hCreate
    obtain ⟨rfl, mem, pcb, hCreated, -⟩ := createNewPcb_eq hCreate
    have hOld (p : Proc) (hp : p < s.numPcbs) : (created.pcb p).uc = (s.pcb p).uc := by
      rw [hCreated]
      exact congrArg Pcb.uc (Function.update_of_ne hp.ne _ _)
    have hRunning : created.runningProc = s.runningProc := by rw [hCreated]
    obtain ⟨copied, -, h⟩ := bind_eq_ok.mp h
    split_ifs at h
    · obtain rfl := Except.ok.inj h
      generalize hStart : (created.setMem copied.1).modifyPcb s.numPcbs
        (fun p => { p with uc := (s.pcb s.runningProc).uc }) = start
      have hOther : s.numPcbs ≠ start.runningProc := by
        rw [← hStart]
        show s.numPcbs ≠ created.runningProc
        rw [hRunning]
        exact hLt.ne'
      obtain ⟨hChild, hRest⟩ := uc_forkCommit (o := o) hOther
      constructor
      · intro p hp
        rw [hRest p hp.ne, ← hStart, ← hOld p hp]
        simp [modifyPcb, setMem, Function.update_of_ne hp.ne]
      · intro _
        rw [hChild, ← hStart]
        simp [modifyPcb]
    · obtain rfl := Except.ok.inj h
      generalize hFailed : (created.setMem copied.1).ret errorCode = failed
      have hRest (p : Proc) : (failed.pcb p).uc.result 0 = (created.pcb p).uc.result 0 := by
        rw [← hFailed]
        exact rest_of_desk (desk_ret _ _) p
      have hSaved (p : Proc) := (saved_freePcb (failed.retirePcb s.numPcbs) s.numPcbs p).trans
        (saved_retirePcb failed s.numPcbs p)
      constructor
      · intro p hp
        have hUc := congrArg (fun saved => UserContext.result saved.1 0) (hSaved p)
        rw [← hOld p hp, ← hRest p]
        exact hUc
      · intro hLive
        have hFreed := hLive.2.2.1
        simp [freePcb, modifyPcb, emit] at hFreed

/-- The loader sets the program counter and the stack pointer. -/
theorem uc_loadProgram {m : Memory} {uc : UserContext} {file : LoadProgram.File} {args : List (List Byte)}
    {argsOk : Bool} {loaded : LoadProgram.Outcome}
    (h : LoadProgram.loadProgram m uc file args argsOk = .ok loaded) :
    ∃ pc sp, loaded.uc = { uc with pc := pc, sp := sp } := by
  unfold LoadProgram.loadProgram at h
  dsimp only at h
  split at h
  · exact ⟨_, _, (congrArg LoadProgram.Outcome.uc (Except.ok.inj h)).symm⟩
  · exact ⟨_, _, (congrArg LoadProgram.Outcome.uc (Except.ok.inj h)).symm⟩
  · split_ifs at h
    · exact ⟨_, _, (congrArg LoadProgram.Outcome.uc (Except.ok.inj h)).symm⟩
    · exact ⟨_, _, (congrArg LoadProgram.Outcome.uc (Except.ok.inj h)).symm⟩
    · exact ⟨_, _, (congrArg LoadProgram.Outcome.uc (Except.ok.inj h)).symm⟩
    · split at h
      · split at h
        · exact ⟨_, _, (congrArg LoadProgram.Outcome.uc (Except.ok.inj h)).symm⟩
        · split at h
          · exact ⟨_, _, (congrArg LoadProgram.Outcome.uc (Except.ok.inj h)).symm⟩
          · obtain ⟨done, hFinish, h⟩ := bind_eq_ok.mp h
            obtain ⟨_, _, _, -, -, -, -, hUc⟩ := LoadProgram.finish_steps hFinish
            obtain rfl := Except.ok.inj h
            exact ⟨_, _, hUc⟩
      · exact ⟨_, _, (congrArg LoadProgram.Outcome.uc (Except.ok.inj h)).symm⟩
      · exact ⟨_, _, (congrArg LoadProgram.Outcome.uc (Except.ok.inj h)).symm⟩

/-- An `Exec` ends the caller, or it sets program counter, stack pointer and register 0. -/
theorem registers_kernelExec (h : s.kernelExec o = .ok t) : (∃ left : Kernel, left.cpu = s.cpu ∧
    left.kernelExit (-1) = .ok t) ∨ t.mode = s.mode ∧ t.runningProc = s.runningProc ∧ ∃ pc sp,
      (t.pcb s.runningProc).uc.result 0 = { (s.pcb s.runningProc).uc.result 0 with pc := pc, sp := sp } := by
  obtain ⟨args, -, h⟩ := bind_eq_ok.mp h
  cases args with
  | none =>
      obtain rfl := Except.ok.inj h
      have hDesk := desk_ret s errorCode
      refine Or.inr ⟨congrArg Desk.mode hDesk, congrArg Desk.runningProc hDesk, (s.pcb s.runningProc).uc.pc,
        (s.pcb s.runningProc).uc.sp, ?_⟩
      exact rest_of_desk hDesk s.runningProc
  | some args =>
      obtain ⟨loaded, hLoad, h⟩ := bind_eq_ok.mp h
      obtain ⟨pc, sp, hUc⟩ := uc_loadProgram hLoad
      generalize hLoaded : (s.setMem loaded.mem).modifyPcb s.runningProc _ = left at h
      have hRest : (left.pcb s.runningProc).uc.result 0 =
          { (s.pcb s.runningProc).uc.result 0 with pc := pc, sp := sp } := by
        rw [← hLoaded]
        simp [modifyPcb, setMem, hUc, UserContext.result]
      split at h
      · refine Or.inl ⟨left, ?_, h⟩
        rw [← hLoaded]
        exact cpu_modifyPcb rfl rfl
      · obtain rfl := Except.ok.inj h
        refine Or.inr ⟨?_, ?_, pc, sp, ?_⟩
        · rw [← hLoaded]
          rfl
        · rw [← hLoaded]
          rfl
        · rw [← hRest]
          exact rest_of_desk (desk_ret left errorCode) s.runningProc
      · obtain rfl := Except.ok.inj h
        refine Or.inr ⟨?_, ?_, pc, sp, hRest⟩
        · rw [← hLoaded]
          rfl
        · rw [← hLoaded]
          rfl

/-- A process that continues a call sets register 0 at most. Only a reader of a pipe may
be left again, in the same place. -/
theorem handled_continueAt {kc : KernelContext} (hBoot : kc ≠ .boot) (h : s.continueAt kc o = .ok t) :
    Handled s (fun left _ => left = kc ∧ ∃ id buf len, left = .pipeRead id buf len) t := by
  unfold continueAt at h
  cases kc with
  | boot => exact absurd rfl hBoot
  | wait =>
      dsimp only at h
      unfold waitReturn at h
      split_ifs at h
      · exact handled_ok h (desk_ret s _)
      · exact handled_store h fun m => desk_ret _ _
  | pipeRead id buf len => exact handled_pipeReadLoop (fun _ => ⟨rfl, id, buf, len, rfl⟩) h
  | ttyRead id => exact handled_consumeIntoUser h
  | ttyWrite id =>
      refine handled_ok h ((desk_emit _ _).trans ((desk_ret _ _).trans ?_))
      exact desk_modifyPcb rfl
  | fork | clock | delay | acquire id | semDown id | cvarWait id => exact handled_ok h rfl

end Kernel
end Yalnix
