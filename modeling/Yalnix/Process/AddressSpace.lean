import Yalnix.Memory.Installed
import Yalnix.Process.Conservation
import Yalnix.Process.Space

/-! What a trap can do to the memory: every trap is a sequence of the operations
of the memory modules and of switches. The memory is therefore always set up
for the process that runs. -/
namespace Yalnix

open Hardware Relation Transition

section Steps

variable [Hardware]

/-- The file that a call of `LoadProgram` finds. -/
def Label.loads : Label → Option LoadProgram.File
  | .syscall .exec _ o => some o.file
  | .resume o => some o.file
  | _ => none

/-- The control block that `create_new_pcb` fills. -/
def Space.create (x : Space) : Space :=
  { x with
    mem := { x.mem with
      ksPt := Function.update x.mem.ksPt x.numPcbs fun _ => .blank
      ctx := Function.update x.mem.ctx x.numPcbs .blank }
    numPcbs := x.numPcbs + 1 }

/-- What the trap with this label does with the address space of its process, before
anything else. The processes in `dies` do not survive the step. -/
inductive Space.Call (dies : Proc → Prop) (label : Label) (x : Space) : Space → Prop where
  | none : Call dies label x x
  | brk {uc : UserContext} {o : Outcomes} (hCall : label = .syscall .brk uc o) :
      Call dies label x { x with mem := (UserMemory.kernelBrkImpl x.mem (uc.regs 0) uc.sp).1 }
  | grow {uc : UserContext} (hCall : label = .memory uc)
      (hFail : (UserMemory.expandStack x.mem uc.addr).2 = false → dies x.runningProc) :
      Call dies label x { x with mem := (UserMemory.expandStack x.mem uc.addr).1 }
  | load {uc : UserContext} {file : LoadProgram.File} {args : List (List Byte)} {argsOk : Bool}
      {loaded : LoadProgram.Outcome} (hCall : label.loads = some file)
      (h : LoadProgram.loadProgram x.mem uc file args argsOk = .ok loaded)
      (hKill : loaded.result = .kill → dies x.runningProc) : Call dies label x { x with mem := loaded.mem }
  /-- A child that gets no address space is given up. -/
  | fork {uc : UserContext} {o : Outcomes} {mem : Memory} {ok : Bool} (hCall : label = .syscall .fork uc o)
      (hNew : x.runningProc < x.numPcbs)
      (h : UserMemory.ucCopy x.create.mem uc.sp x.numPcbs = .ok (mem, ok))
      (hFail : ok = false → dies x.numPcbs) : Call dies label x { x.create with mem := mem }

/-- What a trap does to the memory apart from that. A process that does not survive
the step does not get the processor. -/
inductive Space.Step (dies : Proc → Prop) : Space → Space → Prop where
  /-- Bytes are stored where the running process may write. -/
  | write {x : Space} {mem : Memory} {addr : Int} {bytes : List Byte}
      (h : x.mem.storeBytes addr bytes = .ok mem) : Step dies x { x with mem := mem }
  | heap {x : Space} (addr : Word) : Step dies x { x with mem := (KernelMemory.setKernelBrk x.mem addr).1 }
  /-- The kernel stack of a child is cloned. -/
  | clone {x : Space} {child : Proc} (hChild : child + 1 = x.numPcbs) (hOther : x.runningProc ≠ child) :
      Step dies x { x with mem := (KernelMemory.kcCopy x.mem child).1 }
  /-- The process that exits gives back its frames, and another one runs. -/
  | exit {x : Space} (next : Proc) (hDies : dies x.runningProc) (hNext : ¬dies next) : Step dies x
      { x with
        mem := KernelMemory.kcSwitch (UserMemory.ucSwitch
          (KernelMemory.deallocateKernelStack (UserMemory.deallocateRegion1 x.mem)) next) next
        runningProc := next }
  | switch {x : Space} (next : Proc) (hNext : ¬dies next) : Step dies x
      { x with mem := KernelMemory.kcSwitch (UserMemory.ucSwitch x.mem next) next, runningProc := next }

/-- Any number of operations. -/
abbrev Space.Steps (dies : Proc → Prop) : Space → Space → Prop := ReflTransGen (Space.Step dies)

/-- What a whole trap does. -/
def Space.Trap (dies : Proc → Prop) (label : Label) (x y : Space) : Prop :=
  ∃ z, Space.Call dies label x z ∧ Space.Steps dies z y

theorem Space.Steps.trap {dies : Proc → Prop} {label : Label} {x y : Space} (h : Space.Steps dies x y) :
    Space.Trap dies label x y := ⟨x, .none, h⟩

theorem Space.Call.trap {dies : Proc → Prop} {label : Label} {x y : Space} (h : Space.Call dies label x y) :
    Space.Trap dies label x y := ⟨y, h, .refl⟩

/-- What a handler does to the memory in the end: nothing, a store through a pointer of
its process, or a switch to another process. -/
inductive Space.Move (x : Space) : Space → Prop where
  | none : Move x x
  | store {mem : Memory} {addr : Int} {bytes : List Byte} (h : x.mem.storeBytes addr bytes = .ok mem) :
      Move x { x with mem := mem }
  | switch (next : Proc) : Move x
      { x with mem := KernelMemory.kcSwitch (UserMemory.ucSwitch x.mem next) next, runningProc := next }

/-- The process that runs exits, and `next` runs. -/
def Space.exitTo (x : Space) (next : Proc) : Space :=
  { x with
    mem := KernelMemory.kcSwitch (UserMemory.ucSwitch
      (KernelMemory.deallocateKernelStack (UserMemory.deallocateRegion1 x.mem)) next) next
    runningProc := next }

/-- All that the trap with this label does to the memory. The processes in `gone` do not
survive it, and the loader gets arguments that the trap `passes`. -/
inductive Space.Deed (gone : Proc → Prop) (label : Label) (passes : List (List Byte) → Prop) (x : Space) :
    Space → Prop where
  | move {y : Space} (h : Space.Move x y) : Deed gone label passes x y
  | brk {uc : UserContext} {o : Outcomes} (hCall : label = .syscall .brk uc o) :
      Deed gone label passes x { x with mem := (UserMemory.kernelBrkImpl x.mem (uc.regs 0) uc.sp).1 }
  | grow {uc : UserContext} (hCall : label = .memory uc) (hGrown : (UserMemory.expandStack x.mem uc.addr).2 = true) :
      Deed gone label passes x { x with mem := (UserMemory.expandStack x.mem uc.addr).1 }
  | overflow {uc : UserContext} (hCall : label = .memory uc)
      (hFailed : (UserMemory.expandStack x.mem uc.addr).2 = false) (hGone : gone x.runningProc) (next : Proc) :
      Deed gone label passes x (Space.exitTo { x with mem := (UserMemory.expandStack x.mem uc.addr).1 } next)
  | load {uc : UserContext} {file : LoadProgram.File} {args : List (List Byte)} {argsOk : Bool}
      {loaded : LoadProgram.Outcome} (hCall : label.loads = some file)
      (hArgs : passes args) (h : LoadProgram.loadProgram x.mem uc file args argsOk = .ok loaded)
      (hLives : loaded.result ≠ .kill) :
      Deed gone label passes x { x with mem := loaded.mem }
  | kill {uc : UserContext} {file : LoadProgram.File} {args : List (List Byte)} {argsOk : Bool}
      {loaded : LoadProgram.Outcome} (hCall : label.loads = some file)
      (hArgs : passes args) (h : LoadProgram.loadProgram x.mem uc file args argsOk = .ok loaded)
      (hKill : loaded.result = .kill) (hGone : gone x.runningProc) (next : Proc) : Deed gone label passes x (Space.exitTo { x with mem := loaded.mem } next)
  /-- A child that gets no address space is given up. -/
  | refuse {uc : UserContext} {o : Outcomes} {mem : Memory} (hCall : label = .syscall .fork uc o)
      (h : UserMemory.ucCopy x.create.mem uc.sp x.numPcbs = .ok (mem, false)) (hGone : gone x.numPcbs) :
      Deed gone label passes x { x.create with mem := mem }
  | fork {uc : UserContext} {o : Outcomes} {mem : Memory} (hCall : label = .syscall .fork uc o)
      (h : UserMemory.ucCopy x.create.mem uc.sp x.numPcbs = .ok (mem, true)) :
      Deed gone label passes x { x.create with mem := (KernelMemory.kcCopy (Kernel.heapMoves mem o.brk) x.numPcbs).1 }
  | exit (hGone : gone x.runningProc) (next : Proc) : Deed gone label passes x (x.exitTo next)
  | heap (addr : Word) : Deed gone label passes x { x with mem := (KernelMemory.setKernelBrk x.mem addr).1 }

/-- A process that was created and exists no longer. -/
def Kernel.Gone (s : Kernel) (proc : Proc) : Prop :=
  proc < s.numPcbs ∧ proc ≠ s.idleProc ∧ ¬s.Live proc

/-- The processes that are gone at the end of a step are among those in `dies`, and
the one that runs is not. -/
structure Kernel.Fates (t : Kernel) (dies : Proc → Prop) : Prop where
  gone : ∀ p, t.Gone p → dies p
  running : ¬dies t.runningProc

namespace Kernel

variable {s t : Kernel} {o : Outcomes} {label : Label} {dies : Proc → Prop}

theorem move_of_eq (h : t.space = s.space) : Space.Move s.space t.space := by
  rw [h]
  exact .none

theorem move_store {mem : Except Stop Memory} {f : Memory → Kernel} {addr : Int} {bytes : List Byte}
    (h : (do let m ← mem; return f m) = Except.ok t) (hStore : mem = s.mem.storeBytes addr bytes)
    (hSame : ∀ m, (f m).space = (s.setMem m).space) : Space.Move s.space t.space := by
  obtain ⟨m, hMem, h⟩ := bind_eq_ok.mp h
  obtain rfl := Except.ok.inj h
  rw [hSame]
  exact .store (hStore ▸ hMem)

omit [Hardware] in
theorem Fates.leave (h : Fates s.leave dies) : Fates s dies := by
  unfold Kernel.leave at h
  split at h
  · exact ⟨h.gone, h.running⟩
  · exact h

theorem space_fullContextSwitch (s : Kernel) (curr : Option (Proc × KernelContext)) (next : Proc) :
    (s.fullContextSwitch curr next).space = { s.space with
      mem := KernelMemory.kcSwitch (UserMemory.ucSwitch s.space.mem next) next, runningProc := next } := by
  cases curr with
  | none => rfl
  | some saved => rfl

theorem move_switch (s : Kernel) (curr : Option (Proc × KernelContext)) (next : Proc) :
    Space.Move s.space (s.fullContextSwitch curr next).space := by
  rw [space_fullContextSwitch]
  exact .switch next

/-- A caller that has parked itself is switched away. -/
theorem move_block {parked : Kernel} (kc : KernelContext) (hParked : parked.space = s.space) :
    Space.Move s.space (parked.switchAway kc).space := by
  rw [← hParked, ← space_getNextProcess parked]
  exact move_switch _ _ _

theorem move_ok {u : Kernel} (h : Except.ok u = (Except.ok t : Except Stop Kernel))
    (hSame : u.space = s.space) : Space.Move s.space t.space := by
  obtain rfl := Except.ok.inj h
  exact move_of_eq hSame

/-- A process that exits is gone. -/
theorem gone_kernelExit {code : Word} (hRunning : s.runningProc < s.numPcbs) (hIdle : s.runningProc ≠ s.idleProc)
    (h : s.kernelExit code = .ok t) : t.Gone s.runningProc := by
  have hCpu := cpu_kernelExit h
  have hSize : t.numPcbs = s.numPcbs := congrArg Cpu.numPcbs hCpu
  have hSame : t.idleProc = s.idleProc := congrArg Cpu.idleProc hCpu
  refine ⟨hSize ▸ hRunning, hSame ▸ hIdle, fun hLive => ?_⟩
  obtain ⟨-, marked, detached, rfl, hQuiet, rfl⟩ := kernelExit_cases h
  have hState : (detached.pcb s.runningProc).state = .exited := by
    rw [hQuiet.state]
    simp [modifyPcb]
  exact hLive.2.2.2 hState

/-- The same for a caller that exits in the course of its call. -/
theorem gone_of_kernelExit {left : Kernel} {code : Word} (hRunning : s.runningProc < s.numPcbs)
    (hIdle : s.runningProc ≠ s.idleProc) (hCpu : left.cpu = s.cpu) (h : left.kernelExit code = .ok t) :
    t.Gone s.runningProc := by
  rw [← runningProc_of_cpu hCpu, ← numPcbs_of_cpu hCpu] at hRunning
  rw [← runningProc_of_cpu hCpu, ← idleProc_of_cpu hCpu] at hIdle
  rw [← runningProc_of_cpu hCpu]
  exact gone_kernelExit hRunning hIdle h

omit [Hardware] in
theorem Gone.leave {p : Proc} (h : s.Gone p) : s.leave.Gone p := by
  unfold Kernel.leave
  split
  · exact h
  · exact h

theorem space_kernelExit {code : Word} (h : s.kernelExit code = .ok t) : t.space = s.space.exitTo t.runningProc := by
  unfold kernelExit at h
  dsimp only at h
  split_ifs at h
  obtain rfl := Except.ok.inj h
  have hMem : s.getNextProcess.1.mem = s.mem := congrArg Space.mem (space_getNextProcess s)
  rw [space_fullContextSwitch, space_retirePcb, space_setMem, space_emit, space_modifyPcb, space_getNextProcess]
  show { s.space with
    mem := KernelMemory.kcSwitch (UserMemory.ucSwitch (KernelMemory.deallocateKernelStack
      (UserMemory.deallocateRegion1 s.getNextProcess.1.mem)) s.getNextProcess.2) s.getNextProcess.2
    runningProc := s.getNextProcess.2 } = _
  rw [hMem]
  rfl

/-- The arguments that the trap gives to the loader. -/
def Passes (s : Kernel) (label : Label) (args : List (List Byte)) : Prop :=
  match label with
  | .syscall .exec uc _ => (s.saveUc uc).execArgs = .ok (some args)
  | .resume _ => (s.pcb s.runningProc).kc = some .boot ∧ args = cmdArgs
  | _ => False

variable {passes : List (List Byte) → Prop} {gone : Proc → Prop}

theorem deed_kernelExit {code : Word} (hRunning : s.runningProc < s.numPcbs) (hIdle : s.runningProc ≠ s.idleProc)
    (hGone : ∀ p, t.Gone p → gone p) (h : s.kernelExit code = .ok t) :
    Space.Deed gone label passes s.space t.space := by
  rw [space_kernelExit h]
  exact .exit (hGone _ (gone_kernelExit hRunning hIdle h)) _

theorem deed_kernelExec {uc : UserContext} (hCall : label = .syscall .exec uc o)
    (hArgs : ∀ args, s.execArgs = .ok (some args) → passes args) (hRunning : s.runningProc < s.numPcbs)
    (hIdle : s.runningProc ≠ s.idleProc) (hGone : ∀ p, t.Gone p → gone p) (h : s.kernelExec o = .ok t) :
    Space.Deed gone label passes s.space t.space := by
  obtain ⟨args, hChecked, h⟩ := bind_eq_ok.mp h
  cases args with
  | none => exact .move (move_ok h rfl)
  | some args =>
      obtain ⟨loaded, hLoad, h⟩ := bind_eq_ok.mp h
      have hLoads : label.loads = some o.file := by rw [hCall]; rfl
      split at h
      · rename_i hResult
        generalize hLoaded : (s.setMem loaded.mem).modifyPcb s.runningProc _ = left at h
        have hCpu : left.cpu = s.cpu := by
          rw [← hLoaded]
          exact (cpu_modifyPcb rfl rfl).trans (cpu_setMem s _)
        have hLeft : left.space = { s.space with mem := loaded.mem } := by
          rw [← hLoaded]
          rfl
        have hDies := hGone _ (gone_of_kernelExit hRunning hIdle hCpu h)
        rw [space_kernelExit h, hLeft]
        exact .kill hLoads (hArgs args hChecked) hLoad hResult hDies _
      · rename_i hResult
        obtain rfl := Except.ok.inj h
        exact .load hLoads (hArgs args hChecked) hLoad (by simp [hResult])
      · rename_i hResult
        obtain rfl := Except.ok.inj h
        exact .load hLoads (hArgs args hChecked) hLoad (by simp [hResult])

theorem space_forkLink (s : Kernel) (child : Proc) (o : Outcomes) :
    (s.forkLink child o).space = { s.space with mem := heapMoves s.mem o.brk } := by
  unfold forkLink
  dsimp only
  have hLinked : (((s.ret (BitVec.ofNat 32 (s.pcb child).pid)).setResult child 0).addChildProc
      s.runningProc child (o.alloc 4)).1.space = s.space := space_addChildProc _ _ _ _
  have hMem := congrArg Space.mem hLinked
  rw [space_setMem, space_emit, hLinked]
  exact congrArg (fun mem => { s.space with mem := heapMoves mem o.brk }) hMem

theorem space_forkCommit (s : Kernel) (child : Proc) (o : Outcomes) : (s.forkCommit child o).space =
    { s.space with mem := (KernelMemory.kcCopy (heapMoves s.mem o.brk) child).1 } := by
  have hLinked : ((s.forkLink child o).scheduleProcess child).space =
      { s.space with mem := heapMoves s.mem o.brk } := by
    rw [space_scheduleProcess, space_forkLink]
  have hMem := congrArg Space.mem hLinked
  unfold forkCommit
  dsimp only
  have hCopied : (((s.forkLink child o).scheduleProcess child).setMem (KernelMemory.kcCopy
      ((s.forkLink child o).scheduleProcess child).mem child).1).space =
      { s.space with mem := (KernelMemory.kcCopy (heapMoves s.mem o.brk) child).1 } := by
    rw [space_setMem, hLinked]
    exact congrArg (fun mem => { s.space with mem := (KernelMemory.kcCopy mem child).1 }) hMem
  split_ifs
  · exact hCopied
  · exact hCopied

theorem deed_kernelFork {uc : UserContext} (hCall : label = .syscall .fork uc o)
    (hUc : (s.pcb s.runningProc).uc = uc) (hIdle : s.idleProc < s.numPcbs) (hGone : ∀ p, t.Gone p → gone p)
    (h : s.kernelFork o = .ok t) : Space.Deed gone label passes s.space t.space := by
  obtain ⟨kc, -, hCpu⟩ := cpu_kernelFork h
  have hSame : t.idleProc = s.idleProc := congrArg Cpu.idleProc hCpu
  unfold kernelFork at h
  dsimp only at h
  split at h
  · cases h
  · rename_i created child hCreate
    have hCreated : child = s.numPcbs ∧ created.space = s.space.create := by
      unfold createNewPcb at hCreate
      dsimp only at hCreate
      split_ifs at hCreate
      · obtain ⟨rfl, hSome⟩ := Prod.mk.inj hCreate
        exact ⟨(Option.some.inj hSome).symm, rfl⟩
      · cases hCreate
    obtain ⟨rfl, hSpace⟩ := hCreated
    obtain ⟨⟨mem, ok⟩, hCopy, h⟩ := bind_eq_ok.mp h
    have hMem : created.mem = s.space.create.mem := congrArg Space.mem hSpace
    have hSize : created.numPcbs = s.numPcbs + 1 := congrArg Space.numPcbs hSpace
    have hSet : (created.setMem mem).space = { s.space.create with mem := mem } := by
      rw [space_setMem, hSpace]
    rw [hUc, hMem] at hCopy
    cases ok with
    | false =>
        have hFreed : t.space = (created.setMem mem).space := by
          obtain rfl := Except.ok.inj h
          rw [space_freePcb, space_retirePcb]
          rfl
        have hLost : t.Gone s.numPcbs := by
          have hMore : t.numPcbs = created.numPcbs := congrArg Space.numPcbs hFreed
          refine ⟨by rw [hMore, hSize]; exact Nat.lt_succ_self _, ?_, fun hLive => ?_⟩
          · rw [hSame]
            exact hIdle.ne'
          · obtain rfl := Except.ok.inj h
            have hFlag := hLive.2.2.1
            simp [freePcb, modifyPcb, emit] at hFlag
        rw [hFreed, hSet]
        exact .refuse hCall hCopy (hGone _ hLost)
    | true =>
        obtain rfl := Except.ok.inj h
        have hUcSet : ((created.setMem mem).modifyPcb s.numPcbs fun p => { p with uc := (s.pcb s.runningProc).uc }).space =
            { s.space.create with mem := mem } := hSet
        rw [space_forkCommit, hUcSet]
        exact .fork hCall hCopy

theorem move_kernelWait (h : s.kernelWait o = .ok t) : Space.Move s.space t.space := by
  unfold kernelWait at h
  dsimp only at h
  split at h
  · obtain rfl := Except.ok.inj h
    exact move_block _ (space_waitBlockProcess s _)
  · rename_i found code hFound
    rw [← space_findExitedChild hFound]
    split_ifs at h
    · exact move_ok h rfl
    · exact move_store h rfl fun _ => rfl

theorem move_waitReturn (h : s.waitReturn = .ok t) : Space.Move s.space t.space := by
  unfold waitReturn at h
  split_ifs at h
  · exact move_ok h rfl
  · exact move_store h rfl fun _ => rfl

theorem deed_bootReturn (hCall : label = .resume o) (hArgs : passes cmdArgs) (h : s.bootReturn o = .ok t) :
    Space.Deed gone label passes s.space t.space := by
  obtain ⟨loaded, hLoad, h⟩ := bind_eq_ok.mp h
  cases hResult : loaded.result with
  | success =>
      simp only [hResult] at h
      obtain rfl := Except.ok.inj h
      exact .load (by rw [hCall]; rfl) hArgs hLoad (by simp [hResult])
  | error =>
      simp only [hResult] at h
      cases h
  | kill =>
      simp only [hResult] at h
      cases h

/-- The init calls: create an object, then store its identifier. -/
theorem move_init {created : Kernel × Option Nat} {addr flag : Word}
    (hCreated : created.1.space = s.space)
    (h : (match created with
      | (u, none) => .ok (u.ret errorCode)
      | (u, some id) => u.storeId addr (Identifiers.createId flag id)) = Except.ok t) :
    Space.Move s.space t.space := by
  obtain ⟨u, result⟩ := created
  rw [← hCreated]
  cases result with
  | none => exact move_ok h rfl
  | some id => exact move_store h rfl fun _ => rfl

theorem move_pipeReadLoop {id len : Nat} {buf : Word} (h : s.pipeReadLoop id buf len = .ok t) :
    Space.Move s.space t.space := by
  unfold pipeReadLoop at h
  split at h
  · exact move_ok h rfl
  · split_ifs at h
    · obtain rfl := Except.ok.inj h
      exact move_block _ (space_pipeBlock s id)
    · exact move_store h rfl fun _ => rfl

theorem move_pipeReadImpl (h : s.pipeReadImpl = .ok t) : Space.Move s.space t.space := by
  unfold pipeReadImpl at h
  dsimp only at h
  split_ifs at h
  · exact move_ok h rfl
  · exact move_ok h rfl
  · exact move_pipeReadLoop h

theorem move_pipeWriteImpl (h : s.pipeWriteImpl o = .ok t) : Space.Move s.space t.space := by
  unfold pipeWriteImpl at h
  dsimp only at h
  split_ifs at h
  · exact move_ok h rfl
  · exact move_ok h rfl
  · split at h
    · exact move_ok h rfl
    · obtain ⟨bytes, -, h⟩ := bind_eq_ok.mp h
      refine move_ok h ?_
      rw [space_ret, space_wakeReaders]
      rfl

theorem move_consumeIntoUser {id len : Nat} {buf : Word} (h : s.consumeIntoUser id buf len = .ok t) :
    Space.Move s.space t.space := by
  rw [← space_consume s id len]
  exact move_store h rfl fun _ => rfl

theorem move_kernelTtyReadImpl (h : s.kernelTtyReadImpl = .ok t) : Space.Move s.space t.space := by
  unfold kernelTtyReadImpl at h
  dsimp only at h
  split_ifs at h
  · exact move_ok h rfl
  · exact move_ok h rfl
  · exact move_consumeIntoUser h
  · obtain rfl := Except.ok.inj h
    exact move_block _ (space_ttyReadBlock s _ _ _)

theorem move_kernelTtyWriteImpl (h : s.kernelTtyWriteImpl o = .ok t) : Space.Move s.space t.space := by
  unfold kernelTtyWriteImpl at h
  dsimp only at h
  split_ifs at h
  · exact move_ok h rfl
  · exact move_ok h rfl
  · exact move_ok h rfl
  · obtain ⟨bytes, -, h⟩ := bind_eq_ok.mp h
    obtain rfl := Except.ok.inj h
    exact move_block _ (space_ttyWriteBlock s _ _)

theorem move_guardBuf {needsWrite : Bool} {body : Except Stop Kernel}
    (hBody : body = .ok t → Space.Move s.space t.space)
    (h : s.guardBuf needsWrite body = .ok t) : Space.Move s.space t.space := by
  unfold guardBuf at h
  split_ifs at h
  · exact hBody h
  · exact move_ok h rfl

theorem move_acquireImpl {isId : Word → Bool} {kc : Nat → KernelContext} (h : s.acquireImpl isId kc = t) :
    Space.Move s.space t.space := by
  unfold acquireImpl at h
  dsimp only at h
  split_ifs at h
  · exact move_of_eq (h ▸ rfl)
  · split at h
    all_goals
      rename_i next hAcquire
      have hSame := space_fst (space_acquire s _ _ _) hAcquire
      subst h
    · exact move_of_eq hSame
    · exact move_of_eq hSame
    · exact move_block _ ((space_ret next _).trans hSame)

theorem move_kernelCvarWait (h : s.kernelCvarWait = t) : Space.Move s.space t.space := by
  unfold kernelCvarWait at h
  dsimp only at h
  split_ifs at h
  · exact move_of_eq (h ▸ rfl)
  · split at h
    all_goals
      rename_i next hWait
      have hSame := space_fst (space_waitCvar s _ _ _) hWait
      subst h
    · exact move_block _ ((space_ret next _).trans hSame)
    · exact move_of_eq hSame

theorem move_kernelDelay (h : s.kernelDelay o = t) : Space.Move s.space t.space := by
  unfold kernelDelay at h
  dsimp only at h
  split_ifs at h
  · exact move_of_eq (h ▸ rfl)
  · exact move_of_eq (h ▸ rfl)
  · split at h
    all_goals
      rename_i next hSleep
      have hSame := space_fst (space_putToSleep s _ _ _) hSleep
      subst h
    · exact move_block _ ((space_ret next _).trans hSame)
    · exact move_of_eq hSame

theorem space_kernelReclaim (s : Kernel) (o : Outcomes) : (s.kernelReclaim o).space = s.space := by
  unfold kernelReclaim
  dsimp only
  rw [space_retBool]
  split_ifs
  · exact space_deleteLock s _ _
  · exact space_pipeReclaim s _
  · exact space_deleteCvar s _ _
  · rfl

theorem move_preempt (s : Kernel) : Space.Move s.space s.preempt.space := by
  have hChosen : (s.scheduleProcess s.runningProc).getNextProcess.1.space = s.space := by
    rw [space_getNextProcess, space_scheduleProcess]
  unfold preempt
  dsimp only
  split_ifs
  · rw [← hChosen]
    exact move_switch _ _ _
  · exact move_of_eq hChosen

theorem deed_dispatch (hRunning : s.runningProc < s.numPcbs) (hIdle : s.idleProc < s.numPcbs)
    (hOther : s.runningProc ≠ s.idleProc) (hGone : ∀ p, t.Gone p → gone p) {call : Syscall} {uc : UserContext}
    (hUc : (s.pcb s.runningProc).uc = uc)
    (hArgs : call = .exec → ∀ args, s.execArgs = .ok (some args) → passes args) (h : s.dispatch call o = .ok t) :
    Space.Deed gone (.syscall call uc o) passes s.space t.space := by
  unfold dispatch at h
  cases call with
  | getPid => exact .move (move_ok h rfl)
  | brk =>
      obtain rfl := Except.ok.inj h
      have hReg : s.reg 0 = uc.regs 0 := by rw [← hUc]; rfl
      unfold kernelBrk
      dsimp only
      rw [hReg, hUc]
      exact .brk rfl
  | delay => exact .move (move_kernelDelay (Except.ok.inj h))
  | exit => exact deed_kernelExit hRunning hOther hGone h
  | fork => exact deed_kernelFork rfl hUc hIdle hGone h
  | exec => exact deed_kernelExec rfl (hArgs rfl) hRunning hOther hGone h
  | wait => exact .move (move_kernelWait h)
  | ttyRead => exact .move (move_guardBuf move_kernelTtyReadImpl h)
  | ttyWrite => exact .move (move_guardBuf move_kernelTtyWriteImpl h)
  | lockInit =>
      unfold kernelLockInit at h
      dsimp only at h
      split_ifs at h
      · exact .move (move_ok h rfl)
      · exact .move (move_init (space_newLock s _ _ _) h)
  | cvarInit =>
      unfold kernelCvarInit at h
      dsimp only at h
      split_ifs at h
      · exact .move (move_ok h rfl)
      · exact .move (move_init (space_newCvar s _) h)
  | acquire => exact .move (move_acquireImpl (Except.ok.inj h))
  | release => exact .move (move_ok h (space_releaseImpl s _))
  | cvarSignal => exact .move (move_ok h (space_kernelCvarSignal s))
  | cvarBroadcast => exact .move (move_ok h (space_kernelCvarBroadcast s))
  | cvarWait => exact .move (move_kernelCvarWait (Except.ok.inj h))
  | reclaim => exact .move (move_ok h (space_kernelReclaim s o))
  | semUp => exact .move (move_ok h (space_releaseImpl s _))
  | semDown => exact .move (move_acquireImpl (Except.ok.inj h))
  | semInit =>
      unfold kernelSemInit at h
      dsimp only at h
      split_ifs at h
      · exact .move (move_ok h rfl)
      · exact .move (move_init (space_newLock s _ _ _) h)
  | pipeInit =>
      unfold kernelPipeInit at h
      dsimp only at h
      split_ifs at h
      · exact .move (move_ok h rfl)
      · exact .move (move_init (space_newPipe s _ _) h)
  | pipeRead => exact .move (move_guardBuf move_pipeReadImpl h)
  | pipeWrite => exact .move (move_guardBuf move_pipeWriteImpl h)
  | notImplemented => exact .move (move_ok h rfl)

/-- Only the first return of a process calls the loader. -/
theorem move_continueAt {kc : KernelContext} (hKc : kc ≠ .boot) (h : s.continueAt kc o = .ok t) :
    Space.Move s.space t.space := by
  cases kc with
  | boot => exact absurd rfl hKc
  | wait => exact move_waitReturn h
  | pipeRead id buf len => exact move_pipeReadLoop h
  | ttyRead id => exact move_consumeIntoUser h
  | ttyWrite id => exact move_ok h (space_ttyWriteReturn s id)
  | fork => exact move_ok h rfl
  | clock => exact move_ok h rfl
  | delay => exact move_ok h rfl
  | acquire id => exact move_ok h rfl
  | semDown id => exact move_ok h rfl
  | cvarWait id => exact move_ok h rfl

theorem deed_step (hRunning : s.runningProc < s.numPcbs) (hIdle : s.idleProc < s.numPcbs)
    (h : s.step label = .ok t) : Space.Deed t.Gone label (s.Passes label) s.space t.space := by
  cases label with
  | syscall call uc o =>
      simp only [step] at h
      split_ifs at h with hUser
      obtain ⟨done, hDone, h⟩ := bind_eq_ok.mp h
      obtain rfl := Except.ok.inj h
      rw [space_leave]
      have hSaved : ((s.saveUc uc).pcb (s.saveUc uc).runningProc).uc = uc := by simp [saveUc, modifyPcb]
      refine deed_dispatch (s := s.saveUc uc) hRunning hIdle hUser.2 (fun p => Gone.leave) hSaved ?_ hDone
      rintro rfl args hArgs
      exact hArgs
  | clock uc o =>
      simp only [step] at h
      split_ifs at h
      obtain rfl := Except.ok.inj h
      have hTicked : ((s.tick o).saveUc uc).space = s.space := space_tick s o
      rw [trapClockHandler, space_leave, ← hTicked]
      exact .move (move_preempt _)
  | math =>
      simp only [step] at h
      split_ifs at h with hUser
      exact deed_kernelExit hRunning hUser.2 (fun _ hGone => hGone) h
  | illegal =>
      simp only [step] at h
      split_ifs at h with hUser
      exact deed_kernelExit hRunning hUser.2 (fun _ hGone => hGone) h
  | memory uc =>
      simp only [step] at h
      split_ifs at h with hUser
      unfold trapMemoryHandler at h
      dsimp only at h
      split_ifs at h with hGrown
      · obtain rfl := Except.ok.inj h
        exact .grow rfl hGrown
      · have hGone := gone_kernelExit
          (s := s.setMem (UserMemory.expandStack s.mem uc.addr).1) hRunning hUser.2 h
        rw [space_kernelExit h]
        exact .overflow (x := s.space) rfl (eq_false_of_ne_true hGrown) hGone _
  | ttyReceive uc ttyId line lineOk =>
      simp only [step] at h
      split_ifs at h
      refine .move (move_ok h ?_)
      rw [trapTtyHandler, space_leave, space_ttyReceiveDone, space_saveUc]
  | ttyTransmit uc ttyId =>
      simp only [step] at h
      split_ifs at h
      refine .move (move_ok h ?_)
      rw [trapTtyHandler, space_leave, space_ttyTransmitDone, space_saveUc]
  | resume o =>
      simp only [step] at h
      split_ifs at h
      unfold resume at h
      split at h
      · cases h
      · rename_i kc hKc
        obtain ⟨done, hDone, h⟩ := bind_eq_ok.mp h
        obtain rfl := Except.ok.inj h
        rw [space_leave]
        by_cases hBoot : kc = .boot
        · subst hBoot
          exact deed_bootReturn (s := { s with mode := .user }) rfl ⟨hKc, rfl⟩ hDone
        · exact .move (move_continueAt (s := { s with mode := .user }) hBoot hDone)
  | heap addr =>
      obtain rfl := Except.ok.inj h
      exact .heap addr
  | userStore addr byte =>
      simp only [step] at h
      split_ifs at h with hStore
      obtain rfl := Except.ok.inj h
      have hByte : s.mem.storeBytes addr [byte] = .ok (s.mem.pokeByte addr byte) := by
        simp [Memory.storeBytes, hStore.2]
      exact .move (.store hByte)

end Kernel

section Coarser

variable {dies gone : Proc → Prop} {label : Label} {passes : List (List Byte) → Prop} {x y : Space}

theorem Space.Move.steps (h : Space.Move x y) (hNext : ¬dies y.runningProc) : Space.Steps dies x y := by
  cases h with
  | none => exact .refl
  | store h => exact .single (.write h)
  | switch next => exact .single (.switch next hNext)

theorem Space.steps_heapMoves (x : Space) (brk : List Word) :
    Space.Steps dies x { x with mem := Kernel.heapMoves x.mem brk } := by
  induction brk generalizing x with
  | nil => exact .refl
  | cons addr brk ih => exact .trans (.single (.heap addr)) (ih _)

theorem Space.Deed.trap (h : Space.Deed gone label passes x y) (hDies : ∀ p, gone p → dies p)
    (hNext : ¬dies y.runningProc) (hNew : x.runningProc < x.numPcbs) : Space.Trap dies label x y := by
  cases h with
  | move h => exact (h.steps hNext).trap
  | brk hCall => exact (Call.brk hCall).trap
  | grow hCall hGrown => exact (Call.grow hCall fun hFailed => by simp [hGrown] at hFailed).trap
  | overflow hCall hFailed hGone next =>
      exact ⟨_, .grow hCall fun _ => hDies _ hGone, .single (.exit next (hDies _ hGone) hNext)⟩
  | load hCall hArgs h hLives => exact (Call.load hCall h fun hKill => absurd hKill hLives).trap
  | kill hCall hArgs h hKill hGone next =>
      exact ⟨_, .load hCall h fun _ => hDies _ hGone, .single (.exit next (hDies _ hGone) hNext)⟩
  | refuse hCall h hGone => exact (Call.fork hCall hNew h fun _ => hDies _ hGone).trap
  | @fork uc o mem hCall h =>
      refine ⟨_, .fork hCall hNew h (fun hFail => by cases hFail), ?_⟩
      exact .tail (Space.steps_heapMoves { x.create with mem := mem } o.brk) (.clone rfl hNew.ne)
  | exit hGone next => exact Space.Steps.trap (.single (.exit next (hDies _ hGone) hNext))
  | heap addr => exact Space.Steps.trap (.single (.heap addr))

end Coarser

/-- Every trap is one call, followed by operations of the kernel. -/
theorem Kernel.trap_step {s t : Kernel} {label : Label} {dies : Proc → Prop} (hRunning : s.runningProc < s.numPcbs)
    (hIdle : s.idleProc < s.numPcbs) (hEnd : Fates t dies) (h : s.step label = .ok t) :
    Space.Trap dies label s.space t.space :=
  (deed_step hRunning hIdle h).trap hEnd.gone hEnd.running hRunning

/-- The memory serves the running process, and the kernel heap is in bounds. -/
structure Space.Served (x : Space) : Prop where
  current : x.mem.Current x.runningProc
  bounds : x.mem.HeapBounds

theorem Space.Served.of_kernelSide {x : Space} (h : x.Served) {mem : Memory}
    (hSame : mem.kernelSide = x.mem.kernelSide) : Space.Served { x with mem := mem } where
  current := h.current.of_installed x.mem.currentBrkPage (Memory.installed_of_kernelSide hSame x.runningProc)
  bounds := h.bounds.of_brk (congrArg KernelSide.currentBrkPage hSame)

theorem Space.Served.clone {x : Space} (h : x.Served) {child : Proc} (hOther : x.runningProc ≠ child) :
    Space.Served { x with mem := (KernelMemory.kcCopy x.mem child).1 } :=
  ⟨h.current.of_installed _ (KernelMemory.installed_kcCopy h.bounds hOther),
    KernelMemory.heapBounds_kcCopy h.bounds child⟩

/-- No call changes what is set up. -/
theorem Space.Served.call {dies : Proc → Prop} {label : Label} {x y : Space} (h : x.Served)
    (hCall : Space.Call dies label x y) : y.Served := by
  cases hCall with
  | none => exact h
  | brk _ => exact h.of_kernelSide (UserMemory.steps_kernelBrkImpl x.mem _ _).kernelSide
  | grow _ _ => exact h.of_kernelSide (UserMemory.steps_expandStack x.mem _).kernelSide
  | load _ hLoad _ => exact h.of_kernelSide (LoadProgram.steps_loadProgram hLoad).kernelSide
  | fork _ hNew hCopy _ =>
      have hCreated : x.create.Served := by
        refine ⟨h.current.of_installed x.mem.currentBrkPage ?_, h.bounds.of_brk rfl⟩
        simp only [Memory.installed, create, Function.update_of_ne hNew.ne]
      exact hCreated.of_kernelSide (UserMemory.kernelSide_ucCopy hCopy)

/-- Only a switch changes what is set up, and it changes all of it. -/
theorem Space.Served.step {dies : Proc → Prop} {x y : Space} (h : x.Served) (hStep : Space.Step dies x y) :
    y.Served := by
  cases hStep with
  | write hStore => exact h.of_kernelSide (UserMemory.steps_storeBytes hStore).kernelSide
  | heap addr =>
      exact ⟨h.current.of_installed _ (KernelMemory.installed_setKernelBrk h.bounds addr),
        KernelMemory.heapBounds_setKernelBrk h.bounds addr⟩
  | clone hChild hOther => exact h.clone hOther
  | exit next hDies hNext =>
      have hSide := (KernelMemory.kernelSide_deallocateKernelStack (UserMemory.deallocateRegion1 x.mem)).trans
        (UserMemory.steps_deallocateRegion1 x.mem).kernelSide
      exact ⟨.switch _ next, h.bounds.of_brk (congrArg KernelSide.currentBrkPage hSide)⟩
  | switch next hNext => exact ⟨.switch x.mem next, h.bounds.of_brk rfl⟩

theorem Space.Served.steps {dies : Proc → Prop} {x y : Space} (h : x.Served) (hSteps : Space.Steps dies x y) :
    y.Served := by
  induction hSteps with
  | refl => exact h
  | tail hBefore hLast ih => exact ih.step hLast

theorem Space.Served.trap {dies : Proc → Prop} {label : Label} {x y : Space} (h : x.Served)
    (hTrap : Space.Trap dies label x y) : y.Served := by
  obtain ⟨z, hCall, hSteps⟩ := hTrap
  exact (h.call hCall).steps hSteps

end Steps

namespace KernelStart

open Kernel

section Boot

variable [Hardware]

/-- The break moves of the kernel heap before virtual memory is enabled. -/
theorem heapMoves_disabled {m : Memory} (hVm : m.vmEnabled = false) (h : m.HeapBounds) (brk : List Word) :
    ∃ page, heapMoves m brk = { m with currentBrkPage := page } ∧ (heapMoves m brk).HeapBounds := by
  induction brk generalizing m with
  | nil => exact ⟨m.currentBrkPage, rfl, h⟩
  | cons addr brk ih =>
      obtain ⟨page, hMove⟩ : ∃ page, (KernelMemory.setKernelBrk m addr).1 = { m with currentBrkPage := page } := by
        unfold KernelMemory.setKernelBrk
        dsimp only
        split_ifs
        · exact ⟨m.currentBrkPage, rfl⟩
        · exact ⟨_, rfl⟩
      have hBounds := KernelMemory.heapBounds_setKernelBrk h addr
      rw [hMove] at hBounds
      have hRest : heapMoves m (addr :: brk) = heapMoves { m with currentBrkPage := page } brk := by
        rw [← hMove]
        rfl
      obtain ⟨last, hEq, hLast⟩ := ih (m := { m with currentBrkPage := page }) hVm hBounds
      rw [hRest]
      exact ⟨last, hEq, hLast⟩

/-- The region 0 table of `KernelStart`, when the heap has moved its break to `page`. -/
theorem initRegion0Pt_boot (uctxt : UserContext) {page : Int}
    (hBounds : Memory.HeapBounds { (bootPcbs uctxt).mem with currentBrkPage := page }) :
    ∃ frames : Frames, KernelMemory.initRegion0Pt { (bootPcbs uctxt).mem with currentBrkPage := page } 0 =
      ({ (bootPcbs uctxt).mem with
        frames := frames
        currentBrkPage := page
        region0Pt := KernelMemory.bootTable page
        ksPt := Function.update (bootPcbs uctxt).mem.ksPt 0 fun i =>
          if 0 ≤ i ∧ i < kStackVpns then KernelMemory.bootTable page (KernelMemory.stackBase + i)
          else (bootPcbs uctxt).mem.ksPt 0 i }, true) ∧ frames.nextFree = 0 ∧
      ∀ pfn : Nat, frames.used pfn ↔ (KernelMemory.bootTable page pfn).valid = true := by
  have hFree (n : Nat) : (bootPcbs uctxt).mem.frames.checkIfFree n = true := by
    rw [Frames.checkIfFree_eq]
    simp [bootPcbs, createNewPcb, bootOutcomes, image, Frames.initializeFrameTracking]
  have hSize : (bootPcbs uctxt).mem.frames.numFrames = pmemSize / pageSize - pmemBaseFrame := by
    simp [bootPcbs, createNewPcb, bootOutcomes, image, Frames.initializeFrameTracking]
  have hNext : (bootPcbs uctxt).mem.frames.nextFree = 0 := by
    simp [bootPcbs, createNewPcb, bootOutcomes, image, Frames.initializeFrameTracking]
  have hRoom : KernelMemory.stackLimit ≤ pmemBaseFrame + (bootPcbs uctxt).mem.frames.numFrames := by
    have hPages := stack_le_pmem
    have hPageSize : pmemSize / pageSize = pmemSize / 2 ^ pageShift := rfl
    rw [hSize, hPageSize]
    unfold KernelMemory.stackLimit
    omega
  obtain ⟨frames, hEq, hFirst, -, hUsed⟩ := KernelMemory.initRegion0Pt_eq
    (m := { (bootPcbs uctxt).mem with currentBrkPage := page }) hFree hBounds hRoom 0
  exact ⟨frames, hEq, hFirst.trans hNext, hUsed⟩

/-- The page tables that `KernelStart` builds are those of the idle process. -/
theorem served_bootMemory (uctxt : UserContext) (early late : List Word) :
    Space.Served ⟨bootMemory (bootPcbs uctxt).mem early late, 0, 2⟩ := by
  have hImage : (bootPcbs uctxt).mem.HeapBounds := ⟨le_rfl, Int.ofNat_le.mpr brk_le_stack⟩
  obtain ⟨page, hEarly, hBounds⟩ := heapMoves_disabled rfl hImage early
  rw [hEarly] at hBounds
  obtain ⟨frames, hBuilt, -, -⟩ := initRegion0Pt_boot uctxt hBounds
  unfold bootMemory
  dsimp only
  rw [hEarly, hBuilt]
  dsimp only
  generalize hRegion0 : ({ (bootPcbs uctxt).mem with
    frames := frames
    currentBrkPage := page
    region0Pt := KernelMemory.bootTable page
    ksPt := _ } : Memory) = built
  have hServed : Space.Served ⟨(UserMemory.initRegion1Pt built 0).1, 0, 2⟩ := by
    have hReady (ctx : Proc → MemCtx) :
        Space.Served ⟨{ built with active := 0, ptbr1 := 0, ctx := ctx }, 0, 2⟩ := by
      rw [← hRegion0]
      refine ⟨⟨rfl, rfl, fun i hNonneg hi => ?_⟩, hBounds.of_brk rfl⟩
      simp [hNonneg, hi]
    exact (hReady _).of_kernelSide (UserMemory.kernelSide_allocPage _ _ _)
  have hMoves : Space.Steps (fun _ => False) ⟨(UserMemory.initRegion1Pt built 0).1, 0, 2⟩
      ⟨heapMoves (UserMemory.initRegion1Pt built 0).1 late, 0, 2⟩ := Space.steps_heapMoves _ late
  exact hServed.steps hMoves

/-- The memory at the end of `KernelStart`. -/
theorem space_kernelStart (uctxt : UserContext) (early late : List Word) : (kernelStart uctxt early late).space =
    ⟨(KernelMemory.kcCopy { bootMemory (bootPcbs uctxt).mem early late with vmEnabled := true } 1).1, 0, 2⟩ := by
  have hReady : (((bootPcbs uctxt).setMem (bootMemory (bootPcbs uctxt).mem early late)).scheduleProcess
      1).space = ⟨bootMemory (bootPcbs uctxt).mem early late, 0, 2⟩ := space_scheduleProcess _ 1
  have hMem := congrArg Space.mem hReady
  unfold kernelStart
  dsimp only
  generalize ((bootPcbs uctxt).setMem (bootMemory (bootPcbs uctxt).mem early late)).scheduleProcess 1 =
    ready at hReady hMem ⊢
  have hCopied (mem : Memory) : (ready.setMem mem).space = ⟨mem, 0, 2⟩ := by
    rw [space_setMem, hReady]
  have hSame : ready.mem = bootMemory (bootPcbs uctxt).mem early late := hMem
  rw [hSame]
  split_ifs
  · exact hCopied _
  · exact hCopied _

theorem served_kernelStart (uctxt : UserContext) (early late : List Word) :
    (kernelStart uctxt early late).space.Served := by
  have hBoot := served_bootMemory uctxt early late
  have hEnabled : Space.Served ⟨{ bootMemory (bootPcbs uctxt).mem early late with vmEnabled := true }, 0, 2⟩ :=
    ⟨⟨hBoot.current.active, hBoot.current.ptbr1, hBoot.current.stack⟩, hBoot.bounds.of_brk rfl⟩
  rw [space_kernelStart]
  exact hEnabled.clone Nat.zero_ne_one

/-- The running process is the idle process, or it is alive. -/
theorem fates_gone {s : Kernel} (h : Sound s) : s.Fates s.Gone where
  gone _ hGone := hGone
  running hGone := by
    have hCpu : s.contents .cpu = [s.runningProc] := if_neg hGone.2.1
    exact hGone.2.2 (h.settled.placement.live_of_mem (a := .cpu) (by simp [hCpu]))

theorem served_reachable {s : Kernel} (run : system.Reachable s) : s.space.Served := by
  refine run.invariant (I := fun s => s.space.Served) ?_ fun s label t hRun hServed _ hStep => ?_
  · rintro s ⟨uctxt, early, late, rfl⟩
    exact served_kernelStart uctxt early late
  · have hSound := sound_reachable hRun
    have hEnd := fates_gone (sound_reachable (reachable_step hRun hStep))
    exact hServed.trap (trap_step hSound.running_lt hSound.contexts.idle_lt hEnd hStep)

end Boot

/-- In every state the three pieces of the current address space are those of
the running process. -/
theorem address_space_of_running [Hardware] {s : Kernel} (run : system.Reachable s) :
    s.mem.active = s.runningProc ∧ s.mem.ptbr1 = s.runningProc ∧
      ∀ i < kStackVpns, s.mem.region0Pt (kStackBaseVpn + i) = s.mem.ksPt s.runningProc i := by
  have hCurrent : s.mem.Current s.runningProc := (served_reachable run).current
  refine ⟨hCurrent.active, hCurrent.ptbr1, fun i hi => ?_⟩
  exact hCurrent.stack i (Int.natCast_nonneg i) (Int.ofNat_lt.mpr hi)

open Sample in
/-- The child of a fork, after its parent was switched away. -/
theorem address_space_of_running_child : ∃ s : Kernel, system.Reachable s ∧ s.mode = .user ∧
    s.runningProc = 2 ∧ (s.mem.region0Pt 10).valid = true ∧ s.mem.active = 2 ∧ s.mem.ptbr1 = 2 ∧
    ∀ i < kStackVpns, s.mem.region0Pt (kStackBaseVpn + i) = s.mem.ksPt 2 i := by
  obtain ⟨s, run, hMode, hRunning, hValid⟩ := Transition.System.exists_reachable
    (P := fun s : Kernel => s.mode = .user ∧ s.runningProc = 2 ∧ (s.mem.region0Pt 10).valid = true)
    (turn ++ [call .fork []] ++ turn) initial_booted (by decide +kernel)
  have hSpace := address_space_of_running run
  rw [hRunning] at hSpace
  exact ⟨s, run, hMode, hRunning, hValid, hSpace⟩

end KernelStart
end Yalnix
