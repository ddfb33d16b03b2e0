import Yalnix.Syscalls
import Yalnix.Library.Transition

/-! Trap dispatch of `interrupt.c` and the boot sequence of `kernel_start.c`.
A trap runs until a process returns to user mode; when the handler switches
to another process, the saved context of that process continues instead. -/
namespace Yalnix

open Hardware

/-- The codes of `trap_kernel_handler`. -/
inductive Syscall where
  | getPid | brk | delay | exit | fork | exec | wait
  | ttyRead | ttyWrite
  | lockInit | cvarInit | acquire | release | cvarSignal | cvarBroadcast | cvarWait
  | reclaim | semUp | semDown | semInit
  | pipeInit | pipeRead | pipeWrite
  | notImplemented
  deriving DecidableEq, Repr

/-- What happens next to the machine. The context at the trap is whatever the
running process has left in its registers. -/
inductive Label where
  | syscall (call : Syscall) (uc : UserContext) (o : Outcomes)
  | clock (uc : UserContext) (o : Outcomes)
  | math
  | illegal
  | memory (uc : UserContext)
  | ttyReceive (uc : UserContext) (ttyId : Int) (line : List Byte) (lineOk : Bool)
  | ttyTransmit (uc : UserContext) (ttyId : Int)
  /-- The process just switched to continues inside the kernel. -/
  | resume (o : Outcomes)
  /-- The kernel heap moves its break. -/
  | heap (addr : Word)
  /-- The running process writes a byte of its own memory. -/
  | userStore (addr : Int) (byte : Byte)

namespace Kernel

variable [Hardware]

omit [Hardware] in
/-- `memcpy(&(curr_proc->uc), uc, sizeof(UserContext))`. -/
def saveUc (s : Kernel) (uc : UserContext) : Kernel :=
  s.modifyPcb s.runningProc fun p => { p with uc := uc }

omit [Hardware] in
/-- The end of a handler, when it was not switched away from. -/
def leave (s : Kernel) : Kernel :=
  match s.mode with
  | .user => { s with uc := (s.pcb s.runningProc).uc }
  | .resuming => s

/-- The switch of `trap_kernel_handler`. -/
def dispatch (s : Kernel) (call : Syscall) (o : Outcomes) : Except Stop Kernel :=
  match call with
  | .getPid => .ok s.kernelGetPid
  | .brk => .ok s.kernelBrk
  | .delay => .ok (s.kernelDelay o)
  | .exit => s.kernelExit (s.reg 0)
  | .fork => s.kernelFork o
  | .exec => s.kernelExec o
  | .wait => s.kernelWait o
  | .ttyRead => s.kernelTtyRead
  | .ttyWrite => s.kernelTtyWrite o
  | .lockInit => s.kernelLockInit o
  | .cvarInit => s.kernelCvarInit o
  | .acquire => .ok s.kernelAcquire
  | .release => .ok s.kernelRelease
  | .cvarSignal => .ok s.kernelCvarSignal
  | .cvarBroadcast => .ok s.kernelCvarBroadcast
  | .cvarWait => .ok s.kernelCvarWait
  | .reclaim => .ok (s.kernelReclaim o)
  | .semUp => .ok s.kernelSemUp
  | .semDown => .ok s.kernelSemDown
  | .semInit => s.kernelSemInit o
  | .pipeInit => s.kernelPipeInit o
  | .pipeRead => s.kernelPipeRead
  | .pipeWrite => s.kernelPipeWrite o
  | .notImplemented => .ok s

/-- `trap_kernel_handler`. -/
def trapKernelHandler (s : Kernel) (call : Syscall) (uc : UserContext) (o : Outcomes) :
    Except Stop Kernel := do
  let s ← (s.saveUc uc).dispatch call o
  return s.leave

omit [Hardware] in
/-- The wake-ups of a clock tick. -/
def tick (s : Kernel) (o : Outcomes) : Kernel :=
  let s := { s with numTicks := s.numTicks + 1 }.emit .tick
  let s := s.wakeWaiters (fun i => o.alloc (2 * i)) (s.queues .waitBlocking).length
  s.wakeSleepers (fun i => o.alloc (2 * i + 1)) s.sleepers.arr.size

/-- The end of the clock handler: the running process goes to the back of the
ready queue and the first one there gets the processor. -/
def preempt (s : Kernel) : Kernel :=
  let currProc := s.runningProc
  let chosen := (s.scheduleProcess currProc).getNextProcess
  if currProc ≠ chosen.2 then chosen.1.fullContextSwitch (some (currProc, .clock)) chosen.2
  else chosen.1

/-- `trap_clock_handler`. -/
def trapClockHandler (s : Kernel) (uc : UserContext) (o : Outcomes) : Kernel :=
  ((s.tick o).saveUc uc).preempt.leave

/-- `trap_memory_handler`. -/
def trapMemoryHandler (s : Kernel) (uc : UserContext) : Except Stop Kernel :=
  let expanded := UserMemory.expandStack s.mem uc.addr
  if expanded.2 then .ok { s.setMem expanded.1 with uc := uc }
  else (s.setMem expanded.1).kernelExit (-1)

omit [Hardware] in
/-- The common frame of the two terminal handlers. -/
def trapTtyHandler (s : Kernel) (uc : UserContext) (done : Kernel → Kernel) : Kernel :=
  (done (s.saveUc uc)).leave

/-- `KernelStart` continued by the first user process. -/
def bootReturn (s : Kernel) (o : Outcomes) : Except Stop Kernel := do
  let proc := s.runningProc
  let loaded ← LoadProgram.loadProgram s.mem (s.pcb proc).uc o.file cmdArgs (o.alloc 0)
  match loaded.result with
  | .success => return (s.setMem loaded.mem).modifyPcb proc fun p => { p with uc := loaded.uc }
  | _ => .error .halt

/-- The code after the switch at which a process was left. -/
def continueAt (s : Kernel) (kc : KernelContext) (o : Outcomes) : Except Stop Kernel :=
  match kc with
  | .boot => s.bootReturn o
  | .wait => s.waitReturn
  | .pipeRead id buf len => s.pipeReadLoop id buf len
  | .ttyRead id => s.ttyReadReturn id
  | .ttyWrite id => .ok (s.ttyWriteReturn id)
  | .fork | .clock | .delay | .acquire _ | .semDown _ | .cvarWait _ => .ok s

/-- Continue the process that was switched to. A control block whose kernel
stack was never cloned has no context to continue. -/
def resume (s : Kernel) (o : Outcomes) : Except Stop Kernel :=
  match (s.pcb s.runningProc).kc with
  | none => .error (.noContext s.runningProc)
  | some kc => do
      let s ← { s with mode := .user }.continueAt kc o
      return s.leave

omit [Hardware] in
/-- A user process is running, so it may trap. The idle process only pauses. -/
def inUser (s : Kernel) : Prop := s.mode = .user ∧ s.runningProc ≠ s.idleProc

instance (s : Kernel) : Decidable s.inUser := inferInstanceAs (Decidable (_ ∧ _))

/-- One event of the machine. -/
def step (s : Kernel) (label : Label) : Except Stop Kernel :=
  match label with
  | .syscall call uc o => if s.inUser then s.trapKernelHandler call uc o else .error .disabled
  | .clock uc o => if s.mode = .user then .ok (s.trapClockHandler uc o) else .error .disabled
  | .math => if s.inUser then s.kernelExit (-1) else .error .disabled
  | .illegal => if s.inUser then s.kernelExit (-1) else .error .disabled
  | .memory uc => if s.inUser then s.trapMemoryHandler uc else .error .disabled
  | .ttyReceive uc ttyId line lineOk =>
      if s.mode = .user ∧ line.length ≤ terminalMaxLine then
        .ok (s.trapTtyHandler uc fun s => s.ttyReceiveDone ttyId line lineOk)
      else .error .disabled
  | .ttyTransmit uc ttyId =>
      if s.mode = .user then .ok (s.trapTtyHandler uc fun s => s.ttyTransmitDone ttyId)
      else .error .disabled
  | .resume o => if s.mode = .resuming then s.resume o else .error .disabled
  | .heap addr => .ok (s.setMem (KernelMemory.setKernelBrk s.mem addr).1)
  | .userStore addr byte =>
      if s.inUser ∧ s.mem.hasPerms addr true then .ok (s.setMem (s.mem.pokeByte addr byte))
      else .error .disabled

end Kernel

namespace KernelStart

open Kernel

variable [Hardware]

/-- The statics before `KernelStart`, with `initialize_frame_tracking` and
`init_kernel_brk` done. -/
def image (uctxt : UserContext) : Kernel :=
  { mem :=
      { frames := Frames.initializeFrameTracking pmemSize
        region0Pt := fun _ => .blank
        currentBrkPage := origKernelBrkPage
        vmEnabled := false
        ksPt := fun _ _ => .blank
        ctx := fun _ => .blank
        active := 0
        ptbr1 := 0
        pmem := fun _ _ => 0 }
    pcb := fun _ => .blank
    next := fun _ => none
    numPcbs := 0
    sleepers := ⟨#[], heapInitSize⟩
    numTicks := 0
    runningProc := 0
    idleProc := 0
    queues := fun _ => ⟨.empty, 0⟩
    locks := .init .blank Synchronization.initialArrSize
    cvars := .init .blank Synchronization.initialArrSize
    pipes := .init .blank Pipe.initialPipeCount
    ttys := fun _ => .blank
    lines := fun _ => ⟨[], 0⟩
    lineNext := fun _ => none
    numLines := 0
    uc := uctxt
    mode := .user
    trace := [] }

/-- All allocations of the boot sequence succeed; a kernel without its idle
process or its tables does not come up. -/
def bootOutcomes : Outcomes := ⟨fun _ => true, [], .missing⟩

/-- The idle process, which is number 0, and the first user process. -/
def bootPcbs (uctxt : UserContext) : Kernel :=
  (((image uctxt).createNewPcb uctxt bootOutcomes).1.createNewPcb uctxt bootOutcomes).1

/-- The page tables before `enable_vm`. `early` and `late` are the break changes
of the kernel heap before and after the region 0 table is built. -/
def bootMemory (m : Memory) (early late : List Word) : Memory :=
  let m := (KernelMemory.initRegion0Pt (heapMoves m early) 0).1
  heapMoves (UserMemory.initRegion1Pt m 0).1 late

/-- `set_up_uc` for the idle process. -/
def setUpUc (uc : UserContext) : UserContext :=
  { uc with pc := doIdle, sp := BitVec.ofInt 32 (vmem1Limit - 1) }

/-- `KernelStart` up to the return of the idle process to user mode. -/
def kernelStart (uctxt : UserContext) (early late : List Word) : Kernel :=
  let s := bootPcbs uctxt
  let s := (s.setMem (bootMemory s.mem early late)).scheduleProcess 1
  let copied := KernelMemory.kcCopy { s.mem with vmEnabled := true } 1
  let s := { s.setMem copied.1 with uc := setUpUc uctxt }
  if copied.2 then s.modifyPcb 1 fun p => { p with kc := some .boot } else s

/-- The Yalnix kernel as a transition system. -/
def system : Transition.System Kernel Label Stop where
  initial s := ∃ uctxt early late, s = kernelStart uctxt early late
  step := Kernel.step

end KernelStart
end Yalnix
