import Yalnix.Library.IntrusiveQueue
import Yalnix.Memory.LoadProgram
import Yalnix.ObjectTable

/-! The state of the kernel: the control blocks of `pcb.h` and the statics of
`scheduler.c`, `synchronization.c`, `pipe.c` and `tty.c`. The link field
`next`, which every queue threads its members through, is one map. -/
namespace Yalnix

open Hardware IntrusiveQueue

/-- `enum process_state`. -/
inductive ProcessState where
  | running
  | ready
  | waiting
  | exited
  deriving DecidableEq, Repr

/-- Where a process was switched away from, with the locals that the code
after the switch still uses. This is what `pcb->kc` and the kernel stack of
the process hold. -/
inductive KernelContext where
  /-- `KernelStart`, after the kernel stack of init was cloned. -/
  | boot
  /-- `KernelFork`, in the child. -/
  | fork
  | clock
  | delay
  | wait
  | acquire (lockId : Nat)
  | semDown (semId : Nat)
  | cvarWait (lockId : Nat)
  | pipeRead (pipeId : Nat) (buf : Word) (len : Nat)
  | ttyRead (ttyId : Nat)
  | ttyWrite (ttyId : Nat)
  deriving DecidableEq, Repr

/-- `rel_t`. -/
structure Relations where
  hasParent : Bool
  children : Nat → Option Proc
  numChildren : Nat
  arrSize : Nat

/-- `struct pcb` without the link field and the memory fields, which are kept
in `Kernel.next` and in `Memory`. `freed` records `free(pcb)`: addresses of
control blocks are not used again. -/
structure Pcb where
  kc : Option KernelContext
  uc : UserContext
  pid : Nat
  state : ProcessState
  relations : Relations
  exitCode : Word
  wakeUp : Word
  cvarLockId : Nat
  ioKbuf : List Byte
  ioUserBuf : Word
  ioTotal : Nat
  ioSent : Nat
  ioLen : Nat
  ioTtyId : Nat
  freed : Bool

/-- A control block as `calloc` returns it. -/
def Pcb.blank : Pcb :=
  { kc := none, uc := ⟨0, 0, 0, fun _ => 0⟩, pid := 0, state := .running
    relations := ⟨false, fun _ => none, 0, 0⟩
    exitCode := 0, wakeUp := 0, cvarLockId := 0, ioKbuf := [], ioUserBuf := 0
    ioTotal := 0, ioSent := 0, ioLen := 0, ioTtyId := 0, freed := false }

/-- `enum queue_type`. -/
inductive QueueType where
  | main
  | waitBlocking
  | ioBlocking
  deriving DecidableEq, Repr

/-- `queue_t`. -/
structure Queue where
  ends : Ends Proc
  length : Nat

/-- `heap_t`: the occupied part of the array and the allocated size. -/
structure Heap where
  arr : Array Proc
  currentSize : Nat

/-- `lock_t`, a lock or a counting semaphore. -/
structure Lock where
  capacity : Nat
  val : Int
  inUse : Bool
  ends : Ends Proc
  pids : List Nat
  neededBy : Int

def Lock.blank : Lock := ⟨0, 0, false, .empty, [], 0⟩

/-- All permits are free. -/
def Lock.fresh (capacity : Nat) : Lock :=
  ⟨capacity, capacity, true, .empty, List.replicate capacity 0, 0⟩

/-- `cvar_t`. -/
structure Cvar where
  ends : Ends Proc
  inUse : Bool

def Cvar.blank : Cvar := ⟨.empty, false⟩

/-- `pipe_t`. -/
structure Pipe where
  inUse : Bool
  buf : Nat → Byte
  cap : Nat
  head : Nat
  len : Nat
  readers : Ends Proc

def Pipe.blank : Pipe := ⟨false, fun _ => 0, 0, 0, 0, .empty⟩

/-- `rx_line_t` without its link. -/
structure RxLine where
  buf : List Byte
  off : Nat

/-- `tty_state_t`; `rx` are the ends of the list of received lines. -/
structure Tty where
  txOwner : Option Proc
  transmitting : Bool
  txLastChunk : Nat
  writers : Ends Proc
  rx : Ends Nat
  readers : Ends Proc

def Tty.blank : Tty := ⟨none, false, 0, .empty, .empty, .empty⟩

/-- What a run has done so far, in order. Events are recorded for the
statements about runs and are never read by the kernel. -/
inductive Event where
  | tick
  /-- Appended to `MAIN_QUEUE`. -/
  | ready (proc : Proc)
  /-- Returned by `get_next_process`. -/
  | dispatched (proc : Proc)
  /-- A `Fork` that returned the child's pid to the parent. -/
  | forked (parent child : Proc)
  | exited (proc : Proc) (code : Word)
  | reaped (parent child : Proc)
  /-- A call of `free` on a control block. -/
  | freed (proc : Proc)
  | lockCreated (id : Nat)
  | lockReclaimed (id : Nat)
  | lockRequested (id : Nat) (proc : Proc)
  | lockGranted (id : Nat) (proc : Proc)
  | lockReleased (id : Nat) (proc : Proc)
  | pipeCreated (id : Nat)
  | pipeReclaimed (id : Nat)
  | pipeWritten (id : Nat) (bytes : List Byte)
  | pipeRead (id : Nat) (len : Nat) (bytes : List Byte)
  /-- A `kernel_tty_write` whose buffer was copied. -/
  | ttyWritten (tty : Nat) (proc : Proc) (bytes : List Byte)
  /-- A call of `TtyTransmit`. -/
  | ttyTransmit (tty : Nat) (bytes : List Byte)
  | ttyTransmitTrap (tty : Nat)
  /-- The owner was put back on the ready queue. -/
  | ttyWriteDone (tty : Nat) (proc : Proc)
  | ttyWriteReturned (tty : Nat) (proc : Proc) (value : Nat)
  | ttyReceived (tty : Nat) (line : List Byte)
  | ttyRead (tty : Nat) (proc : Proc) (len : Nat) (bytes : List Byte)
  deriving DecidableEq, Repr

/-- Either a process runs in user mode, or a process has just been switched
to and its saved kernel context is about to continue. -/
inductive Mode where
  | user
  | resuming
  deriving DecidableEq, Repr

/-- The whole kernel. `uc` is the context the hardware resumes user mode
with. `numPcbs` and `numLines` are the next unused addresses of their kind. -/
structure Kernel where
  mem : Memory
  pcb : Proc → Pcb
  next : Proc → Option Proc
  numPcbs : Nat
  sleepers : Heap
  numTicks : Word
  runningProc : Proc
  idleProc : Proc
  queues : QueueType → Queue
  locks : Table Lock
  cvars : Table Cvar
  pipes : Table Pipe
  ttys : Nat → Tty
  lines : Nat → RxLine
  lineNext : Nat → Option Nat
  numLines : Nat
  uc : UserContext
  mode : Mode
  trace : List Event

namespace Kernel

def emit (s : Kernel) (event : Event) : Kernel := { s with trace := s.trace ++ [event] }

def modifyPcb (s : Kernel) (proc : Proc) (f : Pcb → Pcb) : Kernel :=
  { s with pcb := Function.update s.pcb proc (f (s.pcb proc)) }

def setMem (s : Kernel) (mem : Memory) : Kernel := { s with mem := mem }

/-- `proc->state = state`. -/
def setState (s : Kernel) (proc : Proc) (state : ProcessState) : Kernel :=
  s.modifyPcb proc fun p => { p with state := state }

/-- `uc->regs[0] = value` on the saved context of a process. -/
def setResult (s : Kernel) (proc : Proc) (value : Word) : Kernel :=
  s.modifyPcb proc fun p => { p with uc := p.uc.result value }

/-- `uc->regs[0] = value` on the saved context of the running process. -/
def ret (s : Kernel) (value : Word) : Kernel := s.setResult s.runningProc value

/-- The saved register `i` of the running process. -/
def reg (s : Kernel) (i : Nat) : Word := (s.pcb s.runningProc).uc.regs i

/-- A process that was created, has not exited, and is not the idle process. -/
def Live (s : Kernel) (proc : Proc) : Prop :=
  proc ≠ s.idleProc ∧ proc < s.numPcbs ∧ (s.pcb proc).freed = false ∧
    (s.pcb proc).state ≠ .exited

instance (s : Kernel) (proc : Proc) : Decidable (s.Live proc) :=
  inferInstanceAs (Decidable (_ ∧ _))

end Kernel

/-- The outcomes of the calls to the host and to the kernel heap that one trap
makes. `alloc` answers the allocation calls by the position of the call in
the code, `brk` are the addresses the heap passes to `SetKernelBrk` while the
children array is enlarged, and `file` is what `LoadProgram` finds. -/
structure Outcomes where
  alloc : Nat → Bool
  brk : List Word
  file : LoadProgram.File

end Yalnix
