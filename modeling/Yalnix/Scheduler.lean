import Yalnix.Pcb
import Yalnix.Memory.KernelMemory

/-! The scheduler of `scheduler.c`: FIFO queues of processes and a binary heap
of sleepers ordered by wake-up tick. -/
namespace Yalnix.Kernel

open IntrusiveQueue

/-- `HEAP_INIT_SIZE` and `HEAP_MIN_SIZE`. -/
def heapInitSize : Nat := 20

def heapMinSize : Nat := 5

/-- `enque_process`. Emptiness is decided by the stored length. -/
def enqueProcess (s : Kernel) (type : QueueType) (proc : Proc) : Kernel :=
  let q := s.queues type
  let next := if q.length = 0 then s.next else
    match q.ends.last with
    | none => s.next
    | some last => Function.update s.next last (some proc)
  let ends : Ends Proc := if q.length = 0 then ⟨some proc, some proc⟩ else ⟨q.ends.first, some proc⟩
  { s with
    next := Function.update next proc none
    queues := Function.update s.queues type ⟨ends, q.length + 1⟩ }

/-- `deque_process`, which only ever serves the ready queue. -/
def dequeProcess (s : Kernel) : Kernel × Option Proc :=
  let q := s.queues .main
  if q.length = 0 then (s, none)
  else
    match q.ends.first with
    | none => (s, none)
    | some popped =>
        let last := if q.length - 1 = 0 then none else q.ends.last
        ({ s with
          next := Function.update s.next popped none
          queues := Function.update s.queues .main ⟨⟨s.next popped, last⟩, q.length - 1⟩ },
          some popped)

/-- `schedule_process`. -/
def scheduleProcess (s : Kernel) (proc : Proc) : Kernel :=
  if proc = s.idleProc then s
  else ((s.setState proc .ready).enqueProcess .main proc).emit (.ready proc)

/-- `wait_block_process`. -/
def waitBlockProcess (s : Kernel) (proc : Proc) : Kernel :=
  (s.setState proc .waiting).enqueProcess .waitBlocking proc

/-- `get_next_process`. -/
def getNextProcess (s : Kernel) : Kernel × Proc :=
  match s.dequeProcess with
  | (s, none) => (s.emit (.dispatched s.idleProc), s.idleProc)
  | (s, some proc) => ((s.setState proc .running).emit (.dispatched proc), proc)

section SleepHeap

/-- `compare` on two slots of the heap array. -/
def compare (s : Kernel) (a b : Proc) : Bool := (s.pcb a).wakeUp.slt (s.pcb b).wakeUp

/-- The sift-up loop of `add_to_heap`. -/
def siftUp (s : Kernel) : Nat → Array Proc → Nat → Array Proc
  | 0, arr, _ => arr
  | fuel + 1, arr, i =>
      if i = 0 then arr
      else
        let parent := (i - 1) / 2
        if s.compare (arr.getD parent 0) (arr.getD i 0) then arr
        else siftUp s fuel (arr.swapIfInBounds parent i) parent

/-- `add_to_heap`; `none` is the return value `false`. -/
def addToHeap (s : Kernel) (proc : Proc) (growOk : Bool) : Option Kernel :=
  let full := s.sleepers.currentSize ≤ s.sleepers.arr.size
  if full ∧ growOk = false then none
  else
    let size := if full then s.sleepers.currentSize * 2 else s.sleepers.currentSize
    let i := s.sleepers.arr.size
    some { s with sleepers := ⟨s.siftUp i (s.sleepers.arr.push proc) i, size⟩ }

/-- The slot that wakes up first among `i` and its children. -/
def least (s : Kernel) (arr : Array Proc) (i : Nat) : Nat :=
  let left := 2 * i + 1
  let right := 2 * i + 2
  let least := if left < arr.size ∧ s.compare (arr.getD left 0) (arr.getD i 0) then left else i
  if right < arr.size ∧ s.compare (arr.getD right 0) (arr.getD least 0) then right else least

/-- The sift-down loop of `remove_from_heap`. -/
def siftDown (s : Kernel) : Nat → Array Proc → Nat → Array Proc
  | 0, arr, _ => arr
  | fuel + 1, arr, i =>
      let least := s.least arr i
      if least = i then arr else siftDown s fuel (arr.swapIfInBounds least i) least

/-- `remove_from_heap`: the last sleeper replaces the root and sinks. -/
def removeFromHeap (s : Kernel) (shrinkOk : Bool) : Kernel × Option Proc :=
  match s.sleepers.arr[0]? with
  | none => (s, none)
  | some root =>
      let arr := (s.sleepers.arr.swapIfInBounds 0 (s.sleepers.arr.size - 1)).pop
      let arr := s.siftDown arr.size arr 0
      let size :=
        if arr.size < s.sleepers.currentSize / 2 ∧ heapMinSize < s.sleepers.currentSize ∧
            shrinkOk = true then
          s.sleepers.currentSize / 2
        else s.sleepers.currentSize
      ({ s with sleepers := ⟨arr, size⟩ }, some root)

/-- `put_to_sleep`. -/
def putToSleep (s : Kernel) (proc : Proc) (t : Word) (growOk : Bool) : Kernel × Bool :=
  let s := s.modifyPcb proc fun p => { p with wakeUp := s.numTicks + t, state := .waiting }
  match s.addToHeap proc growOk with
  | some s => (s, true)
  | none => (s.setState proc .running, false)

/-- `wake_sleepers`. The process is put on the ready queue directly. -/
def wakeSleepers (s : Kernel) (shrinkOk : Nat → Bool) : Nat → Kernel
  | 0 => s
  | fuel + 1 =>
      match s.sleepers.arr[0]? with
      | none => s
      | some root =>
          if (s.pcb root).wakeUp.sle s.numTicks then
            match s.removeFromHeap (shrinkOk fuel) with
            | (s, none) => s
            | (s, some proc) =>
                wakeSleepers ((s.enqueProcess .main proc).emit (.ready proc)) shrinkOk fuel
          else s

end SleepHeap

section WaitQueue

/-- The walk of `find_blocked_process`. The condition may change the state
when it holds; it is `none` when it does not hold. -/
def findBlockedFrom (s : Kernel) (type : QueueType) (cond : Kernel → Proc → Option Kernel) :
    Nat → Option Proc → Option Proc → Kernel × Option Proc
  | 0, _, _ => (s, none)
  | _ + 1, _, none => (s, none)
  | fuel + 1, prev, some curr =>
      match cond s curr with
      | none => findBlockedFrom s type cond fuel (some curr) (s.next curr)
      | some s =>
          let q := s.queues type
          let unlinked := unlink s.next q.ends prev curr
          ({ s with
            next := unlinked.1
            queues := Function.update s.queues type ⟨unlinked.2, q.length - 1⟩ }, some curr)

/-- `find_blocked_process`. -/
def findBlockedProcess (s : Kernel) (type : QueueType)
    (cond : Kernel → Proc → Option Kernel) : Kernel × Option Proc :=
  s.findBlockedFrom type cond (s.queues type).length none (s.queues type).ends.first

/-- `wait_unblock_cond`: the status goes to the saved `regs[1]`. -/
def waitUnblockCond (shrinkOk : Bool) (s : Kernel) (proc : Proc) : Option Kernel :=
  (s.findExitedChild proc shrinkOk).map fun found =>
    found.1.modifyPcb proc fun p =>
      { p with uc := { p.uc with regs := Function.update p.uc.regs 1 found.2 } }

/-- `wake_waiters`. -/
def wakeWaiters (s : Kernel) (shrinkOk : Nat → Bool) : Nat → Kernel
  | 0 => s
  | fuel + 1 =>
      match s.findBlockedProcess .waitBlocking (waitUnblockCond (shrinkOk fuel)) with
      | (s, none) => s
      | (s, some proc) => wakeWaiters (s.scheduleProcess proc) shrinkOk fuel

end WaitQueue

variable [Hardware]

/-- `FullContextSwitch`. A process that has exited saves no context. The
process switched to continues where it was switched away. -/
def fullContextSwitch (s : Kernel) (curr : Option (Proc × KernelContext)) (next : Proc) : Kernel :=
  let s := s.setMem (UserMemory.ucSwitch s.mem next)
  let s := { s with runningProc := next }
  let s := match curr with
    | none => s
    | some (proc, kc) => s.modifyPcb proc fun p => { p with kc := some kc }
  { s.setMem (KernelMemory.kcSwitch s.mem next) with mode := .resuming }

/-- The pair of calls with which a blocking syscall gives up the processor. -/
def switchAway (s : Kernel) (kc : KernelContext) : Kernel :=
  let curr := s.runningProc
  let chosen := s.getNextProcess
  chosen.1.fullContextSwitch (some (curr, kc)) chosen.2

end Yalnix.Kernel
