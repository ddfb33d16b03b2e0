import Yalnix.Process.Views
import Mathlib.Logic.Relation

/-! What a trap can do to the processes. Every handler is a sequence of quiet
changes and of the effects below, so an invariant that survives each effect
survives every trap. -/
namespace Yalnix

open Hardware Identifiers

variable [Hardware]

/-- The lock that a call gives up for good. -/
def Label.releases : Label → Option Nat
  | .syscall .release uc _ => if isLockId (uc.regs 0) then some (getId (uc.regs 0)) else none
  | .syscall .semUp uc _ => if isSemId (uc.regs 0) then some (getId (uc.regs 0)) else none
  | _ => none

/-- The lock or semaphore that a call asks for. -/
def Label.locks : Label → Option Nat
  | .syscall .acquire uc _ => if isLockId (uc.regs 0) then some (getId (uc.regs 0)) else none
  | .syscall .semDown uc _ => if isSemId (uc.regs 0) then some (getId (uc.regs 0)) else none
  | _ => none

/-- The lock that a call gives up for a condition variable. -/
def Label.waitsWith : Label → Option Nat
  | .syscall .cvarWait uc _ =>
      if isCvarId (uc.regs 0) && isLockId (uc.regs 1) then some (getId (uc.regs 1)) else none
  | _ => none

/-- The capacity of the lock or semaphore that a call creates. -/
def Label.capacity : Label → Option Nat
  | .syscall .lockInit _ _ => some 1
  | .syscall .semInit uc _ => some (uc.regs 1).toInt.toNat
  | _ => none

def Label.isResume : Label → Bool
  | .resume _ => true
  | _ => false

def Label.isClock : Label → Bool
  | .clock _ _ => true
  | _ => false

def Label.isPipeWrite : Label → Bool
  | .syscall .pipeWrite _ _ => true
  | _ => false

/-- The outcomes of the allocations of a `Fork`. -/
def Label.forks : Label → Option Outcomes
  | .syscall .fork _ o => some o
  | _ => none

/-- The process that traps may exit. -/
def Label.exits : Label → Bool
  | .syscall .exit _ _ | .syscall .exec _ _ | .math | .illegal | .memory _ => true
  | _ => false

/-- The saved context of a `Wait`. -/
def Label.waits : Label → Option UserContext
  | .syscall .wait uc _ => some uc
  | _ => none

/-- The kind of object that a call creates. -/
def Label.creates : Label → Option ObjectKind
  | .syscall .lockInit _ _ => some .lock
  | .syscall .semInit _ _ => some .sem
  | .syscall .cvarInit _ _ => some .cvar
  | .syscall .pipeInit _ _ => some .pipe
  | _ => none

/-- The running process puts itself into the container it will wait in, and
the context with which it will be switched away. -/
inductive Parks (label : Label) (s : Kernel) : KernelContext → Kernel → Prop where
  | sleep {t : Kernel} {ticks : Word} {growOk : Bool}
      (h : s.putToSleep s.runningProc ticks growOk = (t, true)) : Parks label s .delay t
  | wait : Parks label s .wait (s.waitBlockProcess s.runningProc)
  | lock {t : Kernel} {id : Nat} {kc : KernelContext} (hKc : kc = .acquire id ∨ kc = .semDown id)
      (h : s.acquire id s.runningProc false = (t, .need)) : Parks label s kc t
  | cvar {t : Kernel} {cvarId lockId : Nat} (hCall : label.waitsWith = some lockId)
      (h : s.waitCvar cvarId lockId s.runningProc = (t, true)) : Parks label s (.cvarWait lockId) t
  | pipe {id len : Nat} {buf : Word} {pipe : Pipe} (hPipe : s.getPipe id = some pipe)
      (hEmpty : pipe.len = 0) (hLen : 0 < len) : Parks label s (.pipeRead id buf len) (s.pipeBlock id)
  | ttyRead {id len : Nat} {buf : Word} (hId : id < numTerminals)
      (hEmpty : (s.ttys id).rx.first = none) (hLen : 0 < len ∧ len < 2 ^ 31) :
      Parks label s (.ttyRead id) (s.ttyReadBlock id buf len)
  | ttyWrite {id : Nat} {bytes : List Byte} (hId : id < numTerminals) (hBytes : bytes ≠ [])
      (hShort : bytes.length < 2 ^ 31) : Parks label s (.ttyWrite id) (s.ttyWriteBlock id bytes)

/-- One effect of the step with this label. Reads of a terminal line are kept
apart, as `Kernel.read`. -/
inductive Effect (label : Label) : Kernel → Kernel → Prop where
  | quiet {s t : Kernel} (h : Silent s t) (hMode : s.mode = .user ∨ t.records = s.records) :
      Effect label s t
  | ticked {s : Kernel} (hCall : label.isClock = true) :
      Effect label s ({ s with numTicks := s.numTicks + 1 }.emit .tick)
  | block {s parked t : Kernel} {kc : KernelContext} (hUser : s.inUser) (h : Parks label s kc parked)
      (hQuiet : Silent parked t)
      (hCall : ∀ id, kc = .acquire id ∨ kc = .semDown id → label.locks = some id := by simp) :
      Effect label s (t.switchAway kc)
  | sleepless {s t : Kernel} {ticks : Word} {growOk : Bool} (hUser : s.inUser)
      (h : s.putToSleep s.runningProc ticks growOk = (t, false)) : Effect label s t
  | preempt {s : Kernel} (hMode : s.mode = .user) : Effect label s s.preempt
  | exit {s t : Kernel} {code : Word} (hUser : s.inUser) (h : s.kernelExit code = .ok t)
      (hCall : label.exits = true) : Effect label s t
  | fork {s t : Kernel} {o : Outcomes} (hUser : s.inUser) (h : s.kernelFork o = .ok t)
      (hCall : label.forks = some o) : Effect label s t
  | reap {s t : Kernel} {shrinkOk : Bool} {code : Word} (hUser : s.inUser) (hCall : label.waits ≠ none)
      (h : s.findExitedChild s.runningProc shrinkOk = some (t, code)) : Effect label s t
  | newLock {s : Kernel} {capacity : Nat} {growOk pidsOk : Bool} (hCapacity : 0 < capacity)
      (hCall : label.capacity = some capacity) :
      Effect label s (s.newLock capacity growOk pidsOk).1
  | newCvar {s : Kernel} {growOk : Bool} (hCall : label.creates = some .cvar) :
      Effect label s (s.newCvar growOk).1
  | newPipe {s : Kernel} {growOk bufOk : Bool} (hCall : label.creates = some .pipe) :
      Effect label s (s.newPipe growOk bufOk).1
  | deleteLock {s : Kernel} {id : Nat} {shrinkOk : Bool} : Effect label s (s.deleteLock id shrinkOk).1
  | deleteCvar {s : Kernel} {id : Nat} {shrinkOk : Bool} : Effect label s (s.deleteCvar id shrinkOk).1
  | pipeReclaim {s : Kernel} {id : Nat} : Effect label s (s.pipeReclaim id).1
  | acquire {s t : Kernel} {id : Nat} (hUser : s.inUser)
      (h : s.acquire id s.runningProc false = (t, .acquired)) : Effect label s t
  | release {s t : Kernel} {id : Nat} (hUser : s.inUser) (hCall : label.releases = some id)
      (h : s.release id s.runningProc false = (t, true)) : Effect label s t
  | signal {s t : Kernel} {id : Nat} {waiter : Proc} (h : s.popCvar id = (t, some waiter)) :
      Effect label s (t.reacquire waiter)
  | pipeRead {s : Kernel} {id len : Nat} {pipe : Pipe} (hPipe : s.getPipe id = some pipe)
      (hSome : pipe.len ≠ 0) (hLen : 0 < len) :
      Effect label s ((s.setPipe id (pipe.readBytes len).1).emit (.pipeRead id len (pipe.readBytes len).2))
  | pipeWrite {s : Kernel} {id : Nat} {pipe grown : Pipe} {bytes : List Byte} {growOk : Bool}
      (hPipe : s.getPipe id = some pipe)
      (hGrown : pipe.ensureCapacity (pipe.len + bytes.length) growOk = some grown)
      (hCall : label.isPipeWrite = true) : Effect label s (((s.setPipe id (grown.appendBytes bytes)).emit (.pipeWritten id bytes)).wakeReaders
        id s.numPcbs)
  | wakeWaiter {s t : Kernel} {proc : Proc} {shrinkOk : Bool}
      (h : s.findBlockedProcess .waitBlocking (Kernel.waitUnblockCond shrinkOk) = (t, some proc))
      (hCall : label.isClock = true) :
      Effect label s (t.scheduleProcess proc)
  | wakeSleeper {s t : Kernel} {root proc : Proc} {shrinkOk : Bool}
      (hRoot : s.sleepers.arr[0]? = some root) (hDue : (s.pcb root).wakeUp.sle s.numTicks)
      (h : s.removeFromHeap shrinkOk = (t, some proc)) (hCall : label.isClock = true) :
      Effect label s ((t.enqueProcess .main proc).emit (.ready proc))
  | transmitted {s : Kernel} {ttyId : Int} : Effect label s (s.ttyTransmitDone ttyId)
  | received {s : Kernel} {ttyId : Int} {line : List Byte} {lineOk : Bool} :
      Effect label s (s.ttyReceiveDone ttyId line lineOk)
  | resumed {s : Kernel} {kc : KernelContext} (hMode : s.mode = .resuming)
      (hKc : (s.pcb s.runningProc).kc = some kc)
      (hRead : ∀ id, kc ≠ .ttyRead id) (hWrite : ∀ id, kc ≠ .ttyWrite id)
      (hCall : label.isResume = true) : Effect label s { s with mode := .user }
  | written {s : Kernel} {id : Nat} (hMode : s.mode = .resuming)
      (hKc : (s.pcb s.runningProc).kc = some (.ttyWrite id)) (hCall : label.isResume = true) :
      Effect label s ({ s with mode := .user }.ttyWriteReturn id)

/-- The effects that concern a terminal. -/
inductive TtyEffect : Kernel → Kernel → Prop where
  | readBlock {s t : Kernel} {id len : Nat} {buf : Word} (hUser : s.inUser) (hId : id < numTerminals)
      (hEmpty : (s.ttys id).rx.first = none) (hLen : 0 < len ∧ len < 2 ^ 31)
      (hQuiet : Quiet (s.ttyReadBlock id buf len) t) : TtyEffect s (t.switchAway (.ttyRead id))
  | writeBlock {s t : Kernel} {id : Nat} {bytes : List Byte} (hUser : s.inUser)
      (hId : id < numTerminals) (hBytes : bytes ≠ []) (hShort : bytes.length < 2 ^ 31)
      (hQuiet : Quiet (s.ttyWriteBlock id bytes) t) : TtyEffect s (t.switchAway (.ttyWrite id))
  | transmitted {s : Kernel} {ttyId : Int} : TtyEffect s (s.ttyTransmitDone ttyId)
  | received {s : Kernel} {ttyId : Int} {line : List Byte} {lineOk : Bool} :
      TtyEffect s (s.ttyReceiveDone ttyId line lineOk)
  | written {s : Kernel} {id : Nat} (hMode : s.mode = .resuming)
      (hKc : (s.pcb s.runningProc).kc = some (.ttyWrite id)) :
      TtyEffect s ({ s with mode := .user }.ttyWriteReturn id)

/-- Any number of effects. -/
abbrev Effects (label : Label) : Kernel → Kernel → Prop := Relation.ReflTransGen (Effect label)

/-- `consume_into_user` apart from the store to user memory. -/
def Kernel.read (s : Kernel) (id len : Nat) : Kernel :=
  (s.consume id len).1.emit (.ttyRead id s.runningProc len (s.consume id len).2)

theorem Effect.one {label : Label} {s t : Kernel} (h : Effect label s t) : Effects label s t := .single h

theorem Silent.effects {label : Label} {s t : Kernel} (h : Silent s t) (hMode : s.mode = .user) :
    Effects label s t := (Effect.quiet h (Or.inl hMode)).one

/-- What the code that saves a context has checked. -/
def KernelContext.Valid (request : Word × Nat) : KernelContext → Prop
  | .pipeRead _ _ len => 0 < len
  | .ttyRead id => id < numTerminals ∧ 0 < request.2 ∧ request.2 < 2 ^ 31
  | .ttyWrite id => id < numTerminals
  | _ => True

/-- The saved contexts are those the code saves. The idle process is only ever
preempted. -/
structure Contexts (c : Cpu) : Prop where
  idle_lt : c.idleProc < c.numPcbs
  idle : ∀ kc, c.kc c.idleProc = some kc → kc = .clock
  valid : ∀ p kc, c.kc p = some kc → kc.Valid (c.request p)

end Yalnix
