import Yalnix.Scheduler
import Yalnix.Identifiers

/-! Locks, semaphores and condition variables, from `synchronization.c`. -/
namespace Yalnix

open IntrusiveQueue Identifiers

namespace Synchronization

/-- `INITIAL_ARR_SIZE`. -/
def initialArrSize : Nat := 10

/-- `insert`. Emptiness is decided by the first pointer. -/
def insert (next : Proc → Option Proc) (ends : Ends Proc) (new : Proc) :
    (Proc → Option Proc) × Ends Proc :=
  let next := Function.update next new none
  match ends.first with
  | none => (next, ⟨some new, some new⟩)
  | some _ =>
      match ends.last with
      | none => (next, ⟨ends.first, some new⟩)
      | some last => (Function.update next last (some new), ⟨ends.first, some new⟩)

/-- `find`: whether one of the first `capacity` slots holds `p`; the first
such slot is overwritten when a replacement is given. -/
def find : List Nat → Nat → Nat → Option Nat → Bool × List Nat
  | pids, _, 0, _ => (false, pids)
  | [], _, _ + 1, _ => (false, [])
  | pid :: pids, p, capacity + 1, replace =>
      if pid = p then (true, replace.getD pid :: pids)
      else
        let found := find pids p capacity replace
        (found.1, pid :: found.2)

/-- The return values of `acquire`. -/
inductive Acquired where
  | error
  | acquired
  | need
  deriving DecidableEq, Repr

end Synchronization

namespace Kernel

open Synchronization

def setLock (s : Kernel) (id : Nat) (lock : Lock) : Kernel :=
  { s with locks := s.locks.set id lock }

def setCvar (s : Kernel) (id : Nat) (cvar : Cvar) : Kernel :=
  { s with cvars := s.cvars.set id cvar }

def setNext (s : Kernel) (next : Proc → Option Proc) : Kernel := { s with next := next }

/-- `new_lock`; growth copies `open_lock_idx` slots. -/
def newLock (s : Kernel) (capacity : Nat) (growOk pidsOk : Bool) : Kernel × Option Nat :=
  let created := s.locks.create Lock.inUse .blank (.fresh capacity) s.locks.openIdx growOk pidsOk
  let s := { s with locks := created.1 }
  match created.2 with
  | none => (s, none)
  | some id => (s.emit (.lockCreated id), some id)

/-- `new_cvar`; growth copies `open_cvar_idx` slots. -/
def newCvar (s : Kernel) (growOk : Bool) : Kernel × Option Nat :=
  let created := s.cvars.create Cvar.inUse .blank ⟨.empty, true⟩ s.cvars.openIdx growOk true
  ({ s with cvars := created.1 }, created.2)

def deleteLock (s : Kernel) (id : Nat) (shrinkOk : Bool) : Kernel × Bool :=
  let lock := s.locks.entries id
  if s.locks.size ≤ id ∨ lock.inUse = false ∨ 0 < lock.neededBy then (s, false)
  else
    let locks := s.locks.retire Lock.inUse .blank { lock with inUse := false } id shrinkOk
    ({ s with locks := locks }.emit (.lockReclaimed id), true)

def deleteCvar (s : Kernel) (id : Nat) (shrinkOk : Bool) : Kernel × Bool :=
  let cvar := s.cvars.entries id
  if s.cvars.size ≤ id ∨ cvar.inUse = false ∨ cvar.ends.first ≠ none then (s, false)
  else
    ({ s with
      cvars := s.cvars.retire Cvar.inUse .blank { cvar with inUse := false } id shrinkOk }, true)

/-- `acquire`. A holder may not acquire again; the usage count is left alone
when a condition variable re-acquires for its waiter. -/
def acquire (s : Kernel) (lockId : Nat) (proc : Proc) (cvarUse : Bool) : Kernel × Acquired :=
  let lock := s.locks.entries lockId
  let pid := (s.pcb proc).pid
  let neededBy := if cvarUse then lock.neededBy else lock.neededBy + 1
  if s.locks.size ≤ lockId ∨ lock.inUse = false ∨ (find lock.pids pid lock.capacity none).1 then
    (s, .error)
  else
    let s := s.emit (.lockRequested lockId proc)
    if 0 < lock.val then
      let lock := { lock with
        val := lock.val - 1
        pids := (find lock.pids 0 lock.capacity (some pid)).2
        neededBy := neededBy }
      ((s.setLock lockId lock).emit (.lockGranted lockId proc), .acquired)
    else
      let inserted := insert s.next lock.ends proc
      ((s.setNext inserted.1).setLock lockId
        { lock with ends := inserted.2, neededBy := neededBy }, .need)

/-- `release`. The permit goes directly to the first waiter, if there is one. -/
def release (s : Kernel) (lockId : Nat) (proc : Proc) (cvarUse : Bool) : Kernel × Bool :=
  let lock := s.locks.entries lockId
  let pid := (s.pcb proc).pid
  let neededBy := if cvarUse then lock.neededBy else lock.neededBy - 1
  if s.locks.size ≤ lockId ∨ lock.inUse = false ∨
      (find lock.pids pid lock.capacity none).1 = false then
    (s, false)
  else
    let s := s.emit (.lockReleased lockId proc)
    match pop s.next lock.ends with
    | (none, _, _) =>
        (s.setLock lockId { lock with
          val := lock.val + 1
          pids := (find lock.pids pid lock.capacity (some 0)).2
          neededBy := neededBy }, true)
    | (some waiter, next, ends) =>
        let lock := { lock with
          ends := ends
          pids := (find lock.pids pid lock.capacity (some (s.pcb waiter).pid)).2
          neededBy := neededBy }
        let s := ((s.setNext next).setLock lockId lock).emit (.lockGranted lockId waiter)
        (s.scheduleProcess waiter, true)

/-- `wait_cvar`. -/
def waitCvar (s : Kernel) (cvarId lockId : Nat) (proc : Proc) : Kernel × Bool :=
  if s.cvars.size ≤ cvarId ∨ (s.cvars.entries cvarId).inUse = false then (s, false)
  else
    match s.release lockId proc true with
    | (s, false) => (s, false)
    | (s, true) =>
        let s := s.modifyPcb proc fun p => { p with cvarLockId := lockId }
        let cvar := s.cvars.entries cvarId
        let inserted := insert s.next cvar.ends proc
        ((s.setNext inserted.1).setCvar cvarId { cvar with ends := inserted.2 }, true)

/-- One waiter popped by `signal_cvar` or `broadcast_cvar`: it is made ready
only when the lock is granted at once. -/
def reacquire (s : Kernel) (waiter : Proc) : Kernel :=
  match s.acquire (s.pcb waiter).cvarLockId waiter true with
  | (s, .acquired) => s.scheduleProcess waiter
  | (s, _) => s

/-- Pop the first waiter of a condition variable. -/
def popCvar (s : Kernel) (cvarId : Nat) : Kernel × Option Proc :=
  let cvar := s.cvars.entries cvarId
  match pop s.next cvar.ends with
  | (none, _, _) => (s, none)
  | (some waiter, next, ends) =>
      ((s.setNext next).setCvar cvarId { cvar with ends := ends }, some waiter)

def signalCvar (s : Kernel) (cvarId : Nat) : Kernel × Bool :=
  if s.cvars.size ≤ cvarId ∨ (s.cvars.entries cvarId).inUse = false then (s, false)
  else
    match s.popCvar cvarId with
    | (s, none) => (s, true)
    | (s, some waiter) => (s.reacquire waiter, true)

/-- The loop of `broadcast_cvar`; each turn removes a waiter. -/
def broadcastLoop (s : Kernel) (cvarId : Nat) : Nat → Kernel
  | 0 => s
  | fuel + 1 =>
      match s.popCvar cvarId with
      | (s, none) => s
      | (s, some waiter) => broadcastLoop (s.reacquire waiter) cvarId fuel

def broadcastCvar (s : Kernel) (cvarId : Nat) : Kernel × Bool :=
  if s.cvars.size ≤ cvarId ∨ (s.cvars.entries cvarId).inUse = false then (s, false)
  else (s.broadcastLoop cvarId s.numPcbs, true)

variable [Hardware]

/-- `uc->regs[0] = res ? SUCCESS : ERROR`. -/
def retBool (s : Kernel) (ok : Bool) : Kernel := s.ret (if ok then successCode else errorCode)

/-- The common body of `Release_Impl` and `SemUp_Impl`. -/
def releaseImpl (s : Kernel) (isId : Word → Bool) : Kernel :=
  if isId (s.reg 0) = false then s.ret errorCode
  else
    let released := s.release (getId (s.reg 0)) s.runningProc false
    released.1.retBool released.2

/-- The common body of `Acquire_Impl` and `SemDown_Impl`. The result is set
before the caller is switched away. -/
def acquireImpl (s : Kernel) (isId : Word → Bool) (kc : Nat → KernelContext) : Kernel :=
  if isId (s.reg 0) = false then s.ret errorCode
  else
    let lockId := getId (s.reg 0)
    match s.acquire lockId s.runningProc false with
    | (s, .error) => s.ret errorCode
    | (s, .acquired) => s.ret successCode
    | (s, .need) => (s.ret successCode).switchAway (kc lockId)

def kernelRelease (s : Kernel) : Kernel := s.releaseImpl isLockId

def kernelSemUp (s : Kernel) : Kernel := s.releaseImpl isSemId

def kernelAcquire (s : Kernel) : Kernel := s.acquireImpl isLockId .acquire

def kernelSemDown (s : Kernel) : Kernel := s.acquireImpl isSemId .semDown

/-- Store a new identifier through the user's pointer and return, as the four
init calls do. -/
def storeId (s : Kernel) (addr id : Word) : Except Stop Kernel := do
  let mem ← s.mem.storeWord addr.toInt id
  return (s.setMem mem).ret successCode

/-- `LockInit_Impl`. Of the pointer only `NULL` is rejected. -/
def kernelLockInit (s : Kernel) (o : Outcomes) : Except Stop Kernel :=
  let lockIdp := s.reg 0
  if lockIdp = 0 then .ok (s.ret errorCode)
  else
    match s.newLock 1 (o.alloc 0) (o.alloc 1) with
    | (s, none) => .ok (s.ret errorCode)
    | (s, some id) => s.storeId lockIdp (createId lockFlag id)

/-- `SemInit_Impl`. -/
def kernelSemInit (s : Kernel) (o : Outcomes) : Except Stop Kernel :=
  let semIdp := s.reg 0
  let cap := (s.reg 1).toInt
  if semIdp = 0 ∨ cap < 1 then .ok (s.ret errorCode)
  else
    match s.newLock cap.toNat (o.alloc 0) (o.alloc 1) with
    | (s, none) => .ok (s.ret errorCode)
    | (s, some id) => s.storeId semIdp (createId semFlag id)

/-- `CvarInit_Impl`. -/
def kernelCvarInit (s : Kernel) (o : Outcomes) : Except Stop Kernel :=
  let cvarIdp := s.reg 0
  if cvarIdp = 0 then .ok (s.ret errorCode)
  else
    match s.newCvar (o.alloc 0) with
    | (s, none) => .ok (s.ret errorCode)
    | (s, some id) => s.storeId cvarIdp (createId cvarFlag id)

/-- `CvarWait_Impl`. -/
def kernelCvarWait (s : Kernel) : Kernel :=
  if isCvarId (s.reg 0) = false ∨ isLockId (s.reg 1) = false then s.ret errorCode
  else
    let lockId := getId (s.reg 1)
    match s.waitCvar (getId (s.reg 0)) lockId s.runningProc with
    | (s, true) => (s.ret successCode).switchAway (.cvarWait lockId)
    | (s, false) => s.ret errorCode

/-- `CvarSignal_Impl`. -/
def kernelCvarSignal (s : Kernel) : Kernel :=
  if isCvarId (s.reg 0) = false then s.ret errorCode
  else
    let signalled := s.signalCvar (getId (s.reg 0))
    signalled.1.retBool signalled.2

/-- `CvarBroadcast_Impl`. -/
def kernelCvarBroadcast (s : Kernel) : Kernel :=
  if isCvarId (s.reg 0) = false then s.ret errorCode
  else
    let woken := s.broadcastCvar (getId (s.reg 0))
    woken.1.retBool woken.2

end Kernel
end Yalnix
