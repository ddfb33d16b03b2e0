import Yalnix.Synchronization

/-! Pipes, from `pipe.c`: a growable ring buffer and a queue of blocked readers
for each slot of the pipe table. -/
namespace Yalnix

open Hardware IntrusiveQueue Identifiers

namespace Pipe

/-- `INITIAL_PIPE_COUNT`. -/
def initialPipeCount : Nat := 10

/-- The doubling loop of `ensure_capacity`. -/
def doubled (needed : Nat) : Nat → Nat → Nat
  | 0, cap => cap
  | fuel + 1, cap => if cap < needed then doubled needed fuel (cap * 2) else cap

/-- `ensure_capacity`; `none` is the return value `false`. The data is copied
to the front of the larger buffer. -/
def ensureCapacity (pipe : Pipe) (needed : Nat) (growOk : Bool) : Option Pipe :=
  if needed ≤ pipe.cap then some pipe
  else if growOk = false then none
  else
    some { pipe with
      buf := (List.range pipe.len).foldl
        (fun buf i => Function.update buf i (pipe.buf ((pipe.head + i) % pipe.cap))) fun _ => 0
      cap := doubled needed needed pipe.cap
      head := 0 }

/-- `append_bytes`. -/
def appendBytes (pipe : Pipe) : List Byte → Pipe
  | [] => pipe
  | byte :: rest =>
      appendBytes { pipe with
        buf := Function.update pipe.buf ((pipe.head + pipe.len) % pipe.cap) byte
        len := pipe.len + 1 } rest

/-- The loop of `read_bytes`. -/
def takeBytes (pipe : Pipe) : Nat → Pipe × List Byte
  | 0 => (pipe, [])
  | count + 1 =>
      let byte := pipe.buf pipe.head
      let taken := takeBytes { pipe with head := (pipe.head + 1) % pipe.cap } count
      (taken.1, byte :: taken.2)

/-- `read_bytes`: a pipe that is drained starts again at the front. -/
def readBytes (pipe : Pipe) (len : Nat) : Pipe × List Byte :=
  let bytes := if pipe.len < len then pipe.len else len
  let taken := pipe.takeBytes bytes
  let left := pipe.len - bytes
  ({ taken.1 with len := left, head := if left = 0 then 0 else taken.1.head }, taken.2)

/-- `readq_push`, and with other ends `wq_push` and `rq_push`: emptiness is
decided by the tail pointer. -/
def queuePush (next : Proc → Option Proc) (ends : Ends Proc) (proc : Proc) :
    (Proc → Option Proc) × Ends Proc :=
  let next := Function.update next proc none
  match ends.last with
  | none => (next, ⟨some proc, some proc⟩)
  | some tail => (Function.update next tail (some proc), ⟨ends.first, some proc⟩)

end Pipe

/-- A pipe with an empty buffer of `PIPE_BUFFER_LEN` bytes. -/
def Pipe.fresh [Hardware] : Pipe := { Pipe.blank with inUse := true, cap := pipeBufferLen }

namespace Kernel

def setPipe (s : Kernel) (id : Nat) (pipe : Pipe) : Kernel :=
  { s with pipes := s.pipes.set id pipe }

/-- `get_pipe`. -/
def getPipe (s : Kernel) (id : Nat) : Option Pipe :=
  if s.pipes.size ≤ id ∨ (s.pipes.entries id).inUse = false then none
  else some (s.pipes.entries id)

theorem getPipe_eq_some {s : Kernel} {id : Nat} {pipe : Pipe} : s.getPipe id = some pipe ↔
    id < s.pipes.size ∧ (s.pipes.entries id).inUse = true ∧ s.pipes.entries id = pipe := by
  unfold getPipe
  split_ifs with hFail
  · simp only [false_iff, not_and]
    intro hLt hUse
    simp [hUse, Nat.not_le.mpr hLt] at hFail
  · simp only [not_or, not_le, Bool.not_eq_false] at hFail
    simp [hFail]

/-- `wake_readers`; each turn removes a reader. -/
def wakeReaders (s : Kernel) (id : Nat) : Nat → Kernel
  | 0 => s
  | fuel + 1 =>
      match pop s.next (s.pipes.entries id).readers with
      | (none, _, _) => s
      | (some proc, next, ends) =>
          wakeReaders
            (((s.setNext next).setPipe id { s.pipes.entries id with readers := ends }).scheduleProcess
              proc) id fuel

/-- `pipe_reclaim`. -/
def pipeReclaim (s : Kernel) (id : Nat) : Kernel × Bool :=
  match s.getPipe id with
  | none => (s, false)
  | some pipe =>
      if pipe.readers.first ≠ none then (s, false)
      else
        ({ s with pipes := s.pipes.lower .blank id }.emit (.pipeReclaimed id), true)

variable [Hardware]

/-- `new_pipe`; growth copies all slots. -/
def newPipe (s : Kernel) (growOk bufOk : Bool) : Kernel × Option Nat :=
  let created := s.pipes.create Pipe.inUse .blank Pipe.fresh s.pipes.size growOk bufOk
  let s := { s with pipes := created.1 }
  match created.2 with
  | none => (s, none)
  | some id => (s.emit (.pipeCreated id), some id)

/-- `PipeInit_Impl`. -/
def kernelPipeInit (s : Kernel) (o : Outcomes) : Except Stop Kernel :=
  let pipeIdp := s.reg 0
  if pipeIdp = 0 then .ok (s.ret errorCode)
  else
    match s.newPipe (o.alloc 0) (o.alloc 1) with
    | (s, none) => .ok (s.ret errorCode)
    | (s, some id) => s.storeId pipeIdp (createId pipeFlag id)

omit [Hardware] in
/-- The blocking part of `PipeRead_Impl` before the switch: queue the caller. -/
def pipeBlock (s : Kernel) (id : Nat) : Kernel :=
  let curr := s.runningProc
  let pushed := Pipe.queuePush s.next (s.pipes.entries id).readers curr
  ((s.setNext pushed.1).setPipe id { s.pipes.entries id with readers := pushed.2 }).setState curr
    .waiting

/-- The loop of `PipeRead_Impl` from its test on, at the call and again each
time the caller is resumed. -/
def pipeReadLoop (s : Kernel) (id : Nat) (buf : Word) (len : Nat) : Except Stop Kernel :=
  match s.getPipe id with
  | none => .ok (s.ret errorCode)
  | some pipe =>
      if pipe.len = 0 then .ok ((s.pipeBlock id).switchAway (.pipeRead id buf len))
      else do
        let read := pipe.readBytes len
        let mem ← s.mem.storeBytes buf.toInt read.2
        let s := ((s.setPipe id read.1).setMem mem).emit (.pipeRead id len read.2)
        return s.ret (BitVec.ofNat 32 read.2.length)

/-- `PipeRead_Impl`. -/
def pipeReadImpl (s : Kernel) : Except Stop Kernel :=
  let pipeId := s.reg 0
  let buf := s.reg 1
  let len := (s.reg 2).toInt
  if isPipeId pipeId = false ∨ buf = 0 ∨ len < 0 then .ok (s.ret errorCode)
  else if len = 0 then .ok (s.ret 0)
  else s.pipeReadLoop (getId pipeId) buf len.toNat

/-- `PipeWrite_Impl`. -/
def pipeWriteImpl (s : Kernel) (o : Outcomes) : Except Stop Kernel :=
  let pipeId := s.reg 0
  let buf := s.reg 1
  let len := (s.reg 2).toInt
  if isPipeId pipeId = false ∨ buf = 0 ∨ len < 0 then .ok (s.ret errorCode)
  else if len = 0 then .ok (s.ret 0)
  else
    let id := getId pipeId
    match (s.getPipe id).bind fun pipe =>
        pipe.ensureCapacity (pipe.len + len.toNat) (o.alloc 0) with
    | none => .ok (s.ret errorCode)
    | some pipe => do
        let bytes ← s.mem.loadBytes buf.toInt len.toNat
        let s := (s.setPipe id (pipe.appendBytes bytes)).emit (.pipeWritten id bytes)
        return (s.wakeReaders id s.numPcbs).ret (BitVec.ofInt 32 len)

end Kernel
end Yalnix
