import Yalnix.Pipe

/-! Terminals, from `tty.c`: writes sent in chunks by a single owner, received
lines kept in a list, and queues of blocked writers and readers. -/
namespace Yalnix.Kernel

open Hardware IntrusiveQueue

def setTty (s : Kernel) (id : Nat) (tty : Tty) : Kernel :=
  { s with ttys := Function.update s.ttys id tty }

/-- `wq_push`. -/
def wqPush (s : Kernel) (id : Nat) (proc : Proc) : Kernel :=
  let pushed := Pipe.queuePush s.next (s.ttys id).writers proc
  (s.setNext pushed.1).setTty id { s.ttys id with writers := pushed.2 }

/-- `wq_pop`. -/
def wqPop (s : Kernel) (id : Nat) : Kernel × Option Proc :=
  match pop s.next (s.ttys id).writers with
  | (none, _, _) => (s, none)
  | (some proc, next, ends) =>
      ((s.setNext next).setTty id { s.ttys id with writers := ends }, some proc)

/-- `rq_push`. -/
def rqPush (s : Kernel) (id : Nat) (proc : Proc) : Kernel :=
  let pushed := Pipe.queuePush s.next (s.ttys id).readers proc
  (s.setNext pushed.1).setTty id { s.ttys id with readers := pushed.2 }

/-- `rq_pop`. -/
def rqPop (s : Kernel) (id : Nat) : Kernel × Option Proc :=
  match pop s.next (s.ttys id).readers with
  | (none, _, _) => (s, none)
  | (some proc, next, ends) =>
      ((s.setNext next).setTty id { s.ttys id with readers := ends }, some proc)

/-- Link a new line behind the received ones, with `line->next = NULL`. -/
def appendLine (s : Kernel) (id : Nat) (line : List Byte) : Kernel :=
  let node := s.numLines
  let tty := s.ttys id
  let cleared := Function.update s.lineNext node none
  let linked := match tty.rx.last with
    | none => cleared
    | some tail => Function.update cleared tail (some node)
  let first := match tty.rx.last with
    | none => some node
    | some _ => tty.rx.first
  ({ s with
    lines := Function.update s.lines node ⟨line, 0⟩
    lineNext := linked
    numLines := s.numLines + 1 }.setTty id { tty with rx := ⟨first, some node⟩ }).emit
      (.ttyReceived id line)

/-- The part of `consume_into_user` that does not touch user memory: the bytes
copied out of the first line and the state after them. -/
def consume (s : Kernel) (id : Nat) (len : Nat) : Kernel × List Byte :=
  match (s.ttys id).rx.first with
  | none => (s, [])
  | some node =>
      let line := s.lines node
      let avail := line.buf.length - line.off
      let n := if avail < len then avail else len
      let s := { s with lines := Function.update s.lines node { line with off := line.off + n } }
      if line.buf.length ≤ line.off + n then
        let tty := s.ttys id
        let first := s.lineNext node
        let last := if first = none then none else tty.rx.last
        (s.setTty id { tty with rx := ⟨first, last⟩ }, (line.buf.drop line.off).take n)
      else (s, (line.buf.drop line.off).take n)

variable [Hardware]

/-- `start_chunk`. -/
def startChunk (s : Kernel) (id : Nat) : Kernel :=
  match (s.ttys id).txOwner with
  | none => s
  | some owner =>
      let pcb := s.pcb owner
      let remaining := pcb.ioTotal - pcb.ioSent
      let chunk := if remaining < terminalMaxLine then remaining else terminalMaxLine
      (s.setTty id { s.ttys id with txLastChunk := chunk, transmitting := true }).emit
        (.ttyTransmit id ((pcb.ioKbuf.drop pcb.ioSent).take chunk))

/-- `consume_into_user` followed by the return of the syscall. -/
def consumeIntoUser (s : Kernel) (id : Nat) (ubuf : Word) (len : Nat) : Except Stop Kernel := do
  let consumed := s.consume id len
  let mem ← consumed.1.mem.storeBytes ubuf.toInt consumed.2
  let s := (consumed.1.setMem mem).emit (.ttyRead id s.runningProc len consumed.2)
  return s.ret (BitVec.ofNat 32 consumed.2.length)

omit [Hardware] in
/-- `kernel_tty_write` records the `len` bytes copied from the user. -/
def ttyRecord (s : Kernel) (id : Nat) (bytes : List Byte) : Kernel :=
  (s.modifyPcb s.runningProc fun p => { p with
    ioKbuf := bytes, ioTotal := bytes.length, ioSent := 0, ioTtyId := id }).emit
      (.ttyWritten id s.runningProc bytes)

/-- The blocking part of `kernel_tty_write` before the switch: either start to
transmit or queue behind the owner. -/
def ttyWriteBlock (s : Kernel) (id : Nat) (bytes : List Byte) : Kernel :=
  let curr := s.runningProc
  let s := s.ttyRecord id bytes
  let s := match (s.ttys id).txOwner with
    | none => (s.setTty id { s.ttys id with txOwner := some curr }).startChunk id
    | some _ => s.wqPush id curr
  s.setState curr .waiting

/-- `kernel_tty_write`, up to the switch. -/
def kernelTtyWriteImpl (s : Kernel) (o : Outcomes) : Except Stop Kernel :=
  let ttyId := (s.reg 0).toInt
  let ubuf := s.reg 1
  let len := (s.reg 2).toInt
  if ttyId < 0 ∨ (numTerminals : Int) ≤ ttyId ∨ len < 0 ∨ ubuf = 0 then .ok (s.ret errorCode)
  else if len = 0 then .ok (s.ret 0)
  else if o.alloc 0 = false then .ok (s.ret errorCode)
  else do
    let bytes ← s.mem.loadBytes ubuf.toInt len.toNat
    return (s.ttyWriteBlock ttyId.toNat bytes).switchAway (.ttyWrite ttyId.toNat)

omit [Hardware] in
/-- `kernel_tty_write` after all chunks of the caller are complete. -/
def ttyWriteReturn (s : Kernel) (id : Nat) : Kernel :=
  let curr := s.runningProc
  let total := (s.pcb curr).ioTotal
  let s := s.modifyPcb curr fun p => { p with ioKbuf := [] }
  (s.ret (BitVec.ofNat 32 total)).emit (.ttyWriteReturned id curr total)

omit [Hardware] in
/-- The blocking part of `kernel_tty_read` before the switch. -/
def ttyReadBlock (s : Kernel) (id : Nat) (ubuf : Word) (len : Nat) : Kernel :=
  let curr := s.runningProc
  let s := s.modifyPcb curr fun p => { p with ioUserBuf := ubuf, ioLen := len, ioTtyId := id }
  (s.rqPush id curr).setState curr .waiting

/-- `kernel_tty_read`, up to the switch. -/
def kernelTtyReadImpl (s : Kernel) : Except Stop Kernel :=
  let ttyId := (s.reg 0).toInt
  let ubuf := s.reg 1
  let len := (s.reg 2).toInt
  if ttyId < 0 ∨ (numTerminals : Int) ≤ ttyId ∨ len < 0 ∨ ubuf = 0 then .ok (s.ret errorCode)
  else if len = 0 then .ok (s.ret 0)
  else if (s.ttys ttyId.toNat).rx.first ≠ none then s.consumeIntoUser ttyId.toNat ubuf len.toNat
  else .ok ((s.ttyReadBlock ttyId.toNat ubuf len.toNat).switchAway (.ttyRead ttyId.toNat))

/-- `kernel_tty_read` after the caller was woken. -/
def ttyReadReturn (s : Kernel) (id : Nat) : Except Stop Kernel :=
  let pcb := s.pcb s.runningProc
  s.consumeIntoUser id pcb.ioUserBuf pcb.ioLen

omit [Hardware] in
/-- The bookkeeping of `tty_transmit_done` for the chunk that is complete. -/
def ttyChunkDone (s : Kernel) (id : Nat) (owner : Proc) : Kernel :=
  let s := s.modifyPcb owner fun p => { p with ioSent := p.ioSent + (s.ttys id).txLastChunk }
  s.setTty id { s.ttys id with transmitting := false }

/-- The hand-over of `tty_transmit_done`: the next blocked writer, if there is
one, becomes the owner and starts. -/
def ttyHandOver (s : Kernel) (id : Nat) : Kernel :=
  match s.wqPop id with
  | (s, none) => s
  | (s, some nxt) => (s.setTty id { s.ttys id with txOwner := some nxt }).startChunk id

/-- The end of a write in `tty_transmit_done`: the owner is put back on the ready
queue and the terminal is handed over. -/
def ttyFinish (s : Kernel) (id : Nat) (owner : Proc) : Kernel :=
  let s := (s.setTty id { s.ttys id with txOwner := none }).emit (.ttyWriteDone id owner)
  (s.scheduleProcess owner).ttyHandOver id

/-- `tty_transmit_done`. -/
def ttyTransmitDone (s : Kernel) (ttyId : Int) : Kernel :=
  if ttyId < 0 ∨ (numTerminals : Int) ≤ ttyId then s
  else
    let id := ttyId.toNat
    let s := s.emit (.ttyTransmitTrap id)
    match (s.ttys id).txOwner with
    | none => s
    | some owner =>
        let s := s.ttyChunkDone id owner
        if (s.pcb owner).ioSent < (s.pcb owner).ioTotal then s.startChunk id
        else s.ttyFinish id owner

omit [Hardware] in
/-- A line is stored and the first blocked reader, if there is one, is woken. -/
def ttyDeliver (s : Kernel) (id : Nat) (line : List Byte) : Kernel :=
  match (s.appendLine id line).rqPop id with
  | (s, none) => s
  | (s, some reader) => s.scheduleProcess reader

/-- `tty_receive_done`; `line` is what `TtyReceive` delivers. -/
def ttyReceiveDone (s : Kernel) (ttyId : Int) (line : List Byte) (lineOk : Bool) : Kernel :=
  if ttyId < 0 ∨ (numTerminals : Int) ≤ ttyId then s
  else if lineOk = false then s
  else s.ttyDeliver ttyId.toNat line

end Yalnix.Kernel
