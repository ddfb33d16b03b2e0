import Yalnix.Tty

/-! The syscalls of `syscalls.c`: argument checks, process creation and exit. -/
namespace Yalnix.Kernel

open Hardware Identifiers

/-- `MAX_STRING_LEN` and `MAX_ARGV_LEN`. -/
def maxStringLen : Nat := 1024

def maxArgvLen : Nat := 1024

variable [Hardware]

/-- The loop of `check_c_string`, with the characters it has seen. -/
def cStringFrom (m : Memory) : Nat → Int → Option (List Byte)
  | 0, _ => none
  | fuel + 1, addr =>
      match m.loadByte addr with
      | .error _ => none
      | .ok byte => if byte = 0 then some [] else (cStringFrom m fuel (addr + 1)).map (byte :: ·)

/-- `check_c_string`; the string itself is returned when the check succeeds. -/
def checkCString (m : Memory) (str : Word) : Option (List Byte) :=
  if str = 0 then none else cStringFrom m maxStringLen str.toInt

/-- The loop of `check_argv`. Only the first byte of each pointer is checked
before all four of them are read. -/
def argvFrom (m : Memory) : Nat → Int → Except Stop (Option (List Word))
  | 0, _ => .ok none
  | fuel + 1, addr =>
      if m.hasPerms addr false = false then .ok none
      else do
        let pointer ← m.loadWord addr
        if pointer = 0 then return some []
        else
          let rest ← argvFrom m fuel (addr + 4)
          return rest.map (pointer :: ·)

/-- `check_argv`, with the pointers before the terminating `NULL`. -/
def checkArgv (m : Memory) (argv : Word) : Except Stop (Option (List Word)) :=
  if argv = 0 then .ok none else argvFrom m maxArgvLen argv.toInt

/-- `check_c_buf`. -/
def checkCBuf (m : Memory) (str : Word) (len : Int) (needsWrite : Bool) : Bool :=
  str ≠ 0 && (List.range len.toNat).all fun i => m.hasPerms (str.toInt + i) needsWrite

/-- `KernelGetPid`. -/
def kernelGetPid (s : Kernel) : Kernel := s.ret (BitVec.ofNat 32 (s.pcb s.runningProc).pid)

/-- `KernelBrk`. -/
def kernelBrk (s : Kernel) : Kernel :=
  let changed := UserMemory.kernelBrkImpl s.mem (s.reg 0) (s.pcb s.runningProc).uc.sp
  (s.setMem changed.1).ret changed.2

/-- `KernelDelay`. -/
def kernelDelay (s : Kernel) (o : Outcomes) : Kernel :=
  let clockTicks := s.reg 0
  if clockTicks.toInt ≤ 0 then s.ret (if clockTicks = 0 then 0 else errorCode)
  else
    match s.putToSleep s.runningProc clockTicks (o.alloc 0) with
    | (s, true) => (s.ret 0).switchAway .delay
    | (s, false) => s.ret errorCode

/-- `KernelExit`; a trap handler passes no context, and `-1` is the code. -/
def kernelExit (s : Kernel) (code : Word) : Except Stop Kernel :=
  let proc := s.runningProc
  if (s.pcb proc).pid = 1 then .error .halt
  else
    let chosen := s.getNextProcess
    let s := (chosen.1.modifyPcb proc fun p => { p with exitCode := code, state := .exited }).emit
      (.exited proc code)
    let s := s.setMem (KernelMemory.deallocateKernelStack (UserMemory.deallocateRegion1 s.mem))
    .ok ((s.retirePcb proc).fullContextSwitch none chosen.2)

/-- The argument checks of `KernelExec`; `none` is the jump to the error
label. -/
def execArgs (s : Kernel) : Except Stop (Option (List (List Byte))) :=
  match checkCString s.mem (s.reg 0) with
  | none => .ok none
  | some _ => do
      let pointers ← checkArgv s.mem (s.reg 1)
      return pointers.bind fun argv => argv.mapM (checkCString s.mem)

/-- `KernelExec`. -/
def kernelExec (s : Kernel) (o : Outcomes) : Except Stop Kernel := do
  match ← s.execArgs with
  | none => return s.ret errorCode
  | some args =>
      let proc := s.runningProc
      let loaded ← LoadProgram.loadProgram s.mem (s.pcb proc).uc o.file args (o.alloc 0)
      let s := (s.setMem loaded.mem).modifyPcb proc fun p => { p with uc := loaded.uc }
      match loaded.result with
      | .kill => s.kernelExit (-1)
      | .error => return s.ret errorCode
      | .success => return s

/-- The calls of `SetKernelBrk` that the kernel heap makes during one
allocation. -/
def heapMoves (m : Memory) (brk : List Word) : Memory :=
  brk.foldl (fun m addr => (KernelMemory.setKernelBrk m addr).1) m

/-- `KernelFork` once the address space is copied: set both results and add the
child to the parent. A failure of `add_child_proc` is not noticed. -/
def forkLink (s : Kernel) (child : Proc) (o : Outcomes) : Kernel :=
  let parent := s.runningProc
  let s := s.ret (BitVec.ofNat 32 (s.pcb child).pid)
  let s := s.setResult child 0
  let s := (s.addChildProc parent child (o.alloc 4)).1.emit (.forked parent child)
  s.setMem (heapMoves s.mem o.brk)

/-- The end of `KernelFork`: the child is put on the ready queue before its
kernel stack is cloned. A failure of the latter is not noticed. -/
def forkCommit (s : Kernel) (child : Proc) (o : Outcomes) : Kernel :=
  let s := (s.forkLink child o).scheduleProcess child
  let copied := KernelMemory.kcCopy s.mem child
  let s := s.setMem copied.1
  if copied.2 then s.modifyPcb child fun p => { p with kc := some .fork } else s

/-- `KernelFork`. The result of `create_new_pcb` is used unchecked. -/
def kernelFork (s : Kernel) (o : Outcomes) : Except Stop Kernel :=
  let uc := (s.pcb s.runningProc).uc
  match s.createNewPcb uc o with
  | (_, none) => .error .nullPointer
  | (s, some child) => do
      let copied ← UserMemory.ucCopy s.mem uc.sp child
      let s := s.setMem copied.1
      if copied.2 then return (s.modifyPcb child fun p => { p with uc := uc }).forkCommit child o
      else return ((s.ret errorCode).retirePcb child).freePcb child

/-- `KernelWait`, up to the switch. -/
def kernelWait (s : Kernel) (o : Outcomes) : Except Stop Kernel :=
  let statusP := s.reg 0
  match s.findExitedChild s.runningProc (o.alloc 0) with
  | none => .ok ((s.waitBlockProcess s.runningProc).switchAway .wait)
  | some (s, code) =>
      if statusP = 0 then .ok (s.ret 0)
      else do
        let mem ← s.mem.storeWord statusP.toInt code
        return (s.setMem mem).ret 0

/-- `KernelWait` after the caller was woken. -/
def waitReturn (s : Kernel) : Except Stop Kernel :=
  if s.reg 0 = 0 then .ok (s.ret 0)
  else do
    let mem ← s.mem.storeWord (s.reg 0).toInt (s.reg 1)
    return (s.setMem mem).ret 0

/-- The buffer check in front of the four transfer calls. -/
def guardBuf (s : Kernel) (needsWrite : Bool) (body : Except Stop Kernel) : Except Stop Kernel :=
  if checkCBuf s.mem (s.reg 1) (s.reg 2).toInt needsWrite then body else .ok (s.ret errorCode)

def kernelTtyRead (s : Kernel) : Except Stop Kernel := s.guardBuf true s.kernelTtyReadImpl

def kernelTtyWrite (s : Kernel) (o : Outcomes) : Except Stop Kernel :=
  s.guardBuf false (s.kernelTtyWriteImpl o)

def kernelPipeRead (s : Kernel) : Except Stop Kernel := s.guardBuf true s.pipeReadImpl

def kernelPipeWrite (s : Kernel) (o : Outcomes) : Except Stop Kernel :=
  s.guardBuf false (s.pipeWriteImpl o)

/-- `Reclaim_Impl`. -/
def kernelReclaim (s : Kernel) (o : Outcomes) : Kernel :=
  let id := s.reg 0
  let reclaimed :=
    if isLockId id || isSemId id then s.deleteLock (getId id) (o.alloc 0)
    else if isPipeId id then s.pipeReclaim (getId id)
    else if isCvarId id then s.deleteCvar (getId id) (o.alloc 0)
    else (s, false)
  reclaimed.1.retBool reclaimed.2

end Yalnix.Kernel
