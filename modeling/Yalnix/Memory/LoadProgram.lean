import Yalnix.Memory.UserMemory

/-! The program loader of `load_program.c`. What the host finds under a file
name, the header `LoadInfo` extracts and the bytes `read` returns, is an input. -/
namespace Yalnix.LoadProgram

open Hardware UserMemory

variable [Hardware]

/-- `struct load_info`, less the file offsets. -/
structure LoadInfo where
  entry : Word
  tVaddr : Word
  tNpg : Nat
  idVaddr : Word
  idNpg : Nat
  idEnd : Word
  udNpg : Nat
  udEnd : Word

/-- What `open`, `LoadInfo` and the two `read` calls find. -/
inductive File where
  | missing
  | malformed
  | image (info : LoadInfo) (text data : List Byte)

/-- `SUCCESS`, `ERROR` and `KILL`. -/
inductive Result where
  | success
  | error
  | kill
  deriving DecidableEq, Repr

/-- The calls that acquire or release what the loader holds temporarily. -/
inductive Resource where
  | opened
  | closed
  | argsAllocated
  | argsFreed
  deriving DecidableEq, Repr

/-- What a call of `LoadProgram` leaves behind. -/
structure Outcome where
  result : Result
  mem : Memory
  uc : UserContext
  resources : List Resource

/-- The sizes computed before the loader commits itself. -/
structure Layout where
  textPg1 : Int
  dataPg1 : Int
  dataNpg : Int
  /-- Start of the argument strings. -/
  cp : Int
  /-- Start of `argc` and the argument pointers. -/
  cpp : Int
  /-- The new stack pointer. -/
  sp : Int
  stackNpg : Int

def layout (li : LoadInfo) (args : List (List Byte)) : Layout :=
  let size : Int := (args.map fun arg => (arg.length : Int) + 1).sum
  let cp := vmem1Limit - size
  let unaligned := cp - (args.length + 3 + postArgvNullSpace) * 4
  let cpp := unaligned - unaligned % 8
  let sp := cpp - initialStackFrameSize * 4
  { textPg1 := (li.tVaddr.toInt - vmem1Base) / pageSize
    dataPg1 := (li.idVaddr.toInt - vmem1Base) / pageSize
    dataNpg := li.idNpg + li.udNpg
    cp := cp
    cpp := cpp
    sp := sp
    stackNpg := region1LimitVpn - sp / pageSize }

/-- A store of the loader itself; an unmapped target is a kernel fault. -/
def store (m : Memory) (addr : Int) (bytes : List Byte) : Except Stop Memory :=
  (m.storeBytes addr bytes).mapError fun _ => .fault addr

/-- The loop that copies each argument and sets `argv`, and the two `NULL`
words after it. -/
def buildArgs (m : Memory) (cpp cp : Int) : List (List Byte) → Except Stop Memory
  | [] => store m cpp (Memory.wordBytes 0 ++ Memory.wordBytes 0)
  | arg :: rest => do
      let m ← store m cpp (Memory.wordBytes (BitVec.ofInt 32 cp))
      let m ← store m cp (arg ++ [0])
      buildArgs m (cpp + 4) (cp + arg.length + 1) rest

/-- `read(fd, vaddr, npg << PAGESHIFT) != npg << PAGESHIFT`: the segment is
complete and its pages are mapped, or the loader gives up. -/
def readSegment (m : Memory) (vaddr : Word) (npg : Nat) (bytes : List Byte) : Memory × Bool :=
  let segment := bytes.take (npg * pageSize)
  match m.storeBytes vaddr.toInt segment with
  | .error _ => (m, false)
  | .ok m => (m, segment.length = npg * pageSize)

/-- The last part of `LoadProgram`: all pages are in the page table and both
segments have been read. -/
def finish (m : Memory) (uc : UserContext) (li : LoadInfo) (lay : Layout)
    (args : List (List Byte)) : Except Stop (Memory × UserContext) := do
  let textPage := lay.textPg1 + region1BaseVpn
  let dataPage := lay.dataPg1 + region1BaseVpn
  let m := protRegion m textPage (textPage + li.tNpg) .readExec
  let m ← store m li.idEnd.toInt (List.replicate (li.udEnd.toInt - li.idEnd.toInt).toNat 0)
  let bounds : MemCtx := { m.ctx m.active with
    txtStartPage := textPage
    dataStartPage := dataPage
    origBrkPage := dataPage + lay.dataNpg
    currBrkPage := dataPage + lay.dataNpg }
  let m := { m with ctx := Function.update m.ctx m.active bounds }
  let m ← store m lay.cpp (List.replicate (vmem1Limit - lay.cpp).toNat 0)
  let m ← store m lay.cpp (Memory.wordBytes (BitVec.ofNat 32 args.length))
  let m ← buildArgs m (lay.cpp + 4) lay.cp args
  return (m, { uc with pc := li.entry })

/-- Three regions are allocated in this order; the flag tells how many of
them were, so that the exits can be told apart. -/
def allocSegments (m : Memory) (li : LoadInfo) (lay : Layout) : Memory × Nat :=
  let textPage := lay.textPg1 + region1BaseVpn
  let dataPage := lay.dataPg1 + region1BaseVpn
  match allocRegion m textPage (textPage + li.tNpg) .readWrite with
  | (m, false) => (m, 0)
  | (m, true) =>
      match allocRegion m dataPage (dataPage + lay.dataNpg) .readWrite with
      | (m, false) => (m, 1)
      | (m, true) =>
          match allocRegion m (region1LimitVpn - lay.stackNpg) region1LimitVpn .readWrite with
          | (m, false) => (m, 2)
          | (m, true) => (m, 3)

/-- `LoadProgram` on the active process, whose saved context is `uc`. The
stack pointer is set before the argument buffer is allocated. -/
def loadProgram (m : Memory) (uc : UserContext) (file : File) (args : List (List Byte))
    (argsOk : Bool) : Except Stop Outcome :=
  match file with
  | .missing => .ok ⟨.error, m, uc, []⟩
  | .malformed => .ok ⟨.error, m, uc, [.opened, .closed]⟩
  | .image li text data =>
      if li.entry.toInt < vmem1Base then .ok ⟨.error, m, uc, [.opened, .closed]⟩
      else
        let lay := layout li args
        if (maxPtLen : Int) ≤ lay.stackNpg + lay.dataPg1 + lay.dataNpg then
          .ok ⟨.error, m, uc, [.opened, .closed]⟩
        else
          let uc := { uc with sp := BitVec.ofInt 32 lay.sp }
          if argsOk = false then .ok ⟨.error, m, uc, [.opened, .closed]⟩
          else
            match allocSegments (deallocateRegion1 m) li lay with
            | (m, 3) =>
                match readSegment m li.tVaddr li.tNpg text with
                | (m, false) => .ok ⟨.kill, m, uc, [.opened, .argsAllocated, .closed]⟩
                | (m, true) =>
                    match readSegment m li.idVaddr li.idNpg data with
                    | (m, false) => .ok ⟨.kill, m, uc, [.opened, .argsAllocated, .closed]⟩
                    | (m, true) => do
                        let loaded ← finish m uc li lay args
                        return ⟨.success, loaded.1, loaded.2,
                          [.opened, .argsAllocated, .closed, .argsFreed]⟩
            | (m, 2) => .ok ⟨.kill, m, uc, [.opened, .argsAllocated, .argsFreed, .closed]⟩
            | (m, _) => .ok ⟨.kill, m, uc, [.opened, .argsAllocated]⟩

end Yalnix.LoadProgram
