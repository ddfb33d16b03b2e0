import Yalnix.FrameTracking
import Yalnix.Library.Transition

/-! Page tables, the memory fields of the control blocks, and the statics of
`user_memory.c` and `kernel_memory.c`. Physical memory is kept as bytes of
frames; the kernel's own variables are not stored in it. -/
namespace Yalnix

open Hardware

/-- Why the machine does not return from the kernel. `disabled` marks a trap
that the hardware cannot raise in the state at hand. -/
inductive Stop where
  | disabled
  | halt
  | nullPointer
  /-- An access of the kernel to an address that is not mapped for it. -/
  | fault (addr : Int)
  /-- A write through a user pointer to a byte that the running process could
  not have written itself: kernel memory, or an unmapped or protected page. -/
  | wildStore (addr : Int)
  /-- A switch to a process whose kernel context was never saved. -/
  | noContext (proc : Proc)
  deriving DecidableEq, Repr

/-- The protection bits of a page table entry. -/
structure Prot where
  read : Bool
  write : Bool
  exec : Bool
  deriving DecidableEq, Repr

/-- `PROT_READ | PROT_WRITE`. -/
def Prot.readWrite : Prot := ⟨true, true, false⟩

/-- `PROT_READ | PROT_EXEC`. -/
def Prot.readExec : Prot := ⟨true, false, true⟩

/-- `pte_t`. -/
structure Pte where
  valid : Bool
  prot : Prot
  pfn : Nat
  deriving DecidableEq, Repr

/-- An entry of a cleared page table. -/
def Pte.blank : Pte := ⟨false, ⟨false, false, false⟩, 0⟩

/-- `pte_t *`, indexed by the offset from the first page of the region. -/
abbrev PageTable := Int → Pte

def createPte (base : PageTable) (vpn : Int) (pfn : Nat) (prot : Prot) : PageTable :=
  Function.update base vpn ⟨true, prot, pfn⟩

/-- `destroy_pte`: the entry keeps its frame number, which is returned. -/
def destroyPte (base : PageTable) (vpn : Int) : PageTable × Nat :=
  (Function.update base vpn { base vpn with valid := false }, (base vpn).pfn)

/-- `mem_ctx_t`. -/
structure MemCtx where
  region1Pt : PageTable
  currBrkPage : Int
  origBrkPage : Int
  txtStartPage : Int
  dataStartPage : Int

/-- A cleared memory context. -/
def MemCtx.blank : MemCtx := ⟨fun _ => .blank, 0, 0, 0, 0⟩

/-- Everything the memory modules read or write. `ctx` and `ksPt` are the
fields `mem_ctx` and `ks_pt` of each control block, `active` is the block
that the static pointer `mem_ctx` points into, and `ptbr1` is the block whose
table was last written to `REG_PTBR1`. -/
structure Memory where
  frames : Frames
  region0Pt : PageTable
  currentBrkPage : Int
  vmEnabled : Bool
  ksPt : Proc → PageTable
  ctx : Proc → MemCtx
  active : Proc
  ptbr1 : Proc
  pmem : Nat → Nat → Byte

namespace Memory

/-- `mem_ctx->region1_pt`. -/
def region1Pt (m : Memory) : PageTable := (m.ctx m.active).region1Pt

def setRegion1Pt (m : Memory) (proc : Proc) (pt : PageTable) : Memory :=
  { m with ctx := Function.update m.ctx proc { m.ctx proc with region1Pt := pt } }

def setFrames (m : Memory) (frames : Frames) : Memory := { m with frames := frames }

variable [Hardware]

/-- `has_perms`. -/
def hasPerms (m : Memory) (addr : Int) (needsWrite : Bool) : Bool :=
  if addr < vmem1Base ∨ vmem1Limit ≤ addr then false
  else
    let entry := m.region1Pt (addr / pageSize - region1BaseVpn)
    entry.valid && (entry.prot.read && (!needsWrite || entry.prot.write))

/-- The frame and the offset a mapped region 1 address denotes. -/
def frameOf (m : Memory) (addr : Int) : Nat :=
  (m.region1Pt (addr / pageSize - region1BaseVpn)).pfn

def offsetOf (addr : Int) : Nat := (addr % pageSize).toNat

/-- One byte read by the kernel at a region 1 address. -/
def loadByte (m : Memory) (addr : Int) : Except Stop Byte :=
  if m.hasPerms addr false then .ok (m.pmem (m.frameOf addr) (offsetOf addr))
  else .error (.fault addr)

/-- The little-endian word at a region 1 address. -/
def loadWord (m : Memory) (addr : Int) : Except Stop Word := do
  let b0 ← m.loadByte addr
  let b1 ← m.loadByte (addr + 1)
  let b2 ← m.loadByte (addr + 2)
  let b3 ← m.loadByte (addr + 3)
  return b3 ++ b2 ++ b1 ++ b0

def loadBytes (m : Memory) (addr : Int) : Nat → Except Stop (List Byte)
  | 0 => .ok []
  | len + 1 => do
      let byte ← m.loadByte addr
      let rest ← loadBytes m (addr + 1) len
      return byte :: rest

theorem length_loadBytes {m : Memory} {addr : Int} {len : Nat} {bytes : List Byte}
    (h : m.loadBytes addr len = .ok bytes) : bytes.length = len := by
  induction len generalizing addr bytes with
  | zero =>
      obtain rfl := Except.ok.inj h
      rfl
  | succ len ih =>
      obtain ⟨byte, -, h⟩ := Transition.bind_eq_ok.mp h
      obtain ⟨rest, hRest, h⟩ := Transition.bind_eq_ok.mp h
      obtain rfl := Except.ok.inj h
      rw [List.length_cons, ih hRest]

def pokeByte (m : Memory) (addr : Int) (byte : Byte) : Memory :=
  { m with
    pmem := Function.update m.pmem (m.frameOf addr)
      (Function.update (m.pmem (m.frameOf addr)) (offsetOf addr) byte) }

/-- Bytes written by the kernel through a pointer, in increasing addresses. -/
def storeBytes (m : Memory) (addr : Int) : List Byte → Except Stop Memory
  | [] => .ok m
  | byte :: rest =>
      if m.hasPerms addr true then storeBytes (m.pokeByte addr byte) (addr + 1) rest
      else .error (.wildStore addr)

/-- A store changes the contents of pages and nothing else. -/
theorem storeBytes_eq {m m' : Memory} {addr : Int} {bytes : List Byte}
    (h : m.storeBytes addr bytes = .ok m') : m' = { m with pmem := m'.pmem } := by
  induction bytes generalizing m addr with
  | nil =>
      obtain rfl := Except.ok.inj h
      rfl
  | cons byte rest ih =>
      simp only [storeBytes] at h
      split_ifs at h
      exact (ih h).trans rfl

/-- The bytes of a word as they lie in memory. -/
def wordBytes (value : Word) : List Byte :=
  [value.extractLsb' 0 8, value.extractLsb' 8 8, value.extractLsb' 16 8,
    value.extractLsb' 24 8]

def storeWord (m : Memory) (addr : Int) (value : Word) : Except Stop Memory :=
  m.storeBytes addr (wordBytes value)

end Memory
end Yalnix
