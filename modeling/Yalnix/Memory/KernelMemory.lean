import Yalnix.Memory.State

/-! Region 0 management of `kernel_memory.c`: the kernel heap and the kernel
stacks, which all share one page table. -/
namespace Yalnix.KernelMemory

open Hardware

variable [Hardware]

/-- `vpn` addresses an entry of the region 0 page table. -/
def inRegion0 (vpn : Int) : Prop := vpn < region0Vpns ∧ 0 ≤ vpn

instance (vpn : Int) : Decidable (inRegion0 vpn) := inferInstanceAs (Decidable (_ ∧ _))

/-- `K_STACK_BASE_VPN`. -/
def stackBase : Int := kStackBaseVpn

/-- `K_STACK_LIMIT_VPN`. -/
def stackLimit : Int := kStackBaseVpn + kStackVpns

def allocPage (m : Memory) (vpn : Int) (prot : Prot) : Memory × Bool :=
  match m.frames.findFrame with
  | (frames, none) => (m.setFrames frames, false)
  | (frames, some pfn) =>
      if inRegion0 vpn then
        ({ m with frames := frames, region0Pt := createPte m.region0Pt vpn pfn prot }, true)
      else (m.setFrames frames, false)

def deallocPage (m : Memory) (vpn : Int) : Memory × Bool :=
  if ¬inRegion0 vpn then (m, false)
  else if (m.region0Pt vpn).valid = false then (m, false)
  else
    let destroyed := destroyPte m.region0Pt vpn
    let freed := m.frames.freeFrame destroyed.2
    ({ m with frames := freed.1, region0Pt := destroyed.1 }, freed.2)

def freeNoUnmap (m : Memory) (vpn : Int) : Memory × Bool :=
  if ¬inRegion0 vpn then (m, false)
  else if (m.region0Pt vpn).valid = false then (m, false)
  else
    let freed := m.frames.freeFrame (m.region0Pt vpn).pfn
    (m.setFrames freed.1, freed.2)

/-- `unmap_no_free`; the return value `-1` is `none`. -/
def unmapNoFree (m : Memory) (vpn : Int) : Memory × Option Nat :=
  if inRegion0 vpn then
    let destroyed := destroyPte m.region0Pt vpn
    ({ m with region0Pt := destroyed.1 }, some destroyed.2)
  else (m, none)

def undoAllocation (m : Memory) (firstVpn lastVpn : Int) : Memory :=
  (pageRange firstVpn lastVpn).foldl (fun m vpn => (deallocPage m vpn).1) m

/-- The growth loop of `SetKernelBrk`. -/
def allocPages (m : Memory) (firstVpn : Int) : List Int → Memory × Bool
  | [] => (m, true)
  | vpn :: rest =>
      match allocPage m vpn .readWrite with
      | (m, true) => allocPages m firstVpn rest
      | (m, false) => (undoAllocation m firstVpn vpn, false)

/-- `SetKernelBrk`; `true` is the return value `0` and `false` is `ERROR`. -/
def setKernelBrk (m : Memory) (addr : Word) : Memory × Bool :=
  let heapPage := pageNumber (upToPage addr)
  if heapPage < origKernelBrkPage ∨ stackBase - 2 ≤ heapPage then (m, false)
  else if m.vmEnabled = false then ({ m with currentBrkPage := heapPage }, true)
  else if m.currentBrkPage < heapPage then
    match allocPages m m.currentBrkPage (pageRange m.currentBrkPage heapPage) with
    | (m, false) => (m, false)
    | (m, true) => ({ m with currentBrkPage := heapPage }, true)
  else ({ undoAllocation m heapPage m.currentBrkPage with currentBrkPage := heapPage }, true)

/-- `memcpy` of the current kernel stack to the pages from `target` on. -/
def copyStack (m : Memory) (target : Int) : Memory :=
  (pageRange 0 kStackVpns).foldl
    (fun m i => { m with
      pmem := Function.update m.pmem (m.region0Pt (target + i)).pfn
        (m.pmem (m.region0Pt (stackBase + i)).pfn) }) m

/-- The loop of `KCCopy` that moves the new frames to the child's stack table. -/
def handStack (m : Memory) (child : Proc) (trueBrkPage : Int) : List Int → Memory
  | [] => m
  | vpn :: rest =>
      let unmapped := unmapNoFree m vpn
      let m := unmapped.1
      let entry : Pte := ⟨true, .readWrite, unmapped.2.getD 0⟩
      handStack { m with
        ksPt := Function.update m.ksPt child
          (Function.update (m.ksPt child) (vpn - trueBrkPage) entry) }
        child trueBrkPage rest

/-- `KCCopy` without the copy of the kernel context; `false` is `NULL`. -/
def kcCopy (m : Memory) (child : Proc) : Memory × Bool :=
  let trueBrkPage := m.currentBrkPage
  match setKernelBrk m (BitVec.ofInt 32 ((trueBrkPage + kStackVpns) * pageSize)) with
  | (m, false) => (m, false)
  | (m, true) =>
      let m := copyStack m trueBrkPage
      let m := handStack m child trueBrkPage (pageRange trueBrkPage (trueBrkPage + kStackVpns))
      ({ m with currentBrkPage := trueBrkPage }, true)

/-- The memory part of `KCSwitch`. -/
def kcSwitch (m : Memory) (next : Proc) : Memory :=
  { m with
    region0Pt := fun vpn =>
      if stackBase ≤ vpn ∧ vpn < stackLimit then m.ksPt next (vpn - stackBase)
      else m.region0Pt vpn }

def deallocateKernelStack (m : Memory) : Memory :=
  (pageRange stackBase stackLimit).foldl (fun m vpn => (freeNoUnmap m vpn).1) m

/-- One of the three loops of `init_region0_pt`, identity mapping its pages. -/
def acquirePages (m : Memory) (prot : Prot) : List Int → Memory × Bool
  | [] => (m, true)
  | vpn :: rest =>
      match m.frames.acquireFrame vpn.toNat with
      | (frames, false) => (m.setFrames frames, false)
      | (frames, true) =>
          acquirePages { m with
            frames := frames
            region0Pt := createPte m.region0Pt vpn vpn.toNat prot } prot rest

/-- `init_region0_pt`. -/
def initRegion0Pt (m : Memory) (idle : Proc) : Memory × Bool :=
  let m := { m with region0Pt := fun _ => .blank }
  match acquirePages m .readExec (pageRange firstKernelTextPage firstKernelDataPage) with
  | (m, false) => (m, false)
  | (m, true) =>
      match acquirePages m .readWrite (pageRange firstKernelDataPage m.currentBrkPage) with
      | (m, false) => (m, false)
      | (m, true) =>
          match acquirePages m .readWrite (pageRange stackBase stackLimit) with
          | (m, false) => (m, false)
          | (m, true) =>
              ({ m with
                ksPt := Function.update m.ksPt idle fun i =>
                  if 0 ≤ i ∧ i < kStackVpns then m.region0Pt (stackBase + i)
                  else m.ksPt idle i }, true)

end Yalnix.KernelMemory
