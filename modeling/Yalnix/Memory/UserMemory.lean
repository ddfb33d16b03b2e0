import Yalnix.Memory.State

/-! Region 1 management of `user_memory.c`. All functions work on the context
of the active process. -/
namespace Yalnix.UserMemory

open Hardware

variable [Hardware]

/-- `vpn` addresses an entry of the region 1 page table. -/
def inRegion1 (vpn : Int) : Prop := vpn - region1BaseVpn < region1Vpns ∧ 0 ≤ vpn - region1BaseVpn

instance (vpn : Int) : Decidable (inRegion1 vpn) := inferInstanceAs (Decidable (_ ∧ _))

/-- `alloc_page`. The frame is taken before the page number is checked. -/
def allocPage (m : Memory) (vpn : Int) (prot : Prot) : Memory × Bool :=
  match m.frames.findFrame with
  | (frames, none) => (m.setFrames frames, false)
  | (frames, some pfn) =>
      if inRegion1 vpn then
        ((m.setFrames frames).setRegion1Pt m.active
          (createPte m.region1Pt (vpn - region1BaseVpn) pfn prot), true)
      else (m.setFrames frames, false)

def deallocPage (m : Memory) (vpn : Int) : Memory × Bool :=
  if inRegion1 vpn then
    if (m.region1Pt (vpn - region1BaseVpn)).valid = false then (m, false)
    else
      let destroyed := destroyPte m.region1Pt (vpn - region1BaseVpn)
      let freed := m.frames.freeFrame destroyed.2
      ((m.setRegion1Pt m.active destroyed.1).setFrames freed.1, freed.2)
  else (m, false)

/-- `unmap_no_free`; the return value `-1` is `none`. -/
def unmapNoFree (m : Memory) (vpn : Int) : Memory × Option Nat :=
  if inRegion1 vpn then
    let destroyed := destroyPte m.region1Pt (vpn - region1BaseVpn)
    (m.setRegion1Pt m.active destroyed.1, some destroyed.2)
  else (m, none)

def changeProt (m : Memory) (vpn : Int) (prot : Prot) : Memory :=
  if ¬inRegion1 vpn then m
  else if (m.region1Pt (vpn - region1BaseVpn)).valid = false then m
  else m.setRegion1Pt m.active (Function.update m.region1Pt (vpn - region1BaseVpn)
    { m.region1Pt (vpn - region1BaseVpn) with prot := prot })

def undoAllocation (m : Memory) (firstVpn lastVpn : Int) : Memory :=
  (pageRange firstVpn lastVpn).foldl (fun m vpn => (deallocPage m vpn).1) m

/-- The loop shared by `KernelBrk_Impl` and `alloc_region`: map the pages in
order, and release those from `firstVpn` on when one cannot be mapped. -/
def allocPages (m : Memory) (firstVpn : Int) (prot : Prot) : List Int → Memory × Bool
  | [] => (m, true)
  | vpn :: rest =>
      match allocPage m vpn prot with
      | (m, true) => allocPages m firstVpn prot rest
      | (m, false) => (undoAllocation m firstVpn vpn, false)

def setCurrBrkPage (m : Memory) (page : Int) : Memory :=
  { m with ctx := Function.update m.ctx m.active { m.ctx m.active with currBrkPage := page } }

/-- `KernelBrk_Impl`. -/
def kernelBrkImpl (m : Memory) (addr sp : Word) : Memory × Word :=
  let heapPage := pageNumber (upToPage addr)
  let stackPage := pageNumber (downToPage sp)
  let currBrkPage := (m.ctx m.active).currBrkPage
  if heapPage < (m.ctx m.active).origBrkPage ∨ stackPage - 1 ≤ heapPage then (m, errorCode)
  else if currBrkPage < heapPage then
    match allocPages m currBrkPage .readWrite (pageRange currBrkPage heapPage) with
    | (m, false) => (m, errorCode)
    | (m, true) => (setCurrBrkPage m heapPage, 0)
  else (setCurrBrkPage (undoAllocation m heapPage currBrkPage) heapPage, 0)

/-- The loop of `expand_stack`. A failed allocation is not noticed. -/
def growStack (m : Memory) : List Int → Memory
  | [] => m
  | vpn :: rest =>
      if (m.region1Pt (vpn - region1BaseVpn)).valid then m
      else growStack (allocPage m vpn .readWrite).1 rest

def expandStack (m : Memory) (sp : Word) : Memory × Bool :=
  if sp.toInt < vmem1Base ∨ vmem1Limit ≤ sp.toInt then (m, false)
  else
    let stackPage := pageNumber (downToPage sp)
    if stackPage < (m.ctx m.active).currBrkPage + 1 then (m, false)
    else (growStack m (pageRange stackPage region1LimitVpn), true)

/-- `memcpy` of one page between two pages of region 1. -/
def copyFrame (m : Memory) (target source : Int) : Except Stop Memory :=
  let entry := m.region1Pt (source - region1BaseVpn)
  if inRegion1 source ∧ entry.valid ∧ entry.prot.read then
    .ok { m with
      pmem := Function.update m.pmem (m.region1Pt (target - region1BaseVpn)).pfn
        (m.pmem entry.pfn) }
  else .error (.fault (source * pageSize))

/-- `destroy_pt`: release the frames of a table without unmapping them. -/
def destroyPt (m : Memory) (pt : PageTable) (first last : Int) : Memory :=
  (pageRange first last).foldl
    (fun m vpn => if (pt vpn).valid then m.setFrames (m.frames.freeFrame (pt vpn).pfn).1 else m) m

/-- The body of the three loops of `UCCopy`, which differ in the protection
they give: map a new frame at the parent's break, fill it from the page to be
copied, and hand it to the child's table. -/
def copyPages (m : Memory) (child : Proc) (brkPage : Int) :
    List (Int × Prot) → Except Stop (Memory × Bool)
  | [] => .ok (m, true)
  | (vpn, prot) :: rest =>
      match allocPage m brkPage .readWrite with
      | (m, false) =>
          .ok (destroyPt m (m.ctx child).region1Pt 0 (vpn - region1BaseVpn), false)
      | (m, true) => do
          let m ← copyFrame m brkPage vpn
          let unmapped := unmapNoFree m brkPage
          let m := unmapped.1
          let entry : Pte := ⟨true, prot, unmapped.2.getD 0⟩
          copyPages (m.setRegion1Pt child
            (Function.update (m.ctx child).region1Pt (vpn - region1BaseVpn) entry))
            child brkPage rest

/-- The pages `UCCopy` copies, in order: text, data and heap, stack. -/
def copiedPages (ctx : MemCtx) (sp : Word) : List (Int × Prot) :=
  (pageRange ctx.txtStartPage ctx.dataStartPage).map (·, .readExec) ++
    (pageRange ctx.dataStartPage ctx.currBrkPage).map (·, .readWrite) ++
    (pageRange (pageNumber (downToPage sp)) region1LimitVpn).map (·, .readWrite)

/-- `UCCopy` without the copy of the user context, which is not memory. -/
def ucCopy (m : Memory) (sp : Word) (child : Proc) : Except Stop (Memory × Bool) :=
  let ctx := m.ctx m.active
  if pageNumber (downToPage sp) ≤ ctx.currBrkPage then .ok (m, false)
  else do
    let copied ← copyPages m child ctx.currBrkPage (copiedPages ctx sp)
    if copied.2 then
      let m := copied.1
      let bounds : MemCtx := { ctx with region1Pt := (m.ctx child).region1Pt }
      return ({ m with ctx := Function.update m.ctx child bounds }, true)
    else return copied

def allocRegion (m : Memory) (startVpn endVpn : Int) (prot : Prot) : Memory × Bool :=
  if startVpn < region1BaseVpn ∨ region1BaseVpn + region1Vpns < endVpn then (m, false)
  else allocPages m startVpn prot (pageRange startVpn endVpn)

def protRegion (m : Memory) (startVpn endVpn : Int) (prot : Prot) : Memory :=
  if startVpn < region1BaseVpn ∨ region1LimitVpn < endVpn then m
  else (pageRange startVpn endVpn).foldl (fun m vpn => changeProt m vpn prot) m

omit [Hardware] in
/-- `UCSwitch`. -/
def ucSwitch (m : Memory) (next : Proc) : Memory := { m with active := next, ptbr1 := next }

def deallocateRegion1 (m : Memory) : Memory := undoAllocation m region1BaseVpn region1LimitVpn

/-- `init_region1_pt`. -/
def initRegion1Pt (m : Memory) (idle : Proc) : Memory × Bool :=
  let bounds : MemCtx := { m.ctx idle with
    txtStartPage := region1BaseVpn
    dataStartPage := region1BaseVpn
    origBrkPage := region1BaseVpn
    currBrkPage := region1BaseVpn }
  let m := { m with active := idle, ptbr1 := idle, ctx := Function.update m.ctx idle bounds }
  allocPage m (region1LimitVpn - 1) .readWrite

end Yalnix.UserMemory
