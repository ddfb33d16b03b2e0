import Yalnix.Kernel

/-! Control blocks and the parent-child relation, from `pcb.c`. -/
namespace Yalnix

open Hardware

namespace Kernel

/-- `CHILD_ARR_SIZE`. -/
def childArrSize : Nat := 10

variable [Hardware]

/-- `create_new_pcb`. Its four allocations are the first of the trap; when one
fails the earlier ones are undone and `NULL` is returned. -/
def createNewPcb (s : Kernel) (uc : UserContext) (o : Outcomes) : Kernel × Option Proc :=
  if o.alloc 0 && o.alloc 1 && o.alloc 2 && o.alloc 3 then
    let proc := s.numPcbs
    let pcb : Pcb := { Pcb.blank with
      uc := uc
      pid := newPid proc
      state := .ready
      relations := ⟨true, fun _ => none, 0, childArrSize⟩ }
    let mem : Memory := { s.mem with
      ksPt := Function.update s.mem.ksPt proc fun _ => .blank
      ctx := Function.update s.mem.ctx proc .blank }
    ({ s with
      mem := mem
      pcb := Function.update s.pcb proc pcb
      next := Function.update s.next proc none
      numPcbs := s.numPcbs + 1 }, some proc)
  else (s, none)

end Kernel

namespace Relations

/-- The compaction loop of `find_exited_child`. -/
def compact (children : Nat → Option Proc) (i numChildren : Nat) : Nat → Option Proc :=
  Function.update
    ((List.range' i (numChildren - 1 - i)).foldl
      (fun children j => Function.update children j (children (j + 1))) children)
    (numChildren - 1) none

/-- Remove slot `i`, and halve an array that is less than half full. The
comparison and the copy use the count from before the removal. -/
def removeChild (r : Relations) (i : Nat) (shrinkOk : Bool) : Relations :=
  let children := compact r.children i r.numChildren
  if r.numChildren < r.arrSize / 2 ∧ shrinkOk = true then
    { r with
      children := fun j => if j < r.numChildren then children j else none
      numChildren := r.numChildren - 1
      arrSize := r.arrSize / 2 }
  else { r with children := children, numChildren := r.numChildren - 1 }

/-- `add_child_proc`; `none` is the return value `false`. -/
def addChild (r : Relations) (child : Proc) (growOk : Bool) : Option Relations :=
  if r.numChildren = r.arrSize then
    if growOk then
      some { r with
        children := Function.update
          (fun j => if j < r.numChildren then r.children j else none) r.numChildren (some child)
        numChildren := r.numChildren + 1
        arrSize := r.arrSize * 2 }
    else none
  else
    some { r with
      children := Function.update r.children r.numChildren (some child)
      numChildren := r.numChildren + 1 }

end Relations

namespace Kernel

/-- The process in a slot of a children array has exited. -/
def isExited (s : Kernel) (slot : Option Proc) : Bool :=
  slot.any fun child => (s.pcb child).state = .exited

/-- The index at which the search of `find_exited_child` stops. -/
def exitedChildIdx (s : Kernel) (parent : Proc) : Option Nat :=
  (List.range (s.pcb parent).relations.numChildren).find? fun i =>
    s.isExited ((s.pcb parent).relations.children i)

def setRelations (s : Kernel) (proc : Proc) (relations : Relations) : Kernel :=
  s.modifyPcb proc fun p => { p with relations := relations }

/-- `free(pcb)`. -/
def freePcb (s : Kernel) (proc : Proc) : Kernel :=
  (s.modifyPcb proc fun p => { p with freed := true }).emit (.freed proc)

/-- `find_exited_child`: the new state and the exit code that the source
stores through `output`, or `none` when no child has exited. -/
def findExitedChild (s : Kernel) (parent : Proc) (shrinkOk : Bool) : Option (Kernel × Word) := do
  let i ← s.exitedChildIdx parent
  let child ← (s.pcb parent).relations.children i
  let code := (s.pcb child).exitCode
  let freed := s.freePcb child
  let relations := (freed.pcb parent).relations.removeChild i shrinkOk
  some ((freed.setRelations parent relations).emit (.reaped parent child), code)

/-- `add_child_proc`. -/
def addChildProc (s : Kernel) (parent child : Proc) (growOk : Bool) : Kernel × Bool :=
  match (s.pcb parent).relations.addChild child growOk with
  | none => (s, false)
  | some relations => (s.setRelations parent relations, true)

/-- The loop body of `retire_pcb`. -/
def orphan (s : Kernel) (slot : Option Proc) : Kernel :=
  match slot with
  | none => s
  | some child =>
      if (s.pcb child).state = .exited then s.freePcb child
      else s.modifyPcb child fun p => { p with relations := { p.relations with hasParent := false } }

/-- `retire_pcb`. -/
def retirePcb (s : Kernel) (proc : Proc) : Kernel :=
  let r := (s.pcb proc).relations
  let s := (List.range r.numChildren).foldl (fun s i => s.orphan (r.children i)) s
  if (s.pcb proc).relations.hasParent then s else s.freePcb proc

end Kernel
end Yalnix
