import Yalnix.Interrupt
import Mathlib.Data.Int.Range

/-! A small machine, with which runs of the kernel can be computed. -/
namespace Yalnix.Sample

open Hardware Transition

/-- Pages of 16 bytes, 12 of them in region 0 and 6 in region 1. -/
scoped instance machine : Hardware where
  pageShift := 4
  region0Vpns := 12
  region1Vpns := 6
  kStackBaseVpn := 10
  kStackVpns := 2
  firstKernelTextPage := 0
  firstKernelDataPage := 1
  origKernelBrkPage := 2
  pmemBaseFrame := 0
  pmemSize := 480
  numTerminals := 2
  terminalMaxLine := 4
  pipeBufferLen := 4
  maxPtLen := 6
  postArgvNullSpace := 1
  initialStackFrameSize := 0
  cmdArgs := []
  doIdle := 192
  newPid := id
  text_le_data := by decide
  data_le_brk := by decide
  brk_le_stack := by decide
  stack_le_region0 := by decide
  base_le_text := by decide
  stack_le_pmem := by decide
  addresses_nonneg := by decide
  maxPtLen_eq := rfl
  terminalMaxLine_pos := by decide
  pipeBufferLen_pos := by decide
  newPid_injective := Function.injective_id
  newPid_ne_zero := fun _ hn => hn

/-- A context with the given registers. -/
def context (regs : List Word) : UserContext := ⟨192, 280, 0, fun i => regs.getD i 0⟩

/-- One page of text, one of data. -/
def program : LoadProgram.File :=
  .image ⟨192, 192, 1, 208, 1, 224, 0, 224⟩ (List.replicate 16 0) (List.replicate 16 0)

/-- Every allocation succeeds. -/
def outcomes : Outcomes := ⟨fun _ => true, [], program⟩

/-- The state after boot. -/
def booted : Kernel := KernelStart.kernelStart (context []) [] []

theorem initial_booted : KernelStart.system.initial booted := ⟨context [], [], [], rfl⟩

/-- A clock tick, after which a process continues. -/
def turn : List Label := [.clock (context []) outcomes, .resume outcomes]

/-- A system call with the given arguments. -/
def call (syscall : Syscall) (regs : List Word) : Label := .syscall syscall (context regs) outcomes

/-- The state after some steps from boot. -/
def after (labels : List Label) : Kernel :=
  (KernelStart.system.run (fun _ _ => True) booted labels).getD booted

theorem reachable_after {labels : List Label}
    (h : (KernelStart.system.run (fun _ _ => True) booted labels).isSome = true) :
    KernelStart.system.Reachable (after labels) := by
  obtain ⟨s, hRun⟩ := Option.isSome_iff_exists.mp h
  rw [after, hRun]
  exact (System.Reach.initial initial_booted).run hRun

end Yalnix.Sample
