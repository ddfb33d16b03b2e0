import Mathlib.Data.BitVec
import Mathlib.Order.Interval.Set.Basic
import Mathlib.Logic.Function.Basic

/-! The machine the kernel is compiled against: the constants and the two
register files it takes from `hardware.h`, `yalnix.h` and `ykernel.h`. These
headers are not part of the repository, so the constants are parameters. -/
namespace Yalnix

/-- A register or a pointer of the 32-bit machine. -/
abbrev Word := BitVec 32

/-- A `char` of memory. -/
abbrev Byte := BitVec 8

/-- The address of a process control block. -/
abbrev Proc := Nat

/-- The part of `UserContext` the kernel reads or writes. -/
structure UserContext where
  pc : Word
  sp : Word
  addr : Word
  regs : Nat → Word

/-- `uc->regs[0] = value`. -/
def UserContext.result (uc : UserContext) (value : Word) : UserContext :=
  { uc with regs := Function.update uc.regs 0 value }

@[simp] theorem UserContext.result_reg (uc : UserContext) (value : Word) :
    (uc.result value).regs 0 = value := by simp [UserContext.result]

theorem UserContext.result_reg_of_ne (uc : UserContext) (value : Word) {i : Nat} (hi : i ≠ 0) :
    (uc.result value).regs i = uc.regs i := by
  simp [UserContext.result, Function.update_of_ne hi]

/-- The integers of `for (vpn = first; vpn < last; vpn++)`. -/
def pageRange (first last : Int) : List Int :=
  (List.range (last - first).toNat).map fun i : Nat => first + i

theorem mem_pageRange {first last vpn : Int} :
    vpn ∈ pageRange first last ↔ first ≤ vpn ∧ vpn < last := by
  simp only [pageRange, List.mem_map, List.mem_range]
  constructor
  · rintro ⟨i, hi, rfl⟩
    omega
  · rintro ⟨hFirst, hLast⟩
    exact ⟨(vpn - first).toNat, by omega, by omega⟩

theorem pageRange_cons {first last : Int} (h : first < last) :
    pageRange first last = first :: pageRange (first + 1) last := by
  have hCount : (last - first).toNat = (last - (first + 1)).toNat + 1 := by omega
  rw [pageRange, pageRange, hCount, List.range_succ_eq_map, List.map_cons, List.map_map]
  congr 1
  · simp
  · refine List.map_congr_left fun i _ => ?_
    simp only [Function.comp_apply, Nat.succ_eq_add_one]
    omega

theorem pageRange_snoc {first last : Int} (h : first ≤ last) :
    pageRange first (last + 1) = pageRange first last ++ [last] := by
  have hCount : (last + 1 - first).toNat = (last - first).toNat + 1 := by omega
  rw [pageRange, pageRange, hCount, List.range_succ, List.map_append]
  congr 1
  simp only [List.map_cons, List.map_nil, List.cons.injEq, and_true]
  omega

theorem pageRange_sub (first last offset : Int) :
    (pageRange first last).map (· - offset) = pageRange (first - offset) (last - offset) := by
  have hCount : last - offset - (first - offset) = last - first := by omega
  rw [pageRange, pageRange, hCount, List.map_map]
  refine List.map_congr_left fun i _ => ?_
  simp only [Function.comp_apply]
  omega

theorem nodup_pageRange (first last : Int) : (pageRange first last).Nodup := by
  refine List.Nodup.map (fun i j h => ?_) List.nodup_range
  omega

/-- What the framework headers and the boot loader fix. The facts are those
the headers document: region 1 follows region 0, every address is a
non-negative `int`, the kernel image lies below the kernel stack, and both
are backed by frames of the same number at boot. -/
class Hardware where
  pageShift : Nat
  region0Vpns : Nat
  region1Vpns : Nat
  kStackBaseVpn : Nat
  kStackVpns : Nat
  firstKernelTextPage : Nat
  firstKernelDataPage : Nat
  origKernelBrkPage : Nat
  pmemBaseFrame : Nat
  pmemSize : Nat
  numTerminals : Nat
  terminalMaxLine : Nat
  pipeBufferLen : Nat
  maxPtLen : Nat
  postArgvNullSpace : Nat
  initialStackFrameSize : Nat
  /-- `cmd_args`, the command line of the first user program. -/
  cmdArgs : List (List Byte)
  /-- The address of `do_idle`. -/
  doIdle : Word
  /-- `helper_new_pid`: the pid handed to the n-th control block. -/
  newPid : Nat → Nat
  text_le_data : firstKernelTextPage ≤ firstKernelDataPage
  data_le_brk : firstKernelDataPage ≤ origKernelBrkPage
  brk_le_stack : origKernelBrkPage ≤ kStackBaseVpn
  stack_le_region0 : kStackBaseVpn + kStackVpns ≤ region0Vpns
  base_le_text : pmemBaseFrame ≤ firstKernelTextPage
  stack_le_pmem : kStackBaseVpn + kStackVpns ≤ pmemSize / 2 ^ pageShift
  addresses_nonneg : (region0Vpns + region1Vpns) * 2 ^ pageShift < 2 ^ 31
  maxPtLen_eq : maxPtLen = region1Vpns
  terminalMaxLine_pos : 0 < terminalMaxLine
  pipeBufferLen_pos : 0 < pipeBufferLen
  newPid_injective : Function.Injective newPid
  newPid_ne_zero : ∀ n, n ≠ 0 → newPid n ≠ 0

open Hardware

variable [Hardware]

/-- `PAGESIZE`. -/
def pageSize : Nat := 2 ^ pageShift

/-- `PAGEOFFSET`, the bits of an address below its page number. -/
def pageOffset : Word := BitVec.ofNat 32 (pageSize - 1)

/-- `UP_TO_PAGE`. -/
def upToPage (n : Word) : Word := (n + pageOffset) &&& ~~~pageOffset

/-- `DOWN_TO_PAGE`. -/
def downToPage (n : Word) : Word := n &&& ~~~pageOffset

/-- `n >> PAGESHIFT` on a signed `long`. -/
def pageNumber (n : Word) : Int := (n.sshiftRight pageShift).toInt

/-- `REGION1_BASE_VPN`. -/
def region1BaseVpn : Int := region0Vpns

/-- `REGION1_LIMIT_VPN`. -/
def region1LimitVpn : Int := region1BaseVpn + region1Vpns

/-- `VMEM_1_BASE`. -/
def vmem1Base : Int := region1BaseVpn * pageSize

/-- `VMEM_1_LIMIT`. -/
def vmem1Limit : Int := region1LimitVpn * pageSize

/-- `ERROR`, `SUCCESS` and the status codes a syscall leaves in `regs[0]`. -/
def errorCode : Word := -1

def successCode : Word := 0

end Yalnix
