import Yalnix.Hardware

/-! Object identifiers of `identifiers.h`: two flag bits over a table index. -/
namespace Yalnix.Identifiers

def semFlag : Word := 0x0
def pipeFlag : Word := 0x1
def lockFlag : Word := 0x2
def cvarFlag : Word := 0x3

/-- `FLAG_MASK`. -/
def flagMask : Word := 0xc0000000

def isPipeId (n : Word) : Bool := n >>> 30 == pipeFlag
def isLockId (n : Word) : Bool := n >>> 30 == lockFlag
def isCvarId (n : Word) : Bool := n >>> 30 == cvarFlag
def isSemId (n : Word) : Bool := n >>> 30 == semFlag

/-- `GET_ID`, as a table index. -/
def getId (n : Word) : Nat := (n &&& ~~~flagMask).toNat

/-- `CREATE_ID`. -/
def createId (flag : Word) (id : Nat) : Word :=
  flag <<< 30 ||| (BitVec.ofNat 32 id &&& ~~~flagMask)

theorem getId_eq (n : Word) : getId n = n.toNat % 2 ^ 30 := by
  have hMask : (~~~flagMask).toNat = 2 ^ 30 - 1 := by decide
  rw [getId, BitVec.toNat_and, hMask, Nat.and_two_pow_sub_one_eq_mod]

theorem getId_lt (n : Word) : getId n < 2 ^ 30 := by
  rw [getId_eq]
  exact Nat.mod_lt _ (by decide)

theorem flag_eq (n : Word) : (n >>> 30).toNat = n.toNat / 2 ^ 30 := by
  rw [BitVec.toNat_ushiftRight, Nat.shiftRight_eq_div_pow]

theorem toNat_createId {flag : Word} (hFlag : flag.toNat < 4) (id : Nat) :
    (createId flag id).toNat = flag.toNat * 2 ^ 30 + id % 2 ^ 30 := by
  have hId : (BitVec.ofNat 32 id &&& ~~~flagMask).toNat = id % 2 ^ 30 := by
    have h := getId_eq (BitVec.ofNat 32 id)
    rw [getId, BitVec.toNat_ofNat] at h
    omega
  have hShift : flag.toNat * 2 ^ 30 % 2 ^ 32 = flag.toNat * 2 ^ 30 := Nat.mod_eq_of_lt (by omega)
  rw [createId, BitVec.toNat_or, hId, BitVec.toNat_shiftLeft, Nat.shiftLeft_eq, hShift, ← Nat.shiftLeft_eq,
    ← Nat.shiftLeft_add_eq_or_of_lt (Nat.mod_lt _ (by decide))]

/-- An identifier is its flag and its index. -/
theorem createId_iff {flag n : Word} (hFlag : flag.toNat < 4) {id : Nat} (hId : id < 2 ^ 30) :
    createId flag id = n ↔ n >>> 30 = flag ∧ getId n = id := by
  rw [← BitVec.toNat_inj, ← BitVec.toNat_inj, toNat_createId hFlag, flag_eq, getId_eq,
    Nat.mod_eq_of_lt hId]
  omega

/-- The four kinds of objects. -/
inductive ObjectKind where
  | sem
  | pipe
  | lock
  | cvar
  deriving DecidableEq, Repr

def ObjectKind.flag : ObjectKind → Word
  | .sem => semFlag
  | .pipe => pipeFlag
  | .lock => lockFlag
  | .cvar => cvarFlag

namespace ObjectKind

theorem flag_lt (kind : ObjectKind) : kind.flag.toNat < 4 := by
  cases kind <;> decide

theorem flag_inj {a b : ObjectKind} : a.flag = b.flag ↔ a = b := by
  cases a <;> cases b <;> decide

/-- Identifiers of different objects differ. -/
theorem createId_inj {a b : ObjectKind} {i j : Nat} (hi : i < 2 ^ 30) (hj : j < 2 ^ 30) :
    createId a.flag i = createId b.flag j ↔ a = b ∧ i = j := by
  have hSelf := (createId_iff b.flag_lt hj).mp rfl
  rw [createId_iff a.flag_lt hi, hSelf.1, hSelf.2, flag_inj]
  exact and_congr eq_comm eq_comm

theorem getId_createId (kind : ObjectKind) {i : Nat} (hi : i < 2 ^ 30) :
    getId (createId kind.flag i) = i := ((createId_iff kind.flag_lt hi).mp rfl).2

end ObjectKind

end Yalnix.Identifiers
