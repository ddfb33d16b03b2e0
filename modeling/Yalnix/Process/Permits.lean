import Yalnix.Synchronization
import Mathlib.Data.List.Perm.Basic
import Mathlib.Data.List.Count

/-! The holder array of a lock or semaphore. A slot is `0` when the permit is
free and otherwise holds the pid of its owner. -/
namespace Yalnix.Synchronization

variable {pids : List Nat} {p v : Nat}

theorem find_fst (pids : List Nat) (p : Nat) (replace : Option Nat) :
    (find pids p pids.length replace).1 = decide (p ∈ pids) := by
  induction pids with
  | nil => rfl
  | cons pid pids ih =>
      unfold find
      by_cases he : pid = p
      · simp [he]
      · simp [he, ih, Ne.symm he]

/-- Replacing the first slot that holds `p`, up to the order of the slots. -/
theorem find_perm (hMem : p ∈ pids) (v : Nat) :
    (find pids p pids.length (some v)).2.Perm (v :: pids.erase p) := by
  induction pids with
  | nil => simp at hMem
  | cons pid pids ih =>
      unfold find
      by_cases he : pid = p
      · simp [he]
      · have hRest : p ∈ pids := by
          rcases List.mem_cons.mp hMem with h | h
          · exact absurd h.symm he
          · exact h
        have hErase : (pid :: pids).erase p = pid :: pids.erase p :=
          List.erase_cons_tail (by simpa using he)
        simp only [he, if_false, List.length_cons, hErase]
        exact ((ih hRest).cons pid).trans (.swap _ _ _)

/-- The pids of the holders. -/
def holders (pids : List Nat) : List Nat := pids.filter (· ≠ 0)

/-- The number of permits is constant, `val` counts the free ones, and nobody
holds two. -/
structure Permits (capacity : Nat) (val : Int) (pids : List Nat) : Prop where
  length : pids.length = capacity
  free : val = pids.count 0
  distinct : (holders pids).Nodup

theorem length_holders {pids' : List Nat} (hPerm : pids'.Perm pids) :
    (holders pids').length = (holders pids).length :=
  (hPerm.filter _).length_eq

theorem count_add_holders (pids : List Nat) : pids.count 0 + (holders pids).length = pids.length := by
  induction pids with
  | nil => rfl
  | cons pid pids ih =>
      by_cases he : pid = 0
      · subst he
        simp [holders] at ih ⊢
        omega
      · simp [holders, he] at ih ⊢
        omega

theorem holders_cons (hv : v ≠ 0) (pids : List Nat) : holders (v :: pids) = v :: holders pids := by
  simp [holders, hv]

theorem holders_cons_zero (pids : List Nat) : holders (0 :: pids) = holders pids := by
  simp [holders]

theorem holders_perm (hMem : p ∈ pids) : (holders pids).Perm (holders (p :: pids.erase p)) :=
  (List.perm_cons_erase hMem).filter _

namespace Permits

variable {capacity : Nat} {val : Int} {pids' : List Nat}

theorem perm (h : Permits capacity val pids) (hPerm : pids'.Perm pids) :
    Permits capacity val pids' where
  length := hPerm.length_eq.trans h.length
  free := by rw [hPerm.count_eq, h.free]
  distinct := (hPerm.filter _).nodup_iff.mpr h.distinct

theorem replicate (capacity : Nat) : Permits capacity capacity (List.replicate capacity 0) := by
  refine ⟨by simp, by simp, ?_⟩
  simp [holders]

theorem mem_zero (h : Permits capacity val pids) (hVal : 0 < val) : 0 ∈ pids := by
  rw [h.free] at hVal
  exact List.count_pos_iff.mp (by omega)

/-- A free permit is taken. -/
theorem grant (h : Permits capacity val pids) (hVal : 0 < val) (hv : v ≠ 0) (hFresh : v ∉ pids) :
    Permits capacity (val - 1) (v :: pids.erase 0) ∧
      (holders (v :: pids.erase 0)).length = (holders pids).length + 1 := by
  have hPerm := List.perm_cons_erase (h.mem_zero hVal)
  have hHolders := holders_perm (h.mem_zero hVal)
  rw [holders_cons_zero] at hHolders
  rw [holders_cons hv]
  refine ⟨⟨?_, ?_, ?_⟩, by rw [List.length_cons, hHolders.length_eq]⟩
  · rw [List.length_cons, ← h.length, hPerm.length_eq, List.length_cons]
  · rw [List.count_cons_of_ne hv, h.free, hPerm.count_eq, List.count_cons_self]
    omega
  · rw [holders_cons hv, List.nodup_cons, ← hHolders.nodup_iff]
    refine ⟨fun hMem => hFresh ?_, h.distinct⟩
    exact List.mem_of_mem_erase (List.mem_of_mem_filter hMem)

/-- A permit is given back. -/
theorem giveBack (h : Permits capacity val pids) (hp : p ≠ 0) (hMem : p ∈ pids) :
    Permits capacity (val + 1) (0 :: pids.erase p) ∧
      (holders pids).length = (holders (0 :: pids.erase p)).length + 1 := by
  have hPerm := List.perm_cons_erase hMem
  have hHolders := holders_perm hMem
  rw [holders_cons hp] at hHolders
  rw [holders_cons_zero]
  refine ⟨⟨?_, ?_, ?_⟩, by rw [hHolders.length_eq, List.length_cons]⟩
  · rw [List.length_cons, ← h.length, hPerm.length_eq, List.length_cons]
  · rw [List.count_cons_self, h.free, hPerm.count_eq, List.count_cons_of_ne hp]
    omega
  · rw [holders_cons_zero]
    exact (List.nodup_cons.mp (hHolders.nodup_iff.mp h.distinct)).2

/-- A permit changes hands without becoming free. -/
theorem handOver (h : Permits capacity val pids) (hp : p ≠ 0) (hMem : p ∈ pids) (hv : v ≠ 0)
    (hFresh : v ∉ pids) :
    Permits capacity val (v :: pids.erase p) ∧
      (holders (v :: pids.erase p)).length = (holders pids).length := by
  have hPerm := List.perm_cons_erase hMem
  have hHolders := holders_perm hMem
  rw [holders_cons hp] at hHolders
  rw [holders_cons hv]
  refine ⟨⟨?_, ?_, ?_⟩, by rw [hHolders.length_eq, List.length_cons, List.length_cons]⟩
  · rw [List.length_cons, ← h.length, hPerm.length_eq, List.length_cons]
  · rw [List.count_cons_of_ne hv, h.free, hPerm.count_eq, List.count_cons_of_ne hp]
  · rw [holders_cons hv, List.nodup_cons]
    refine ⟨fun hMem => hFresh ?_, (List.nodup_cons.mp (hHolders.nodup_iff.mp h.distinct)).2⟩
    exact List.mem_of_mem_erase (List.mem_of_mem_filter hMem)

/-- After a permit was taken from `p`, the array does not hold `p`. -/
theorem not_mem_erase (h : Permits capacity val pids) (hp : p ≠ 0) : p ∉ pids.erase p := by
  intro hMem
  have hHolders := holders_perm (List.mem_of_mem_erase hMem)
  rw [holders_cons hp] at hHolders
  have hOnce := (List.nodup_cons.mp (hHolders.nodup_iff.mp h.distinct)).1
  exact hOnce (List.mem_filter.mpr ⟨hMem, by simpa using hp⟩)

end Permits
end Yalnix.Synchronization
