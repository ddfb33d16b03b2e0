import Yalnix.Memory.State

/-! Page arithmetic on 32-bit addresses: what the shift and mask macros compute
on the addresses of the two regions. -/
namespace Yalnix

open Hardware

variable [Hardware]

theorem pageSize_pos : 0 < pageSize := Nat.two_pow_pos pageShift

/-- A machine that has pages at all has fewer than 31 bits of offset. -/
theorem pageShift_lt (hPages : 0 < region0Vpns + region1Vpns) : pageShift < 31 := by
  have hLe : 2 ^ pageShift ≤ (region0Vpns + region1Vpns) * 2 ^ pageShift :=
    Nat.le_mul_of_pos_left _ hPages
  exact (Nat.pow_lt_pow_iff_right (by decide)).mp (hLe.trans_lt addresses_nonneg)

theorem getLsbD_pageOffset {i : Nat} (hi : i < 32) : pageOffset.getLsbD i = decide (i < pageShift) := by
  simp only [pageOffset, pageSize, BitVec.getLsbD_ofNat, hi, decide_true, Bool.true_and,
    Nat.testBit_two_pow_sub_one]

/-- The mask only clears bits that the shift drops. -/
theorem pageNumber_downToPage (hShift : pageShift < 31) (w : Word) :
    pageNumber (downToPage w) = w.toInt / pageSize := by
  have hSame : (downToPage w).sshiftRight pageShift = w.sshiftRight pageShift := by
    apply BitVec.eq_of_getLsbD_eq
    intro i hi
    simp only [BitVec.getLsbD_sshiftRight, downToPage, BitVec.getLsbD_and, BitVec.getLsbD_not,
      BitVec.msb_eq_getLsbD_last]
    by_cases hIn : pageShift + i < 32
    · rw [if_pos hIn, if_pos hIn, getLsbD_pageOffset hIn]
      simp [hIn]
    · have hTop : ¬32 - 1 < pageShift := by omega
      rw [if_neg hIn, if_neg hIn, getLsbD_pageOffset (show 32 - 1 < 32 by decide), decide_eq_false hTop]
      simp
  rw [pageNumber, hSame, BitVec.toInt_sshiftRight, Int.shiftRight_eq_div_pow]
  simp [pageSize]

theorem pageNumber_upToPage (hShift : pageShift < 31) (w : Word) :
    pageNumber (upToPage w) = (w + pageOffset).toInt / pageSize :=
  pageNumber_downToPage hShift (w + pageOffset)

/-- The first address of a page is rounded to that page. -/
theorem pageNumber_boundary {vpn : Int} (hPages : 0 < region0Vpns + region1Vpns) (hNonneg : 0 ≤ vpn)
    (hVpn : vpn ≤ region0Vpns + region1Vpns) :
    pageNumber (upToPage (BitVec.ofInt 32 (vpn * pageSize))) = vpn := by
  have hShift := pageShift_lt hPages
  obtain ⟨n, rfl⟩ := Int.eq_ofNat_of_zero_le hNonneg
  have hn : n * 2 ^ pageShift < 2 ^ 31 := by
    have hLe : n * 2 ^ pageShift ≤ (region0Vpns + region1Vpns) * 2 ^ pageShift :=
      Nat.mul_le_mul_right _ (by omega)
    exact hLe.trans_lt addresses_nonneg
  -- both bounds are multiples of the page size, so a whole page fits in between
  have hRoom : n * 2 ^ pageShift + 2 ^ pageShift ≤ 2 ^ 31 := by
    have hTop : 2 ^ 31 = 2 ^ (31 - pageShift) * 2 ^ pageShift := by
      rw [← pow_add]
      congr 1
      omega
    rw [hTop] at hn ⊢
    rw [← Nat.succ_mul]
    exact Nat.mul_le_mul_right _ (Nat.lt_of_mul_lt_mul_right hn)
  have hPos : 0 < 2 ^ pageShift := Nat.two_pow_pos pageShift
  have hSum : (BitVec.ofInt 32 ((n : Int) * pageSize) + pageOffset).toInt =
      ((n * 2 ^ pageShift + (2 ^ pageShift - 1) : Nat) : Int) := by
    have hWord : BitVec.ofInt 32 ((n : Int) * pageSize) + pageOffset =
        BitVec.ofNat 32 (n * 2 ^ pageShift + (2 ^ pageShift - 1)) := by
      rw [BitVec.ofNat_add, ← BitVec.ofInt_natCast 32 (n * 2 ^ pageShift)]
      push_cast
      rfl
    rw [hWord, BitVec.toInt_eq_toNat_of_lt]
    · rw [BitVec.toNat_ofNat, Nat.mod_eq_of_lt (by omega)]
    · rw [BitVec.toNat_ofNat, Nat.mod_eq_of_lt (by omega)]
      omega
  rw [pageNumber_upToPage hShift, hSum, pageSize, ← Int.natCast_ediv]
  congr 1
  rw [Nat.add_comm, Nat.add_mul_div_right _ _ hPos, Nat.div_eq_of_lt (by omega), Nat.zero_add]

end Yalnix
