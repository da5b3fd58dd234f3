/-
# `CppWorkspace.Lib.Stamps` — numbers cut to 32 bits

Numbers `0, 1, 2, ...` are kept modulo `2^32`.  In a window of `2^32` numbers a stamp
stands for one number (`eq_of_stamp_eq`), but stamps are in the order of the numbers
only as long as no stamp of the window is smaller than the first (`lt_of_stamp_lt`).
-/
import Mathlib.Algebra.Group.Nat.Defs

namespace CppWorkspace.Stamps

variable {S a b : Nat}

theorem stamp_eq_iff : UInt32.ofNat a = UInt32.ofNat b ↔ a % 2 ^ 32 = b % 2 ^ 32 := by
  rw [← UInt32.toNat_inj, UInt32.toNat_ofNat', UInt32.toNat_ofNat']

theorem stamp_lt_iff : UInt32.ofNat a < UInt32.ofNat b ↔ a % 2 ^ 32 < b % 2 ^ 32 := by
  rw [UInt32.lt_iff_toNat_lt, UInt32.toNat_ofNat', UInt32.toNat_ofNat']

theorem stamp_le_iff : UInt32.ofNat a ≤ UInt32.ofNat b ↔ a % 2 ^ 32 ≤ b % 2 ^ 32 := by
  rw [UInt32.le_iff_toNat_le, UInt32.toNat_ofNat', UInt32.toNat_ofNat']

theorem stamp_succ : UInt32.ofNat a + 1 = UInt32.ofNat (a + 1) := (UInt32.ofNat_add a 1).symm

theorem eq_of_stamp_eq (ha : S ≤ a ∧ a < S + 2 ^ 32) (hb : S ≤ b ∧ b < S + 2 ^ 32)
    (h : UInt32.ofNat a = UInt32.ofNat b) : a = b := by
  rw [stamp_eq_iff] at h
  omega

/-- In a window whose first number has the smallest stamp, stamps are in the order of
the numbers. -/
theorem lt_of_stamp_lt (ha : S ≤ a ∧ a < S + 2 ^ 32) (hb : S ≤ b ∧ b < S + 2 ^ 32)
    (hS : UInt32.ofNat S ≤ UInt32.ofNat a) (h : UInt32.ofNat a < UInt32.ofNat b) : a < b := by
  rw [stamp_le_iff] at hS
  rw [stamp_lt_iff] at h
  omega

end CppWorkspace.Stamps
