import Mathlib.Tactic

/-!
# 64-bit arithmetic on `Nat`

A machine word is a natural number below `2 ^ 64`. Sums and differences wrap;
`add64_eq` and `sub64_eq` remove the wrap where the bounds are known, and from there on
`omega` sees plain arithmetic.
-/

namespace Infra

/-- Sum of two words. -/
def add64 (a b : Nat) : Nat := (a + b) % 2 ^ 64

/-- Difference of two words. -/
def sub64 (a b : Nat) : Nat := (a + (2 ^ 64 - b % 2 ^ 64)) % 2 ^ 64

/-- Left shift of a word. -/
def shl64 (a k : Nat) : Nat := a * 2 ^ k % 2 ^ 64

theorem add64_eq {a b : Nat} (h : a + b < 2 ^ 64) : add64 a b = a + b :=
  Nat.mod_eq_of_lt h

theorem sub64_eq {a b : Nat} (hb : b ≤ a) (ha : a < 2 ^ 64) : sub64 a b = a - b := by
  unfold sub64
  omega

theorem shl64_eq {a k : Nat} (h : a * 2 ^ k < 2 ^ 64) : shl64 a k = a * 2 ^ k :=
  Nat.mod_eq_of_lt h

theorem add64_lt (a b : Nat) : add64 a b < 2 ^ 64 := Nat.mod_lt _ (by decide)

theorem sub64_lt (a b : Nat) : sub64 a b < 2 ^ 64 := Nat.mod_lt _ (by decide)

/-- Taking the low bits with a mask of ones is a remainder. -/
theorem and_mask (a k : Nat) : a &&& (2 ^ k - 1) = a % 2 ^ k :=
  Nat.and_two_pow_sub_one_eq_mod a k

/-- Taking `w` bits from bit `lo` on, where they stand. -/
theorem and_field (a lo w : Nat) :
    a &&& ((2 ^ w - 1) <<< lo) = a / 2 ^ lo % 2 ^ w * 2 ^ lo := by
  have hsplit : a &&& ((2 ^ w - 1) <<< lo) = (a / 2 ^ lo &&& 2 ^ w - 1) <<< lo := by
    apply Nat.eq_of_testBit_eq
    intro i
    rw [Nat.testBit_and, Nat.testBit_shiftLeft, Nat.testBit_shiftLeft, Nat.testBit_and,
      Nat.testBit_div_two_pow]
    by_cases hi : lo ≤ i
    · rw [decide_eq_true hi, Nat.sub_add_cancel hi, Bool.true_and, Bool.true_and]
    · rw [decide_eq_false hi, Bool.false_and, Bool.and_false, Bool.false_and]
  rw [hsplit, and_mask, Nat.shiftLeft_eq]

theorem and_bit (a i : Nat) : a &&& 2 ^ i = a / 2 ^ i % 2 * 2 ^ i := by
  have hfield := and_field a i 1
  rwa [show 2 ^ 1 - 1 = 1 from rfl, Nat.one_shiftLeft, pow_one] at hfield

/-- A mask of ones above bit `lo` keeps a multiple of `2 ^ lo` that fits below it. -/
theorem and_shifted_mask {a lo w : Nat} (hlo : a % 2 ^ lo = 0) (hhi : a < 2 ^ (lo + w)) :
    a &&& ((2 ^ w - 1) <<< lo) = a := by
  obtain ⟨b, rfl⟩ : ∃ b, a = b <<< lo := by
    refine ⟨a / 2 ^ lo, ?_⟩
    rw [Nat.shiftLeft_eq]
    exact (Nat.div_mul_cancel (Nat.dvd_of_mod_eq_zero hlo)).symm
  have hb : b < 2 ^ w := by
    rw [Nat.shiftLeft_eq, pow_add, Nat.mul_comm (2 ^ lo)] at hhi
    exact Nat.lt_of_mul_lt_mul_right hhi
  rw [← Nat.shiftLeft_and_distrib, and_mask, Nat.mod_eq_of_lt hb]

end Infra
