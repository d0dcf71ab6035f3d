import Mathlib.Tactic

/-!
# Slots of one size

Slot `i` of the slots of `n` from `base` on is `[base + i * n, base + (i + 1) * n)`. A number is
in one slot at most.
-/

namespace Infra

/-- The number is in slot `i`. -/
def InSlot (base n i x : Nat) : Prop := base + i * n ≤ x ∧ x < base + i * n + n

namespace InSlot

variable {base n i j m x : Nat}

theorem of_lt (hj : j < n) : InSlot base n i (base + i * n + j) :=
  ⟨Nat.le_add_right _ _, Nat.add_lt_add_left hj _⟩

theorem le (h : InSlot base n i x) : base ≤ x := Nat.le_trans (Nat.le_add_right _ _) h.1

/-- The slots before slot `m` end where it starts. -/
theorem lt_of_lt (h : InSlot base n i x) (hi : i < m) : x < base + m * n := by
  have hle : (i + 1) * n ≤ m * n := Nat.mul_le_mul_right n hi
  rw [Nat.succ_mul] at hle
  have hlt := h.2
  omega

theorem unique (h : InSlot base n i x) (h' : InSlot base n j x) : i = j := by
  rcases Nat.lt_trichotomy i j with hij | hij | hij
  · exact absurd (h.lt_of_lt hij) (Nat.not_lt.mpr h'.1)
  · exact hij
  · exact absurd (h'.lt_of_lt hij) (Nat.not_lt.mpr h.1)

end InSlot

end Infra
