import Mathlib.Tactic

/-!
# Decimal numbers as bytes

The decimal text of a number is that of `Nat.toDigits`, in ASCII. The value of a string of
digits is what reading it from the left gives.
-/

namespace Infra

/-- The ASCII digit of a number below 10. -/
def digitByte (d : Nat) : UInt8 := UInt8.ofNat (d.digitChar).toNat

/-- No leading zero, and a zero is a digit. -/
def decimal (n : Nat) : List UInt8 := (Nat.toDigits 10 n).map fun c => UInt8.ofNat c.toNat

/-- A minus sign in front of a negative number. -/
def signedDecimal (n : Int) : List UInt8 :=
  if n < 0 then 0x2d :: decimal n.natAbs else decimal n.natAbs

def isDigit (c : UInt8) : Prop := 0x30 ≤ c ∧ c ≤ 0x39

instance (c : UInt8) : Decidable (isDigit c) := inferInstanceAs (Decidable (_ ∧ _))

/-- The value of a string of digits behind a number that was read. -/
def decimalFrom (n : Nat) (l : List UInt8) : Nat :=
  l.foldl (fun n c => n * 10 + (c.toNat - 0x30)) n

def decimalValue (l : List UInt8) : Nat := decimalFrom 0 l

/-- Digits with the value `n`. The first one is no zero, unless the number is. -/
structure IsNumeral (n : Nat) (l : List UInt8) : Prop where
  ne_nil : l ≠ []
  digit : ∀ c ∈ l, isDigit c
  value : decimalValue l = n
  leading : l.head? = some 0x30 → l = [0x30]

/-- A minus sign just if the number is negative, and the numeral of its absolute value. -/
def IsSignedNumeral (n : Int) (l : List UInt8) : Prop :=
  ∃ digits, IsNumeral n.natAbs digits ∧ l = if n < 0 then 0x2d :: digits else digits

example : signedDecimal (-120) = [0x2d, 0x31, 0x32, 0x30] ∧ signedDecimal 0 = [0x30] := by decide

variable {n d : Nat}

theorem decimal_of_lt (h : n < 10) : decimal n = [digitByte n] := by
  unfold decimal
  rw [Nat.toDigits_of_lt_base h]
  rfl

theorem decimal_of_le (h : 10 ≤ n) : decimal n = decimal (n / 10) ++ [digitByte (n % 10)] := by
  unfold decimal
  rw [Nat.toDigits_of_base_le (by decide) h, List.map_append]
  rfl

theorem toNat_digitByte (h : d < 10) : (digitByte d).toNat = 0x30 + d := by
  unfold digitByte
  rw [Nat.toNat_digitChar_of_lt_ten h, UInt8.toNat_ofNat', Nat.mod_eq_of_lt (by omega),
    Nat.add_comm]

theorem isDigit_digitByte (h : d < 10) : isDigit (digitByte d) := by
  have hn := toNat_digitByte h
  refine ⟨UInt8.le_iff_toNat_le.mpr ?_, UInt8.le_iff_toNat_le.mpr ?_⟩
  · rw [hn]
    exact Nat.le_add_right _ _
  · rw [hn]
    change 0x30 + d ≤ 0x39
    omega

/-- A number below a power of ten has that many digits at most. -/
theorem length_decimal_le {k : Nat} (hk : 0 < k) (h : n < 10 ^ k) : (decimal n).length ≤ k := by
  induction k generalizing n with
  | zero => cases hk
  | succ k ih =>
    by_cases hn : n < 10
    · rw [decimal_of_lt hn]
      exact Nat.succ_le_succ (Nat.zero_le k)
    · have hk0 : 0 < k := by
        refine Nat.pos_of_ne_zero ?_
        rintro rfl
        exact hn h
      have hdiv : n / 10 < 10 ^ k := Nat.div_lt_of_lt_mul (by rwa [← Nat.pow_succ'])
      rw [decimal_of_le (Nat.le_of_not_lt hn), List.length_append, List.length_singleton]
      exact Nat.succ_le_succ (ih hk0 hdiv)

theorem decimal_isDigit : ∀ c ∈ decimal n, isDigit c := by
  induction n using Nat.strong_induction_on with
  | _ n ih =>
    intro c hc
    by_cases hn : n < 10
    · rw [decimal_of_lt hn, List.mem_singleton] at hc
      exact hc ▸ isDigit_digitByte hn
    · rw [decimal_of_le (Nat.le_of_not_lt hn), List.mem_append, List.mem_singleton] at hc
      rcases hc with hc | rfl
      · exact ih (n / 10) (by omega) c hc
      · exact isDigit_digitByte (Nat.mod_lt n (by decide))

theorem decimal_ne_nil : decimal n ≠ [] := by
  unfold decimal
  rw [Ne, List.map_eq_nil_iff]
  exact Nat.toDigits_ne_nil

theorem decimalFrom_cons (n : Nat) (c : UInt8) (l : List UInt8) :
    decimalFrom n (c :: l) = decimalFrom (n * 10 + (c.toNat - 0x30)) l := by
  unfold decimalFrom
  rw [List.foldl_cons]

theorem decimalFrom_append (n : Nat) (l k : List UInt8) :
    decimalFrom n (l ++ k) = decimalFrom (decimalFrom n l) k := by
  unfold decimalFrom
  rw [List.foldl_append]

/-- The text of a number is read back. -/
theorem decimalValue_decimal (n : Nat) : decimalValue (decimal n) = n := by
  induction n using Nat.strong_induction_on with
  | _ n ih =>
    unfold decimalValue at ih ⊢
    by_cases hn : n < 10
    · rw [decimal_of_lt hn, decimalFrom_cons, toNat_digitByte hn]
      change 0 * 10 + (0x30 + n - 0x30) = n
      omega
    · rw [decimal_of_le (Nat.le_of_not_lt hn), decimalFrom_append, ih (n / 10) (by omega),
        decimalFrom_cons, toNat_digitByte (Nat.mod_lt n (by decide))]
      change n / 10 * 10 + (0x30 + n % 10 - 0x30) = n
      omega

theorem decimal_leading (n : Nat) : (decimal n).head? = some 0x30 → n = 0 := by
  induction n using Nat.strong_induction_on with
  | _ n ih =>
    intro h
    by_cases hn : n < 10
    · rw [decimal_of_lt hn, List.head?_cons] at h
      have hbyte := toNat_digitByte hn
      rw [Option.some.inj h] at hbyte
      change 0x30 = 0x30 + n at hbyte
      omega
    · -- The first digit is that of the number without its last one.
      rw [decimal_of_le (Nat.le_of_not_lt hn),
        List.head?_append_of_ne_nil _ decimal_ne_nil] at h
      have hzero := ih (n / 10) (by omega) h
      omega

theorem isNumeral_decimal (n : Nat) : IsNumeral n (decimal n) := by
  refine ⟨decimal_ne_nil, decimal_isDigit, decimalValue_decimal n, fun h => ?_⟩
  rw [decimal_leading n h]
  rfl

theorem isSignedNumeral_signedDecimal (n : Int) : IsSignedNumeral n (signedDecimal n) :=
  ⟨decimal n.natAbs, isNumeral_decimal n.natAbs, rfl⟩

end Infra
