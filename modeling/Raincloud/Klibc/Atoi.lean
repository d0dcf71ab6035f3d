import Raincloud.Klibc.PrintFormat

/-!
# `atoi`

A string is the list of its bytes up to the terminator. The number is put together in an `int`,
which wraps.
-/

set_option linter.style.nameCheck false

namespace Raincloud

open Infra Infra.Mem Printf

/-! ## The function -/

/-- The `while` loop. -/
def digitLoop (num : BitVec 32) : List UInt8 → BitVec 32
  | [] => num
  | c :: str =>
    if 0x30 ≤ c ∧ c ≤ 0x39 then digitLoop (num * 10 + BitVec.ofNat 32 (c.toNat - 0x30)) str
    else num

/-- Step the space. -/
def skipBlanks (str : List UInt8) : List UInt8 := str.dropWhile fun c => c = 0x20 ∨ c = 0x09

/-- Whether `sign` is set, and what is left behind the signs. -/
def takeSign (str : List UInt8) : Bool × List UInt8 :=
  let minus := str.head? = some 0x2d
  let str := if minus then str.tail else str
  (minus, if str.head? = some 0x2b then str.tail else str)

/-- What is in `num` at the end, where `none` is `NULL`. -/
def atoiNum : Option (List UInt8) → BitVec 32
  | none => 0
  | some str =>
    let (sign, str) := takeSign (skipBlanks str)
    let num := digitLoop 0 str
    if sign then 0 - num else num

/-- `return 0` -/
def atoi (str : Option (List UInt8)) : Int :=
  let _num := atoiNum str
  0

/-! ## Texts of numbers -/

inductive Sign where
  | none
  | plus
  | minus
  deriving DecidableEq

def Sign.text : Sign → List UInt8
  | .none => []
  | .plus => [0x2b]
  | .minus => [0x2d]

def Sign.apply : Sign → Int → Int
  | .minus, n => -n
  | _, n => n

/-- Blanks and tabs, a sign or none, digits, and what is no digit. -/
structure NumberText where
  blanks : List UInt8
  sign : Sign
  digits : List UInt8
  rest : List UInt8
  blank : ∀ c ∈ blanks, c = 0x20 ∨ c = 0x09
  digit : ∀ c ∈ digits, isDigit c
  digits_ne : digits ≠ []
  noDigit : ∀ c ∈ rest.head?, ¬ isDigit c
  noNul : 0 ∉ rest
  fits : -2 ^ 31 ≤ sign.apply (decimalValue digits) ∧ sign.apply (decimalValue digits) < 2 ^ 31

namespace NumberText

def text (t : NumberText) : List UInt8 := t.blanks ++ (t.sign.text ++ (t.digits ++ t.rest))

def value (t : NumberText) : Int := t.sign.apply (decimalValue t.digits)

end NumberText

/-! ## What `atoi` computes -/

variable {l rest : List UInt8} {c : UInt8}

/-- The loop goes over the digits and stops behind them. -/
theorem digitLoop_digits (hl : ∀ c ∈ l, isDigit c) (hrest : ∀ c ∈ rest.head?, ¬ isDigit c)
    (n : Nat) : digitLoop (BitVec.ofNat 32 n) (l ++ rest) =
      BitVec.ofNat 32 (decimalFrom n l) := by
  induction l generalizing n with
  | nil =>
    cases rest with
    | nil => rfl
    | cons c rest => exact if_neg (hrest c rfl)
  | cons c l ih =>
    have hc : 0x30 ≤ c ∧ c ≤ 0x39 := hl c List.mem_cons_self
    have hnum : BitVec.ofNat 32 n * 10 + BitVec.ofNat 32 (c.toNat - 0x30) =
        BitVec.ofNat 32 (n * 10 + (c.toNat - 0x30)) := by
      rw [BitVec.ofNat_add, BitVec.ofNat_mul]
      rfl
    rw [List.cons_append, digitLoop, if_pos hc, hnum, decimalFrom_cons]
    exact ih (fun x hx => hl x (List.mem_cons_of_mem c hx)) _

/-- A digit is no blank and no sign. -/
theorem digit_ne (h : isDigit c) : ¬ (c = 0x20 ∨ c = 0x09) ∧ c ≠ 0x2d ∧ c ≠ 0x2b := by
  refine ⟨?_, ?_, ?_⟩
  · rintro (rfl | rfl) <;> exact absurd h (by decide)
  · rintro rfl
    exact absurd h (by decide)
  · rintro rfl
    exact absurd h (by decide)

theorem skipBlanks_append (hl : ∀ c ∈ l, c = 0x20 ∨ c = 0x09)
    (hrest : ∀ c ∈ rest.head?, ¬ (c = 0x20 ∨ c = 0x09)) : skipBlanks (l ++ rest) = rest := by
  unfold skipBlanks
  rw [List.dropWhile_append_of_pos fun x hx => decide_eq_true (hl x hx)]
  cases rest with
  | nil => rfl
  | cons c rest => exact List.dropWhile_cons_of_neg (by simpa using hrest c rfl)

theorem takeSign_text (sign : Sign) (hminus : c ≠ 0x2d) (hplus : c ≠ 0x2b) :
    takeSign (sign.text ++ c :: l) = (decide (sign = .minus), c :: l) := by
  cases sign with
  | none => simp [takeSign, Sign.text, hminus, hplus]
  | plus => simp [takeSign, Sign.text]
  | minus => simp [takeSign, Sign.text, hplus]

/-- A number that fits an `int` is what the bits say, down to the least `int`. -/
theorem toInt_signed {n : Nat} (sign : Sign) (hlo : -2 ^ 31 ≤ sign.apply n)
    (hhi : sign.apply n < 2 ^ 31) :
    (if decide (sign = .minus) then 0 - BitVec.ofNat 32 n else BitVec.ofNat 32 n).toInt =
      sign.apply n := by
  have hbits : (if decide (sign = .minus) then 0 - BitVec.ofNat 32 n else BitVec.ofNat 32 n) =
      BitVec.ofInt 32 (sign.apply n) := by
    cases sign with
    | none => rfl
    | plus => rfl
    | minus =>
      change -BitVec.ofNat 32 n = BitVec.ofInt 32 (-(n : Int))
      rw [BitVec.ofInt_neg, BitVec.ofInt_natCast]
  rw [hbits, BitVec.toInt_ofInt]
  exact Int.bmod_eq_of_le (by omega) (by omega)

/-- The number is there when `atoi` returns. -/
theorem atoiNum_text (t : NumberText) : (atoiNum (some t.text)).toInt = t.value := by
  obtain ⟨blanks, sign, digits, rest, hblank, hdigit, hne, hrest, -, hlo, hhi⟩ := t
  obtain ⟨c, l, rfl⟩ := List.exists_cons_of_ne_nil hne
  obtain ⟨hc, hminus, hplus⟩ := digit_ne (hdigit c List.mem_cons_self)
  have hloop : digitLoop 0 (c :: l ++ rest) = BitVec.ofNat 32 (decimalValue (c :: l)) :=
    digitLoop_digits hdigit hrest 0
  have hskip : skipBlanks (blanks ++ (sign.text ++ (c :: l ++ rest))) =
      sign.text ++ (c :: l ++ rest) := by
    refine skipBlanks_append hblank fun x hx => ?_
    cases sign with
    | none => exact Option.some.inj hx ▸ hc
    | plus => exact Option.some.inj hx ▸ by decide
    | minus => exact Option.some.inj hx ▸ by decide
  change (atoiNum (some (blanks ++ (sign.text ++ (c :: l ++ rest))))).toInt =
    sign.apply (decimalValue (c :: l))
  unfold atoiNum
  dsimp only
  rw [hskip, List.cons_append, takeSign_text sign hminus hplus]
  dsimp only
  rw [← List.cons_append, hloop]
  exact toInt_signed sign hlo hhi

/-! ## Printed numbers -/

/-- "%d" -/
def decimalFormat : List Directive := [.short (chr 'd') (by decide)]

theorem signedDecimal_noNul (n : Int) : 0 ∉ signedDecimal n := fun h => by
  have hdigits : 0 ∉ decimal n.natAbs := fun hmem =>
    absurd (decimal_isDigit 0 hmem) (by decide)
  unfold signedDecimal at h
  split at h
  · exact hdigits ((List.mem_cons.mp h).resolve_left (by decide))
  · exact hdigits h

/-- What `__print_format` writes for "%d". -/
theorem printFormat_decimal (n : BitVec 32) (buf : Nat) (mem : Mem) : ∃ ret s,
    printFormat buf (formatText decimalFormat ++ [0]) () ⟨mem, [.int n]⟩ = .ok (ret, s) ∧
      TextAt s.mem buf (signedDecimal n.toInt) := by
  have hexpand : expandAll decimalFormat [.int n] = some (signedDecimal n.toInt ++ [], []) := rfl
  have hrun := printFormat_run (by decide) hexpand ⟨trivial, fun _ _ _ => trivial⟩
    ⟨trivial, fun _ _ _ => trivial⟩ buf mem
  rw [List.append_nil] at hrun
  exact ⟨_, _, hrun, textAt_putList mem buf (signedDecimal_noNul n.toInt)⟩

/-- The text of an `int`, as `atoi` takes it apart. -/
def printedText (n : BitVec 32) : NumberText where
  blanks := []
  sign := if n.toInt < 0 then .minus else .none
  digits := decimal n.toInt.natAbs
  rest := []
  blank := fun _ h => absurd h List.not_mem_nil
  digit := decimal_isDigit
  digits_ne := decimal_ne_nil
  noDigit := fun _ h => by cases h
  noNul := List.not_mem_nil
  fits := by
    have hlo := BitVec.le_toInt n
    have hhi := BitVec.toInt_lt (x := n)
    rw [decimalValue_decimal]
    split
    · change -2 ^ 31 ≤ -(n.toInt.natAbs : Int) ∧ -(n.toInt.natAbs : Int) < 2 ^ 31
      omega
    · change -2 ^ 31 ≤ (n.toInt.natAbs : Int) ∧ (n.toInt.natAbs : Int) < 2 ^ 31
      omega

theorem printedText_text (n : BitVec 32) : (printedText n).text = signedDecimal n.toInt := by
  unfold NumberText.text printedText signedDecimal
  split <;> simp [Sign.text]

theorem printedText_value (n : BitVec 32) : (printedText n).value = n.toInt := by
  unfold NumberText.value printedText
  rw [decimalValue_decimal]
  split
  · change -(n.toInt.natAbs : Int) = n.toInt
    omega
  · change (n.toInt.natAbs : Int) = n.toInt
    omega

/-- The number is not what `atoi` returns. -/
theorem atoi_text_iff (t : NumberText) : atoi (some t.text) = t.value ↔ t.value = 0 :=
  eq_comm

/--
`atoi` reads back no printed `int` and no text of a number but those of 0, although the number is
what it has put together.
-/
theorem atoi_reads_iff (n : BitVec 32) (buf : Nat) (mem : Mem) (t : NumberText) :
    (∃ ret s text,
      printFormat buf (formatText decimalFormat ++ [0]) () ⟨mem, [.int n]⟩ = .ok (ret, s) ∧
        TextAt s.mem buf text ∧ (atoiNum (some text)).toInt = n.toInt ∧
          (atoi (some text) = n.toInt ↔ n.toInt = 0)) ∧
    (atoiNum (some t.text)).toInt = t.value ∧ (atoi (some t.text) = t.value ↔ t.value = 0) := by
  refine ⟨?_, atoiNum_text t, atoi_text_iff t⟩
  obtain ⟨ret, s, hrun, htext⟩ := printFormat_decimal n buf mem
  have hnum := atoiNum_text (printedText n)
  have hret := atoi_text_iff (printedText n)
  rw [printedText_text, printedText_value] at hnum hret
  exact ⟨ret, s, signedDecimal n.toInt, hrun, htext, hnum, hret⟩

/-- 1 is printed as "1", and read back as 0. -/
theorem one_read_back : (∃ ret s,
    printFormat 0 (formatText decimalFormat ++ [0]) () ⟨fun _ => 0, [.int 1]⟩ = .ok (ret, s) ∧
      TextAt s.mem 0 [0x31]) ∧ atoi (some [0x31]) ≠ 1 :=
  ⟨printFormat_decimal 1 0 fun _ => 0, by decide⟩

end Raincloud
