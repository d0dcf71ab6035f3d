import Raincloud.Klibc.PrintSpec

/-!
# The whole range of `__print_deci`

All numbers fit into `temp_buf`. The least one has no negation among the `int64_t`, so its digits
are taken from a number that is still negative, and come out as other characters.
-/

namespace Raincloud.Printf

open Infra Infra.Mem

variable {v : BitVec 64}

/-- The numeral of `v` is written and nothing else, and what is returned is the address behind. -/
def PrintsNumeral (v : BitVec 64) : Prop := ∀ buf s, ∃ text, IsSignedNumeral v.toInt text ∧
  printDeci buf v.toInt () s =
    .ok (buf + text.length, { s with mem := putList s.mem buf text })

theorem printsNumeral_of_ne (h : v.toInt ≠ -2 ^ 63) : PrintsNumeral v := fun buf s => by
  have hlo : -2 ^ 63 ≤ v.toInt := BitVec.le_toInt v
  have hhi : v.toInt < 2 ^ 63 := BitVec.toInt_lt
  exact ⟨signedDecimal v.toInt, isSignedNumeral_signedDecimal v.toInt,
    printDeci_eq (lt_of_le_of_ne hlo (Ne.symm h)) hhi buf s⟩

/-- What is in `temp_buf` for the least number: nine less than '0', and so on. -/
def leastText : List UInt8 :=
  [0x27, 0x2e, 0x2e, 0x2d, 0x2d, 0x29, 0x2e, 0x30, 0x2d, 0x2a, 0x28, 0x2b, 0x2c, 0x29, 0x29, 0x2b,
    0x28, 0x30, 0x28]

theorem printDeci_least (buf : Nat) (s : PrintState) : printDeci buf (-2 ^ 63) () s =
    .ok (buf + 20, { s with mem := putList s.mem buf (0x2d :: leastText) }) := by
  have hneg : (- -2 ^ 63 : Int).bmod (2 ^ 64) = -2 ^ 63 := by decide
  have hdigits : deciDigits 21 (-2 ^ 63) [] () s = .ok (leastText, s) := rfl
  have hlen : leastText.length < 21 := by decide
  unfold printDeci
  rw [if_pos (by norm_num), hneg, Program.bind_of_ok hdigits, if_pos (by norm_num),
    Program.bind_of_ok (Program.check_of hlen), writeTemp_eq]
  rfl

/-- The second character written is an apostrophe. -/
theorem not_printsNumeral_least (h : v.toInt = -2 ^ 63) : ¬ PrintsNumeral v := fun hprints => by
  obtain ⟨text, ⟨digits, hnumeral, htext⟩, hrun⟩ := hprints 0 ⟨fun _ => 0, []⟩
  rw [h, if_pos (by norm_num)] at htext
  obtain ⟨c, l, rfl⟩ := List.exists_cons_of_ne_nil hnumeral.ne_nil
  rw [h, printDeci_least, htext] at hrun
  -- behind the sign a digit would have to be
  have hmem := congrArg (fun r : PrintState => r.mem (0 + 1)) (Prod.mk.inj (Except.ok.inj hrun)).2
  have hleast : putList (fun _ => 0) 0 (0x2d :: leastText) (0 + 1) = 0x27 :=
    putList_inside (by decide)
  have hdigit : putList (fun _ => 0) 0 (0x2d :: c :: l) (0 + 1) = c :=
    putList_inside (Nat.succ_lt_succ (Nat.succ_pos l.length))
  have hc : 0x27 = c := hleast.symm.trans (hmem.trans hdigit)
  exact absurd (hnumeral.digit c List.mem_cons_self) (hc ▸ by decide)

/--
`__print_deci` stays inside of `temp_buf` for each `int64_t`, and writes the numeral of each but
the least one.
-/
theorem printDeci_numeral_iff (v : BitVec 64) :
    (∀ buf s, ∃ ptr mem, printDeci buf v.toInt () s = .ok (ptr, { s with mem := mem })) ∧
      (PrintsNumeral v ↔ v.toInt ≠ -2 ^ 63) := by
  refine ⟨fun buf s => printDeci_ends (BitVec.le_toInt v) BitVec.toInt_lt buf s, ?_⟩
  exact ⟨fun h hv => not_printsNumeral_least hv h, printsNumeral_of_ne⟩

theorem least_misprinted : ¬ PrintsNumeral (BitVec.intMin 64) := not_printsNumeral_least (by decide)

end Raincloud.Printf
