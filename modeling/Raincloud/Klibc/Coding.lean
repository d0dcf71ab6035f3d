import Raincloud.Infra.TextBuffer

/-!
# `coding.c`

A string of 16-bit units is the list of its units with the terminator at the end. `sum_size` is a
number: an output of `2 ^ 64` bytes does not fit into the address space.
-/

set_option linter.style.nameCheck false

namespace Raincloud.Coding

open Infra Infra.Mem

def byte (n : Nat) : UInt8 := UInt8.ofNat n

/-- The size is `none` where it is not set. -/
def unicodeIntoUtf8 (unicode utf8 : Nat) (m : Mem) : Option Nat × Mem :=
  let r : Option Nat × Mem := (none, m)
  let r := if unicode ≤ 0x7f then
      (some 1, r.2.putList utf8 [byte (unicode &&& 0x7f)])
    else r
  let r := if 0x80 ≤ unicode ∧ unicode ≤ 0x7ff then
      (some 2, r.2.putList utf8 [byte (unicode >>> 6 &&& 0x1f ||| 0xc0),
        byte (unicode &&& 0x3f ||| 0x80)])
    else r
  let r := if 0x800 ≤ unicode ∧ unicode ≤ 0xffff then
      (some 3, r.2.putList utf8 [byte (unicode >>> 12 &&& 0x0f ||| 0xe0),
        byte (unicode >>> 6 &&& 0x3f ||| 0x80), byte (unicode &&& 0x3f ||| 0x80)])
    else r
  let r := if 0x10000 ≤ unicode ∧ unicode ≤ 0x10ffff then
      (some 4, r.2.putList utf8 [byte (unicode >>> 18 &&& 0x07 ||| 0xf0),
        byte (unicode >>> 12 &&& 0x3f ||| 0x80), byte (unicode >>> 6 &&& 0x3f ||| 0x80),
        byte (unicode &&& 0x3f ||| 0x80)])
    else r
  let r := if 0x200000 ≤ unicode ∧ unicode ≤ 0x3ffffff then
      (some 5, r.2.putList utf8 [byte (unicode >>> 24 &&& 0x03 ||| 0xf8),
        byte (unicode >>> 18 &&& 0x3f ||| 0x80), byte (unicode >>> 12 &&& 0x3f ||| 0x80),
        byte (unicode >>> 6 &&& 0x3f ||| 0x80), byte (unicode &&& 0x3f ||| 0x80)])
    else r
  if 0x4000000 ≤ unicode ∧ unicode ≤ 0x7fffffff then
    (some 6, r.2.putList utf8 [byte (unicode >>> 30 &&& 0x01 ||| 0xfc),
      byte (unicode >>> 24 &&& 0x3f ||| 0x80), byte (unicode >>> 18 &&& 0x3f ||| 0x80),
      byte (unicode >>> 12 &&& 0x3f ||| 0x80), byte (unicode >>> 6 &&& 0x3f ||| 0x80),
      byte (unicode &&& 0x3f ||| 0x80)])
  else r

/-- The loop, where `none` is a read behind the terminator or a size that is not set. -/
def sumSizes (utf8 : Nat) : List UInt16 → Nat → Mem → Option (Nat × Mem)
  | [], _, _ => none
  | u :: unicode, sum_size, m =>
    if u = 0x0000 then some (sum_size, m)
    else
      match unicodeIntoUtf8 u.toNat (utf8 + sum_size) m with
      | (none, _) => none
      | (some n, m) => sumSizes utf8 unicode (sum_size + n) m

/-- The sum is returned as an `int`. -/
def strUnicodeToUtf8 (unicode : List UInt16) (utf8 : Nat) (m : Mem) : Option (Int × Mem) :=
  match sumSizes utf8 unicode 0 m with
  | none => none
  | some (sum_size, m) =>
    some ((sum_size : Int).bmod (2 ^ 32), Function.update m (utf8 + sum_size) 0)

end Raincloud.Coding
