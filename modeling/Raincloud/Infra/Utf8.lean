import Mathlib.Tactic

/-!
# The bit layout of UTF-8

A first byte has a mark that says how many bytes are behind it, and the high bits of a number. The
bytes behind it have six bits each. With five of them there is room for 31 bits.
-/

namespace Infra

namespace Utf8

/-- The first byte that has `k` bytes behind it and no bits set. -/
def mark : Nat → Nat
  | 0 => 0x00
  | 1 => 0xc0
  | 2 => 0xe0
  | 3 => 0xf0
  | 4 => 0xf8
  | _ => 0xfc

/-- How many bits there are in a first byte. -/
def leadBits : Nat → Nat
  | 0 => 7
  | 1 => 5
  | 2 => 4
  | 3 => 3
  | 4 => 2
  | _ => 1

/-- The low bits of `n`, six in each byte. -/
def tail : Nat → Nat → List UInt8
  | 0, _ => []
  | k + 1, n => UInt8.ofNat (0x80 + n / 64 ^ k % 64) :: tail k n

/-- The number `n` in `k + 1` bytes. -/
def word (k n : Nat) : List UInt8 := UInt8.ofNat (mark k + n / 64 ^ k) :: tail k n

/-- How many bytes are behind a first byte, and its bits. -/
def readLead (b : Nat) : Option (Nat × Nat) :=
  ((List.range 6).find? fun k => mark k ≤ b ∧ b < mark k + 2 ^ leadBits k).map fun k =>
    (k, b - mark k)

/-- Six bits from each byte, behind those of `n`. -/
def readTail : Nat → Nat → List UInt8 → Option (Nat × List UInt8)
  | 0, n, l => some (n, l)
  | _ + 1, _, [] => none
  | k + 1, n, c :: l =>
    if 0x80 ≤ c.toNat ∧ c.toNat < 0xc0 then readTail k (n * 64 + c.toNat % 64) l else none

/-- The number at the front, and what is behind it. -/
def read : List UInt8 → Option (Nat × List UInt8)
  | [] => none
  | b :: l => (readLead b.toNat).bind fun (k, n) => readTail k n l

example : word 2 0x20ac = [0xe2, 0x82, 0xac] ∧ read [0xe2, 0x82, 0xac, 0x41] =
    some (0x20ac, [0x41]) ∧ read [0x82] = none := by decide

variable {k n : Nat} {l : List UInt8}

@[simp] theorem length_tail (k n : Nat) : (tail k n).length = k := by
  induction k with
  | zero => rfl
  | succ k ih => rw [tail, List.length_cons, ih]

@[simp] theorem length_word (k n : Nat) : (word k n).length = k + 1 := by
  rw [word, List.length_cons, length_tail]

theorem readTail_tail (k a n : Nat) (l : List UInt8) :
    readTail k a (tail k n ++ l) = some (a * 64 ^ k + n % 64 ^ k, l) := by
  induction k generalizing a with
  | zero => rw [Nat.pow_zero, Nat.mul_one, Nat.mod_one, Nat.add_zero]; rfl
  | succ k ih =>
    have hlt : n / 64 ^ k % 64 < 64 := Nat.mod_lt _ (by decide)
    have hbyte : (UInt8.ofNat (0x80 + n / 64 ^ k % 64)).toNat = 0x80 + n / 64 ^ k % 64 := by
      rw [UInt8.toNat_ofNat', Nat.mod_eq_of_lt (by omega)]
    -- the bits read so far go up by six places
    have hbits : (0x80 + n / 64 ^ k % 64) % 64 = n / 64 ^ k % 64 := by omega
    have hvalue : (a * 64 + n / 64 ^ k % 64) * 64 ^ k + n % 64 ^ k =
        a * 64 ^ (k + 1) + n % 64 ^ (k + 1) := by
      rw [Nat.pow_succ, Nat.mod_mul]
      ring
    rw [tail, List.cons_append, readTail, hbyte, if_pos (by omega), hbits, ih, hvalue]

/-- The marks are in order, with room for the bits between them. -/
theorem mark_order : ∀ k < 6, ∀ j < k, mark j + 2 ^ leadBits j ≤ mark k := by decide

theorem mark_lt : ∀ k < 6, mark k + 2 ^ leadBits k < 256 := by decide

theorem readLead_mark (hk : k < 6) {q : Nat} (hq : q < 2 ^ leadBits k) :
    readLead (mark k + q) = some (k, q) := by
  have hfind : ((List.range 6).find? fun j =>
      mark j ≤ mark k + q ∧ mark k + q < mark j + 2 ^ leadBits j) = some k := by
    refine List.find?_range_eq_some.mpr ⟨?_, List.mem_range.mpr hk, fun j hj => ?_⟩
    · exact decide_eq_true ⟨Nat.le_add_right _ _, Nat.add_lt_add_left hq _⟩
    · have horder := mark_order k hk j hj
      simp only [Bool.not_eq_true', decide_eq_false_iff_not]
      omega
  unfold readLead
  rw [hfind, Option.map_some, Nat.add_sub_cancel_left]

/-- A number that fits is read back, whatever follows. -/
theorem read_word (hk : k < 6) (hn : n < 2 ^ leadBits k * 64 ^ k) (l : List UInt8) :
    read (word k n ++ l) = some (n, l) := by
  have hq : n / 64 ^ k < 2 ^ leadBits k :=
    Nat.div_lt_of_lt_mul (by rwa [Nat.mul_comm] at hn)
  have hmark := mark_lt k hk
  have hlead : (UInt8.ofNat (mark k + n / 64 ^ k)).toNat = mark k + n / 64 ^ k := by
    rw [UInt8.toNat_ofNat', Nat.mod_eq_of_lt (by omega)]
  rw [word, List.cons_append, read, hlead, readLead_mark hk hq, Option.bind_some]
  dsimp only
  rw [readTail_tail, Nat.mul_comm, Nat.div_add_mod]

end Utf8

end Infra
