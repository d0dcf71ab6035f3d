import Raincloud.Infra.Utf8
import Raincloud.Infra.Word
import Raincloud.Klibc.Coding

/-!
# Code points in `unicode_into_utf8`

Six branches, for one byte to six. Between the fourth and the fifth there are numbers that none of
them takes: for these no byte is written, and the size that is returned has not been set.
-/

namespace Raincloud.Coding

open Infra Infra.Mem

variable {u k x : Nat}

/-- The numbers from the first to the second one are encoded in `k + 1` bytes. -/
def branches : List (Nat × Nat) :=
  [(0, 0x7f), (0x80, 0x7ff), (0x800, 0xffff), (0x10000, 0x10ffff), (0x200000, 0x3ffffff),
    (0x4000000, 0x7fffffff)]

/-- The branch `k` takes `u`. -/
def Takes (k u : Nat) : Prop := ∃ r, branches[k]? = some r ∧ r.1 ≤ u ∧ u ≤ r.2

/-- The bytes of `u` are stored, one to six, and give `u` back; their number is returned. -/
def EncodesPoint (u : Nat) : Prop := ∀ utf8 m, ∃ text : List UInt8,
  unicodeIntoUtf8 u utf8 m = (some text.length, putList m utf8 text) ∧
    1 ≤ text.length ∧ text.length ≤ 6 ∧ Utf8.read text = some (u, [])

/-! ## Bytes -/

/-- Bits under a mark whose low bits are 0. -/
theorem masked_or (x b c : Nat) : x &&& (2 ^ b - 1) ||| 2 ^ b * c = 2 ^ b * c + x % 2 ^ b := by
  rw [and_mask, Nat.or_comm, Nat.two_pow_add_eq_or_of_lt (Nat.mod_lt x (Nat.two_pow_pos b))]

theorem shift_six (u j : Nat) : u >>> (6 * j) = u / 64 ^ j := by
  rw [Nat.shiftRight_eq_div_pow, Nat.pow_mul]

/-- A byte behind the first one. -/
theorem byte_tail (u j : Nat) :
    byte (u >>> (6 * j) &&& 0x3f ||| 0x80) = UInt8.ofNat (0x80 + u / 64 ^ j % 64) := by
  have hbits : u / 64 ^ j &&& 0x3f ||| 0x80 = 0x80 + u / 64 ^ j % 64 := masked_or _ 6 2
  rw [shift_six, hbits]
  rfl

/-- A first byte, if the number is not too large. -/
theorem byte_lead {b c : Nat} (j : Nat) (h : u < 2 ^ b * 64 ^ j) :
    byte (u >>> (6 * j) &&& (2 ^ b - 1) ||| 2 ^ b * c) = UInt8.ofNat (2 ^ b * c + u / 64 ^ j) := by
  have hlt : u / 64 ^ j < 2 ^ b := Nat.div_lt_of_lt_mul (by rwa [Nat.mul_comm] at h)
  rw [shift_six, masked_or, Nat.mod_eq_of_lt hlt]
  rfl

/-! ## Branches -/

/-- A branch that takes `u` stores it, and no other one does. -/
theorem unicodeIntoUtf8_takes (h : Takes k u) (utf8 : Nat) (m : Mem) :
    unicodeIntoUtf8 u utf8 m = (some (k + 1), putList m utf8 (Utf8.word k u)) := by
  obtain ⟨⟨lo, hi⟩, hr, hlo, hhi⟩ := h
  have hb0 : byte (u &&& 0x3f ||| 0x80) = _ := byte_tail u 0
  have hb1 : byte (u >>> 6 &&& 0x3f ||| 0x80) = _ := byte_tail u 1
  have hb2 : byte (u >>> 12 &&& 0x3f ||| 0x80) = _ := byte_tail u 2
  have hb3 : byte (u >>> 18 &&& 0x3f ||| 0x80) = _ := byte_tail u 3
  have hb4 : byte (u >>> 24 &&& 0x3f ||| 0x80) = _ := byte_tail u 4
  unfold unicodeIntoUtf8
  match k, hr with
  | 0, hr =>
    obtain ⟨rfl, rfl⟩ := Prod.mk.inj (Option.some.inj hr)
    dsimp only at hlo hhi
    have hbits : u &&& 0x7f = 0 + u / 64 ^ 0 := by
      rw [show u &&& 0x7f = u % 2 ^ 7 from and_mask u 7, Nat.mod_eq_of_lt (by omega), Nat.pow_zero,
        Nat.div_one, Nat.zero_add]
    simp (disch := omega) only [if_pos, if_neg]
    rw [hbits]
    rfl
  | 1, hr =>
    obtain ⟨rfl, rfl⟩ := Prod.mk.inj (Option.some.inj hr)
    dsimp only at hlo hhi
    have hlead : byte (u >>> 6 &&& 0x1f ||| 0xc0) = _ := byte_lead (b := 5) (c := 6) 1 (by omega)
    simp (disch := omega) only [if_pos, if_neg]
    rw [hlead, hb0]
    rfl
  | 2, hr =>
    obtain ⟨rfl, rfl⟩ := Prod.mk.inj (Option.some.inj hr)
    dsimp only at hlo hhi
    have hlead : byte (u >>> 12 &&& 0x0f ||| 0xe0) = _ := byte_lead (b := 4) (c := 14) 2 (by omega)
    simp (disch := omega) only [if_pos, if_neg]
    rw [hlead, hb1, hb0]
    rfl
  | 3, hr =>
    obtain ⟨rfl, rfl⟩ := Prod.mk.inj (Option.some.inj hr)
    dsimp only at hlo hhi
    have hlead : byte (u >>> 18 &&& 0x07 ||| 0xf0) = _ := byte_lead (b := 3) (c := 30) 3 (by omega)
    simp (disch := omega) only [if_pos, if_neg]
    rw [hlead, hb2, hb1, hb0]
    rfl
  | 4, hr =>
    obtain ⟨rfl, rfl⟩ := Prod.mk.inj (Option.some.inj hr)
    dsimp only at hlo hhi
    have hlead : byte (u >>> 24 &&& 0x03 ||| 0xf8) = _ := byte_lead (b := 2) (c := 62) 4 (by omega)
    simp (disch := omega) only [if_pos, if_neg]
    rw [hlead, hb3, hb2, hb1, hb0]
    rfl
  | 5, hr =>
    obtain ⟨rfl, rfl⟩ := Prod.mk.inj (Option.some.inj hr)
    dsimp only at hlo hhi
    have hlead : byte (u >>> 30 &&& 0x01 ||| 0xfc) = _ := byte_lead (b := 1) (c := 126) 5 (by omega)
    simp (disch := omega) only [if_pos, if_neg]
    rw [hlead, hb4, hb3, hb2, hb1, hb0]
    rfl

/-- Numbers that no branch takes leave the memory as it is, and the size unset. -/
theorem unicodeIntoUtf8_hole (h : ∀ k, ¬ Takes k u) (utf8 : Nat) (m : Mem) :
    unicodeIntoUtf8 u utf8 m = (none, m) := by
  have h0 : ¬ u ≤ 0x7f := fun hu => h 0 ⟨_, rfl, Nat.zero_le u, hu⟩
  have h1 : ¬ (0x80 ≤ u ∧ u ≤ 0x7ff) := fun hu => h 1 ⟨_, rfl, hu⟩
  have h2 : ¬ (0x800 ≤ u ∧ u ≤ 0xffff) := fun hu => h 2 ⟨_, rfl, hu⟩
  have h3 : ¬ (0x10000 ≤ u ∧ u ≤ 0x10ffff) := fun hu => h 3 ⟨_, rfl, hu⟩
  have h4 : ¬ (0x200000 ≤ u ∧ u ≤ 0x3ffffff) := fun hu => h 4 ⟨_, rfl, hu⟩
  have h5 : ¬ (0x4000000 ≤ u ∧ u ≤ 0x7fffffff) := fun hu => h 5 ⟨_, rfl, hu⟩
  unfold unicodeIntoUtf8
  simp only [if_neg h0, if_neg h1, if_neg h2, if_neg h3, if_neg h4, if_neg h5]

/-- The size tells the branches apart. -/
theorem Takes.unique {j : Nat} (h : Takes k u) (h' : Takes j u) : k = j := by
  have hsize := (unicodeIntoUtf8_takes h 0 fun _ => 0).symm.trans
    (unicodeIntoUtf8_takes h' 0 fun _ => 0)
  exact Nat.succ.inj (Option.some.inj (Prod.mk.inj hsize).1)

/-- A branch takes only what its bytes have bits for. -/
theorem Takes.fits (h : Takes k u) : k < 6 ∧ u < 2 ^ Utf8.leadBits k * 64 ^ k := by
  obtain ⟨r, hr, -, hhi⟩ := h
  have hk : k < 6 := (List.getElem?_eq_some_iff.mp hr).1
  have hroom : ∀ k < 6, ∀ r ∈ branches[k]?, r.2 < 2 ^ Utf8.leadBits k * 64 ^ k := by decide
  exact ⟨hk, Nat.lt_of_le_of_lt hhi (hroom k hk r hr)⟩

theorem takes_iff (h : u ≤ 0x7fffffff) : (∃ k, Takes k u) ↔ u < 0x110000 ∨ 0x200000 ≤ u := by
  constructor
  · rintro ⟨k, r, hr, hlo, hhi⟩
    have hhole : ∀ r ∈ branches, r.2 < 0x110000 ∨ 0x200000 ≤ r.1 := by decide
    have hbounds := hhole r (List.mem_of_getElem? hr)
    omega
  · intro hu
    by_cases h0 : u ≤ 0x7f
    · exact ⟨0, _, rfl, Nat.zero_le u, h0⟩
    by_cases h1 : u ≤ 0x7ff
    · exact ⟨1, _, rfl, Nat.lt_of_not_le h0, h1⟩
    by_cases h2 : u ≤ 0xffff
    · exact ⟨2, _, rfl, Nat.lt_of_not_le h1, h2⟩
    by_cases h3 : u ≤ 0x10ffff
    · exact ⟨3, _, rfl, Nat.lt_of_not_le h2, h3⟩
    by_cases h4 : u ≤ 0x3ffffff
    · exact ⟨4, _, rfl, hu.resolve_left fun hlt => h3 (Nat.le_of_lt_succ hlt), h4⟩
    · exact ⟨5, _, rfl, Nat.lt_of_not_le h4, h⟩

/-! ## Code points -/

theorem encodesPoint_iff_takes : EncodesPoint u ↔ ∃ k, Takes k u := by
  constructor
  · intro h
    by_contra hnone
    obtain ⟨text, hrun, -⟩ := h 0 fun _ => 0
    rw [unicodeIntoUtf8_hole fun k hk => hnone ⟨k, hk⟩] at hrun
    cases (Prod.mk.inj hrun).1
  · rintro ⟨k, hk⟩ utf8 m
    obtain ⟨hlt, hfits⟩ := hk.fits
    have hread := Utf8.read_word hlt hfits []
    rw [List.append_nil] at hread
    refine ⟨Utf8.word k u, ?_, ?_, ?_, hread⟩
    · rw [unicodeIntoUtf8_takes hk, Utf8.length_word]
    · rw [Utf8.length_word]
      exact Nat.succ_pos k
    · rw [Utf8.length_word]
      exact hlt

/--
A code point is encoded, by the one branch that takes it, unless it is between the fourth and the
fifth branch.
-/
theorem unicodeIntoUtf8_encodes_iff (h : u ≤ 0x7fffffff) :
    (EncodesPoint u ∧ ∃! k, Takes k u) ↔ u < 0x110000 ∨ 0x200000 ≤ u := by
  rw [encodesPoint_iff_takes, takes_iff h]
  refine and_iff_left_of_imp fun hu => ?_
  obtain ⟨k, hk⟩ := (takes_iff h).mpr hu
  exact ⟨k, hk, fun j hj => hj.unique hk⟩

/-- The last number of six bytes. -/
theorem unicodeIntoUtf8_encodes_last : EncodesPoint 0x7fffffff ∧ ∃! k, Takes k 0x7fffffff :=
  (unicodeIntoUtf8_encodes_iff (Nat.le_refl _)).mpr (.inr (by decide))

/-- The first number of the hole. -/
theorem hole_not_encoded : ¬ EncodesPoint 0x110000 := by
  rw [encodesPoint_iff_takes, takes_iff (by decide)]
  decide

end Raincloud.Coding
