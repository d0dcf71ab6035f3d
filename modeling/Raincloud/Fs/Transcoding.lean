import Raincloud.Fs.NameEncoding
import Raincloud.Infra.PrefixCode
import Raincloud.Klibc.Coding

/-!
# File names in UTF-8

Each unit of a name is encoded for itself, in one to three bytes. The bytes of a name give the
name back. They are its UTF-8 text if and only if no character of it takes two units.
-/

namespace Raincloud

open Infra Infra.Mem

variable {u v : List UInt16} {x : UInt16} {m : Mem} {a : Nat} {c : Char} {cs : List Char}

/-! ## What is written -/

/-- The text of a string of units. -/
def unitText (u : List UInt16) : List UInt8 := u.flatMap fun x => utf8Unit x.toNat

theorem coding_unicodeIntoUtf8 {n : Nat} (h : n < 2 ^ 16) (a : Nat) (m : Mem) :
    Coding.unicodeIntoUtf8 n a m = (some (unicodeIntoUtf8 n).length,
      putList m a (unicodeIntoUtf8 n)) := by
  have h4 : ¬ (0x10000 ≤ n ∧ n ≤ 0x10ffff) := by omega
  have h5 : ¬ (0x200000 ≤ n ∧ n ≤ 0x3ffffff) := by omega
  have h6 : ¬ (0x4000000 ≤ n ∧ n ≤ 0x7fffffff) := by omega
  unfold Coding.unicodeIntoUtf8 unicodeIntoUtf8
  simp only [if_neg h4, if_neg h5, if_neg h6]
  by_cases h7 : n ≤ 0x7f
  · have h2 : ¬ (0x80 ≤ n ∧ n ≤ 0x7ff) := by omega
    have h3 : ¬ (0x800 ≤ n ∧ n ≤ 0xffff) := by omega
    simp only [if_pos h7, if_neg h2, if_neg h3]
    rfl
  · by_cases h11 : n ≤ 0x7ff
    · have h2 : 0x80 ≤ n ∧ n ≤ 0x7ff := by omega
      have h3 : ¬ (0x800 ≤ n ∧ n ≤ 0xffff) := by omega
      simp only [if_neg h7, if_pos h2, if_pos h11, if_neg h3]
      rfl
    · have h2 : ¬ (0x80 ≤ n ∧ n ≤ 0x7ff) := fun h => h11 h.2
      have h3 : 0x800 ≤ n ∧ n ≤ 0xffff := by omega
      simp only [if_neg h7, if_neg h2, if_neg h11, if_pos h3]
      rfl

theorem coding_unit (x : UInt16) (a : Nat) (m : Mem) : Coding.unicodeIntoUtf8 x.toNat a m =
    (some (utf8Unit x.toNat).length, putList m a (utf8Unit x.toNat)) := by
  rw [coding_unicodeIntoUtf8 x.toNat_lt, unicodeIntoUtf8_eq x.toNat_lt]

/-- The units are encoded one behind the other. -/
theorem sumSizes_eq (hu : 0 ∉ u) (sum : Nat) (m : Mem) :
    Coding.sumSizes a (u ++ [0]) sum m =
      some (sum + (unitText u).length, putList m (a + sum) (unitText u)) := by
  induction u generalizing sum m with
  | nil =>
    rw [unitText, List.flatMap_nil, putList_nil]
    rfl
  | cons x u ih =>
    obtain ⟨hx, hu⟩ := not_or.mp (List.mem_cons.not.mp hu)
    rw [List.cons_append, Coding.sumSizes, if_neg (Ne.symm hx), coding_unit]
    dsimp only
    have hcons : unitText (x :: u) = utf8Unit x.toNat ++ unitText u := List.flatMap_cons
    rw [ih hu, hcons, List.length_append, ← putList_append, Nat.add_assoc, Nat.add_assoc]

theorem strUnicodeToUtf8_writes (hu : 0 ∉ u) (a : Nat) (m : Mem) :
    Coding.strUnicodeToUtf8 (u ++ [0]) a m =
      some (((unitText u).length : Int).bmod (2 ^ 32), putList m a (unitText u ++ [0])) := by
  unfold Coding.strUnicodeToUtf8
  rw [sumSizes_eq hu]
  dsimp only
  rw [Nat.zero_add, Nat.add_zero, (written_putList m a (unitText u)).finish 0]

/-! ## Reading it back -/

/-- The unit at the front, by the bit layout. -/
def readUnit : List UInt8 → Option (UInt16 × List UInt8)
  | [] => none
  | b :: l =>
    if b.toNat < 0x80 then some (UInt16.ofNat b.toNat, l)
    else if 0xc0 ≤ b.toNat ∧ b.toNat < 0xe0 then
      match l with
      | c :: l => some (UInt16.ofNat (b.toNat % 32 * 64 + c.toNat % 64), l)
      | _ => none
    else if 0xe0 ≤ b.toNat ∧ b.toNat < 0xf0 then
      match l with
      | c :: d :: l =>
        some (UInt16.ofNat (b.toNat % 16 * 4096 + c.toNat % 64 * 64 + d.toNat % 64), l)
      | _ => none
    else none

/-- The units of a text. -/
def readUnits (text : List UInt8) : Option (List UInt16) := decodeAll readUnit text.length text

section Reading

variable {b b' b'' : UInt8} {l : List UInt8}

theorem readUnit_one (h : b.toNat < 0x80) :
    readUnit (b :: l) = some (UInt16.ofNat b.toNat, l) := by
  rw [readUnit.eq_def]
  exact if_pos h

theorem readUnit_two (h : 0xc0 ≤ b.toNat ∧ b.toNat < 0xe0) : readUnit (b :: b' :: l) =
    some (UInt16.ofNat (b.toNat % 32 * 64 + b'.toNat % 64), l) := by
  rw [readUnit.eq_def]
  exact (if_neg (by omega)).trans (if_pos h)

theorem readUnit_three (h : 0xe0 ≤ b.toNat ∧ b.toNat < 0xf0) : readUnit (b :: b' :: b'' :: l) =
    some (UInt16.ofNat (b.toNat % 16 * 4096 + b'.toNat % 64 * 64 + b''.toNat % 64), l) := by
  rw [readUnit.eq_def]
  exact (if_neg (by omega)).trans ((if_neg (by omega)).trans (if_pos h))

end Reading

theorem toNat_byte {n : Nat} (h : n < 256) : (UInt8.ofNat n).toNat = n := by
  rw [UInt8.toNat_ofNat', Nat.mod_eq_of_lt h]

theorem readUnit_utf8Unit (x : UInt16) (l : List UInt8) :
    readUnit (utf8Unit x.toNat ++ l) = some (x, l) := by
  have hx := x.toNat_lt
  unfold utf8Unit
  by_cases h7 : x.toNat < 0x80
  · have hb : (UInt8.ofNat x.toNat).toNat = x.toNat := toNat_byte (by omega)
    rw [if_pos h7]
    refine (readUnit_one (by rwa [hb])).trans ?_
    rw [hb, UInt16.ofNat_toNat]
    rfl
  rw [if_neg h7]
  have hlow : (UInt8.ofNat (0x80 + x.toNat % 64)).toNat = 0x80 + x.toNat % 64 :=
    toNat_byte (by omega)
  by_cases h11 : x.toNat < 0x800
  · have hb : (UInt8.ofNat (0xc0 + x.toNat / 64)).toNat = 0xc0 + x.toNat / 64 :=
      toNat_byte (by omega)
    have hunit : (0xc0 + x.toNat / 64) % 32 * 64 + (0x80 + x.toNat % 64) % 64 = x.toNat := by omega
    rw [if_pos h11]
    refine (readUnit_two (by rw [hb]; omega)).trans ?_
    rw [hb, hlow, hunit, UInt16.ofNat_toNat]
    rfl
  · have hb : (UInt8.ofNat (0xe0 + x.toNat / 4096)).toNat = 0xe0 + x.toNat / 4096 :=
      toNat_byte (by omega)
    have hmid : (UInt8.ofNat (0x80 + x.toNat / 64 % 64)).toNat = 0x80 + x.toNat / 64 % 64 :=
      toNat_byte (by omega)
    have hunit : (0xe0 + x.toNat / 4096) % 16 * 4096 + (0x80 + x.toNat / 64 % 64) % 64 * 64 +
        (0x80 + x.toNat % 64) % 64 = x.toNat := by omega
    rw [if_neg h11]
    refine (readUnit_three (by rw [hb]; omega)).trans ?_
    rw [hb, hmid, hlow, hunit, UInt16.ofNat_toNat]
    rfl

theorem readsBack_unit (x : UInt16) :
    ReadsBack (fun x : UInt16 => utf8Unit x.toNat) readUnit x :=
  ⟨List.ne_nil_of_length_pos (utf8Unit_length_pos x.toNat), readUnit_utf8Unit x⟩

theorem readUnits_unitText (u : List UInt16) : readUnits (unitText u) = some u :=
  decodeAll_code (fun x _ => readsBack_unit x) (length_le_code fun x _ => readsBack_unit x)

theorem unitText_injective (h : unitText u = unitText v) : u = v :=
  code_injective (fun x _ => readsBack_unit x) (fun x _ => readsBack_unit x) h

/-- Only the unit 0 has a byte 0. -/
theorem utf8Unit_noNul (hx : x ≠ 0) : 0 ∉ utf8Unit x.toNat := by
  have hlt := x.toNat_lt
  have hx0 : x.toNat ≠ 0 := fun h => hx (UInt16.toNat_inj.mp h)
  have hne : ∀ n, 0 < n → n < 256 → (0 : UInt8) ≠ UInt8.ofNat n := fun n hpos hn h => by
    have h0 := congrArg UInt8.toNat h
    rw [toNat_byte hn] at h0
    exact Nat.ne_of_lt hpos h0
  unfold utf8Unit
  split
  · simp only [List.mem_cons, List.not_mem_nil, or_false]
    exact hne x.toNat (by omega) (by omega)
  split
  · simp only [List.mem_cons, List.not_mem_nil, or_false, not_or]
    exact ⟨hne _ (by omega) (by omega), hne _ (by omega) (by omega)⟩
  · simp only [List.mem_cons, List.not_mem_nil, or_false, not_or]
    exact ⟨hne _ (by omega) (by omega), hne _ (by omega) (by omega), hne _ (by omega) (by omega)⟩

theorem unitText_noNul (hu : 0 ∉ u) : 0 ∉ unitText u := fun h => by
  obtain ⟨x, hx, hmem⟩ := List.mem_flatMap.mp h
  exact utf8Unit_noNul (fun he => hu (he ▸ hx)) hmem

/-! ## Nothing is lost -/

/-- What is said of a name: its text has no 0 inside, its length is returned, and it gives the
name back. -/
def Lossless (u : List UInt16) : Prop := ∀ a m, ∃ text : List UInt8,
  Coding.strUnicodeToUtf8 (u ++ [0]) a m =
    some ((text.length : Int), putList m a (text ++ [0])) ∧
  0 ∉ text ∧ readUnits text = some u

/--
The text of a name has no 0 inside and gives the name back, and what is returned is its length as
an `int`. Names that are written as the same string, wherever that is, are the same.
-/
theorem strUnicodeToUtf8_lossless (hu : 0 ∉ u) (hv : 0 ∉ v) (a : Nat) (m : Mem) :
    ∃ ret text, Coding.strUnicodeToUtf8 (u ++ [0]) a m =
        some (ret, putList m a (text ++ [0])) ∧
      0 ∉ text ∧ readUnits text = some u ∧
      ret = (text.length : Int).bmod (2 ^ 32) ∧
      (text.length < 2 ^ 31 → ret = text.length) ∧
      ∀ b m2 ret' m2', Coding.strUnicodeToUtf8 (v ++ [0]) b m2 = some (ret', m2') →
        TextAt m2' b text → u = v := by
  refine ⟨_, unitText u, strUnicodeToUtf8_writes hu a m, unitText_noNul hu, readUnits_unitText u,
    rfl, fun hlt => Int.bmod_eq_of_le (by omega) (by omega), fun b m2 ret' m2' hrun htext => ?_⟩
  rw [strUnicodeToUtf8_writes hv] at hrun
  obtain ⟨-, rfl⟩ := Prod.mk.inj (Option.some.inj hrun)
  exact unitText_injective (htext.unique (textAt_putList m2 b (unitText_noNul hv)))

/-- Two names of one unit each. -/
theorem strUnicodeToUtf8_lossless_A : ∃ ret text,
    Coding.strUnicodeToUtf8 ([0x41] ++ [0]) 0 (fun _ => 0) =
      some (ret, putList (fun _ => 0) 0 (text ++ [0])) ∧
    0 ∉ text ∧ readUnits text = some [0x41] ∧
    ret = (text.length : Int).bmod (2 ^ 32) ∧
    (text.length < 2 ^ 31 → ret = text.length) ∧
    ∀ b m2 ret' m2', Coding.strUnicodeToUtf8 ([0xd83d] ++ [0]) b m2 = some (ret', m2') →
      TextAt m2' b text → ([0x41] : List UInt16) = [0xd83d] :=
  strUnicodeToUtf8_lossless (u := [0x41]) (v := [0xd83d]) (by decide) (by decide) 0 fun _ => 0

theorem unitText_ascii (h : x.toNat < 0x80) (n : Nat) :
    unitText (List.replicate n x) = List.replicate n (UInt8.ofNat x.toNat) := by
  have hunit : utf8Unit x.toNat = [UInt8.ofNat x.toNat] := if_pos h
  induction n with
  | zero => rfl
  | succ n ih =>
    have hcons : unitText (List.replicate (n + 1) x) =
        utf8Unit x.toNat ++ unitText (List.replicate n x) := List.flatMap_cons
    rw [hcons, hunit, ih]
    rfl

/-- The length of the text does not fit an `int`. -/
theorem long_not_lossless {n : Nat} (hn : n = 2 ^ 31) (hx : x ≠ 0) (h : x.toNat < 0x80) :
    ¬ Lossless (List.replicate n x) := fun hloss => by
  obtain ⟨text, hrun, -, hread⟩ := hloss 0 fun _ => 0
  have h0 : 0 ∉ List.replicate n x := fun hmem => hx (List.mem_replicate.mp hmem).2.symm
  rw [strUnicodeToUtf8_writes h0, unitText_ascii h, List.length_replicate, hn] at hrun
  have hret := (Prod.mk.inj (Option.some.inj hrun)).1
  have hwrap : ((2 ^ 31 : Nat) : Int).bmod (2 ^ 32) = -2 ^ 31 := by decide
  rw [hwrap] at hret
  omega

/-- A name of 2147483648 times the letter A. -/
theorem longName_not_lossless : ¬ Lossless (List.replicate (2 ^ 31) 0x41) :=
  long_not_lossless rfl (by decide) (by decide)

/-! ## Well-formed UTF-16 -/

/-- A unit that is half of a pair. -/
def Surrogate (x : UInt16) : Prop := 0xd800 ≤ x.toNat ∧ x.toNat < 0xe000

/-- One unit, or a high and a low surrogate. -/
def utf16 (c : Char) : List UInt16 :=
  if c.toNat < 0x10000 then [UInt16.ofNat c.toNat]
  else [UInt16.ofNat (0xd800 + (c.toNat - 0x10000) / 0x400),
    UInt16.ofNat (0xdc00 + (c.toNat - 0x10000) % 0x400)]

def utf16Text (cs : List Char) : List UInt16 := cs.flatMap utf16

def utf8Text (cs : List Char) : List UInt8 := cs.flatMap String.utf8EncodeChar

/-- What is written for the characters is their text in UTF-8. -/
def WritesUtf8 (cs : List Char) : Prop := ∀ a m, ∃ ret,
  Coding.strUnicodeToUtf8 (utf16Text cs ++ [0]) a m =
    some (ret, putList m a (utf8Text cs ++ [0]))

theorem toNat_unit {n : Nat} (h : n < 2 ^ 16) : (UInt16.ofNat n).toNat = n := by
  rw [UInt16.toNat_ofNat', Nat.mod_eq_of_lt h]

/-- A character is no surrogate. -/
theorem char_range (c : Char) : c.toNat < 0xd800 ∨ 0xdfff < c.toNat ∧ c.toNat < 0x110000 := by
  rcases c.valid with h | h
  · exact .inl h
  · exact .inr h

theorem utf16_surrogate_iff (c : Char) :
    (∀ x ∈ utf16 c, ¬ Surrogate x) ↔ c.toNat < 0x10000 := by
  have hrange := char_range c
  unfold utf16
  by_cases hc : c.toNat < 0x10000
  · refine iff_of_true (fun x hx => ?_) hc
    rw [if_pos hc, List.mem_singleton] at hx
    rw [hx, Surrogate, toNat_unit hc]
    omega
  · refine iff_of_false (fun h => ?_) hc
    rw [if_neg hc] at h
    refine h _ List.mem_cons_self ?_
    rw [Surrogate, toNat_unit (by omega)]
    omega

/-- A character of one unit is encoded as it should be. -/
theorem unitText_utf16 (h : c.toNat < 0x10000) : unitText (utf16 c) = String.utf8EncodeChar c := by
  have hunit : utf16 c = [UInt16.ofNat c.toNat] := if_pos h
  have htext : unitText [UInt16.ofNat c.toNat] = utf8Unit c.toNat := by
    rw [unitText, List.flatMap_singleton, toNat_unit h]
  have hval : c.val.toNat = c.toNat := rfl
  have hlow : c.toNat % 0x40 + 0x80 = 0x80 + c.toNat % 64 := Nat.add_comm _ _
  rw [hunit, htext]
  unfold utf8Unit String.utf8EncodeChar
  dsimp only
  rw [hval, hlow]
  clear hval
  by_cases h7 : c.toNat < 0x80
  · rw [if_pos h7, if_pos (Nat.le_of_lt_succ h7)]
  rw [if_neg h7, if_neg (show ¬ c.toNat ≤ 0x7f by omega)]
  by_cases h11 : c.toNat < 0x800
  · have hlead : c.toNat / 64 % 0x20 + 0xc0 = 0xc0 + c.toNat / 64 := by omega
    rw [if_pos h11, if_pos (Nat.le_of_lt_succ h11), hlead]
  · have hlead : c.toNat / 4096 % 0x10 + 0xe0 = 0xe0 + c.toNat / 4096 := by omega
    have hmid : c.toNat / 64 % 0x40 + 0x80 = 0x80 + c.toNat / 64 % 64 := Nat.add_comm _ _
    rw [if_neg h11, if_neg (show ¬ c.toNat ≤ 0x7ff by omega), if_pos (Nat.le_of_lt_succ h), hlead,
      hmid]

/-- A character of two units takes six bytes instead of four. -/
theorem unitText_pair (h : ¬ c.toNat < 0x10000) :
    (unitText (utf16 c)).length = 6 ∧ (String.utf8EncodeChar c).length = 4 := by
  have hrange := char_range c
  have hlong : ∀ n, 0x800 ≤ n → (utf8Unit n).length = 3 := fun n hn => by
    unfold utf8Unit
    rw [if_neg (by omega), if_neg (by omega)]
    rfl
  constructor
  · have hunits : utf16 c = [UInt16.ofNat (0xd800 + (c.toNat - 0x10000) / 0x400),
        UInt16.ofNat (0xdc00 + (c.toNat - 0x10000) % 0x400)] := if_neg h
    rw [hunits, unitText, List.flatMap_cons, List.flatMap_singleton, List.length_append,
      toNat_unit (by omega), toNat_unit (by omega), hlong _ (by omega), hlong _ (by omega)]
  · have hval : c.val.toNat = c.toNat := rfl
    unfold String.utf8EncodeChar
    dsimp only
    rw [hval, if_neg (by omega), if_neg (by omega), if_neg (by omega)]
    rfl

theorem unitText_cons (c : Char) (cs : List Char) :
    unitText (utf16Text (c :: cs)) = unitText (utf16 c) ++ unitText (utf16Text cs) := by
  unfold unitText utf16Text
  rw [List.flatMap_cons, List.flatMap_append]

theorem length_utf8Text_le (cs : List Char) :
    (utf8Text cs).length ≤ (unitText (utf16Text cs)).length := by
  induction cs with
  | nil => exact Nat.le_refl 0
  | cons c cs ih =>
    have hchar : (String.utf8EncodeChar c).length ≤ (unitText (utf16 c)).length := by
      by_cases h : c.toNat < 0x10000
      · rw [unitText_utf16 h]
      · rw [(unitText_pair h).1, (unitText_pair h).2]
        decide
    rw [unitText_cons, List.length_append, utf8Text, List.flatMap_cons, List.length_append]
    exact Nat.add_le_add hchar ih

/-- The texts are the same if and only if no character takes two units. -/
theorem unitText_eq_iff (cs : List Char) :
    unitText (utf16Text cs) = utf8Text cs ↔ ∀ x ∈ utf16Text cs, ¬ Surrogate x := by
  induction cs with
  | nil => exact iff_of_true rfl fun x hx => absurd hx List.not_mem_nil
  | cons c cs ih =>
    have hcons : utf8Text (c :: cs) = String.utf8EncodeChar c ++ utf8Text cs := List.flatMap_cons
    have hmem : (∀ x ∈ utf16Text (c :: cs), ¬ Surrogate x) ↔
        (∀ x ∈ utf16 c, ¬ Surrogate x) ∧ ∀ x ∈ utf16Text cs, ¬ Surrogate x := by
      rw [utf16Text, List.flatMap_cons]
      exact List.forall_mem_append
    rw [unitText_cons, hcons, hmem, utf16_surrogate_iff, ← ih]
    by_cases h : c.toNat < 0x10000
    · rw [unitText_utf16 h, List.append_cancel_left_eq, and_iff_right h]
    · -- The text of the pair is too long, and no later one is too short.
      refine iff_of_false (fun he => ?_) fun hand => h hand.1
      have hlen := congrArg List.length he
      have hrest := length_utf8Text_le cs
      rw [List.length_append, List.length_append, (unitText_pair h).1, (unitText_pair h).2] at hlen
      omega

theorem utf16_noNul (hc : c.toNat ≠ 0) : 0 ∉ utf16 c := by
  have hrange := char_range c
  have hne : ∀ n, 0 < n → n < 2 ^ 16 → (0 : UInt16) ≠ UInt16.ofNat n := fun n hpos hn h => by
    have h0 := congrArg UInt16.toNat h
    rw [toNat_unit hn] at h0
    exact Nat.ne_of_lt hpos h0
  unfold utf16
  split
  · rw [List.mem_singleton]
    exact hne c.toNat (Nat.pos_of_ne_zero hc) ‹_›
  · simp only [List.mem_cons, List.not_mem_nil, or_false, not_or]
    exact ⟨hne _ (by omega) (by omega), hne _ (by omega) (by omega)⟩

/-- What is written for well-formed UTF-16 is UTF-8 if and only if there are no surrogates. -/
theorem writesUtf8_iff (hcs : Char.ofNat 0 ∉ cs) :
    WritesUtf8 cs ↔ ∀ x ∈ utf16Text cs, ¬ Surrogate x := by
  have h0 : 0 ∉ utf16Text cs := fun hmem => by
    obtain ⟨c, hc, hx⟩ := List.mem_flatMap.mp hmem
    refine utf16_noNul (fun hzero => hcs ?_) hx
    rwa [← Char.ofNat_toNat c, hzero] at hc
  rw [← unitText_eq_iff]
  constructor
  · intro h
    have hmem : ∀ m, putList m 0 (unitText (utf16Text cs) ++ [0]) =
        putList m 0 (utf8Text cs ++ [0]) := fun m => by
      obtain ⟨ret, hrun⟩ := h 0 m
      rw [strUnicodeToUtf8_writes h0] at hrun
      exact (Prod.mk.inj (Option.some.inj hrun)).2
    exact List.append_cancel_right (putList_injective hmem)
  · intro he a m
    rw [strUnicodeToUtf8_writes h0, he]
    exact ⟨_, rfl⟩

/-- A name of one character. -/
theorem writesUtf8_bmp : WritesUtf8 ['é'] := by
  refine (writesUtf8_iff (by decide)).mpr fun x hx => ?_
  rw [utf16Text, List.flatMap_singleton] at hx
  exact (utf16_surrogate_iff 'é').mpr (by decide) x hx

/-- U+1F600, in UTF-16 the pair 0xD83D 0xDE00. -/
theorem pair_not_utf8 : ¬ WritesUtf8 [Char.ofNat 0x1f600] := by
  intro h
  obtain ⟨ret, hrun⟩ := h 0 fun _ => 0
  have hpair : utf16Text [Char.ofNat 0x1f600] = [0xd83d, 0xde00] := by decide
  rw [hpair, strUnicodeToUtf8_writes (by decide)] at hrun
  have hbyte := congrFun (Prod.mk.inj (Option.some.inj hrun)).2 0
  revert hbyte
  decide

end Raincloud
