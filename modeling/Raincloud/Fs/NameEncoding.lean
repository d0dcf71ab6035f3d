import Raincloud.Fs.RootRecords
import Raincloud.Infra.Word

/-!
# Names of records

A long name is stored in pieces of 13 units, the last piece first, and `read_name` puts it
together again from the last entry back. A short name is stored as a base and an extension,
both filled up with spaces.
-/

set_option linter.style.nameCheck false

namespace Raincloud

open Infra

variable {dir : Mem} {d max : Nat}

/-! ## UTF-8 -/

/-- The UTF-8 encoding of a unit. -/
def utf8Unit (u : Nat) : List UInt8 :=
  if u < 0x80 then [UInt8.ofNat u]
  else if u < 0x800 then [UInt8.ofNat (0xc0 + u / 64), UInt8.ofNat (0x80 + u % 64)]
  else [UInt8.ofNat (0xe0 + u / 4096), UInt8.ofNat (0x80 + u / 64 % 64), UInt8.ofNat (0x80 + u % 64)]

def utf8Name (w : List Nat) : List UInt8 := w.flatMap utf8Unit

theorem utf8Unit_length_pos (u : Nat) : 0 < (utf8Unit u).length := by
  unfold utf8Unit
  split
  · simp
  split <;> simp

theorem le_utf8Name_length : ∀ w : List Nat, w.length ≤ (utf8Name w).length
  | [] => Nat.le_refl 0
  | u :: w => by
    have hpos := utf8Unit_length_pos u
    have hrest := le_utf8Name_length w
    rw [utf8Name, List.flatMap_cons, List.length_append, List.length_cons]
    rw [utf8Name] at hrest
    omega

/-- Flags in front of the bits of a byte. -/
theorem or_flags : (∀ x < 32, x ||| 0xc0 = 0xc0 + x) ∧ (∀ x < 64, x ||| 0x80 = 0x80 + x) ∧
    ∀ x < 16, x ||| 0xe0 = 0xe0 + x := by decide

theorem unicodeIntoUtf8_eq {u : Nat} (h : u < 2 ^ 16) : unicodeIntoUtf8 u = utf8Unit u := by
  obtain ⟨htwo, htail, hthree⟩ := or_flags
  have hmask6 : ∀ x, x &&& 0x3f = x % 64 := fun x => and_mask x 6
  have hmask5 : ∀ x, x &&& 0x1f = x % 32 := fun x => and_mask x 5
  have hmask4 : ∀ x, x &&& 0x0f = x % 16 := fun x => and_mask x 4
  have hmask7 : ∀ x, x &&& 0x7f = x % 128 := fun x => and_mask x 7
  have hlow := htail (u % 64) (by omega)
  unfold unicodeIntoUtf8 utf8Unit
  simp only [hmask4, hmask5, hmask6, hmask7, Nat.shiftRight_eq_div_pow, hlow]
  by_cases h7 : u ≤ 0x7f
  · rw [if_pos h7, if_pos (by omega), Nat.mod_eq_of_lt (by omega)]
  rw [if_neg h7, if_neg (show ¬ u < 0x80 by omega)]
  by_cases h11 : u ≤ 0x7ff
  · have hdiv : u / 2 ^ 6 % 32 = u / 64 := by omega
    rw [if_pos h11, if_pos (show u < 0x800 by omega), hdiv, htwo (u / 64) (by omega)]
  · have hdiv : u / 2 ^ 12 % 16 = u / 4096 := by omega
    rw [if_neg h11, if_neg (show ¬ u < 0x800 by omega), hdiv, hthree (u / 4096) (by omega),
      show u / 2 ^ 6 % 64 = u / 64 % 64 from rfl, htail (u / 64 % 64) (by omega)]

/-- The units of a name, and zeros behind them, are encoded up to the first zero. -/
theorem strUnicodeToUtf8_eq {w : List Nat} (hw : ∀ u ∈ w, u < 2 ^ 16 ∧ u ≠ 0) :
    ∀ {room i : Nat}, i ≤ w.length → w.length < room + i →
      strUnicodeToUtf8 (unitAt w) room i = some (utf8Name (w.drop i))
  | 0, i, hi, hroom => by omega
  | room + 1, i, hi, hroom => by
    rw [strUnicodeToUtf8]
    by_cases hlast : i = w.length
    · have hunit : unitAt w i = 0x0000 := by rw [unitAt, hlast, List.getD_eq_default _ _ le_rfl]
      rw [if_pos hunit, hlast, List.drop_length]
      rfl
    · have hlt : i < w.length := by omega
      have hunit : unitAt w i = w[i] := List.getD_eq_getElem _ _ hlt
      obtain ⟨hu, hne⟩ := hw w[i] (List.getElem_mem hlt)
      rw [hunit, if_neg hne, strUnicodeToUtf8_eq hw (by omega) (by omega), unicodeIntoUtf8_eq hu,
        List.drop_eq_getElem_cons hlt]
      rfl

theorem unicodeIntoUtf8_length_pos (u : Nat) : 0 < (unicodeIntoUtf8 u).length := by
  unfold unicodeIntoUtf8
  split
  · simp
  split <;> simp

/-- A unit takes a byte at least. -/
theorem strUnicodeToUtf8_room {unit : Nat → Nat} : ∀ {room room' i : Nat} {s : List UInt8},
    strUnicodeToUtf8 unit room i = some s → s.length < room' →
      strUnicodeToUtf8 unit room' i = some s
  | room + 1, room', i, s, h, hlen => by
    obtain ⟨n, rfl⟩ := Nat.exists_eq_add_of_le' (Nat.lt_of_le_of_lt (Nat.zero_le _) hlen)
    unfold strUnicodeToUtf8 at h ⊢
    by_cases hu : unit i = 0x0000
    · rw [if_pos hu] at h ⊢
      exact h
    · rw [if_neg hu] at h ⊢
      obtain ⟨t, ht, rfl⟩ := Option.map_eq_some_iff.mp h
      have hpos := unicodeIntoUtf8_length_pos (unit i)
      rw [List.length_append] at hlen
      rw [strUnicodeToUtf8_room ht (by omega), Option.map_some]

/-! ## Long names on the disk -/

/-- The pieces of a name. -/
def pieces (w : List Nat) : Nat := (w.length + 12) / 13

/-- Unit `j` of the pieces: the name, a 0 if there is room for it, and 0xFFFF in the rest. -/
def paddedUnit (w : List Nat) (j : Nat) : Nat :=
  if j < w.length then w.getD j 0 else if j = w.length then 0 else 0xffff

/-- The place of a unit in its entry: five units, six and two. -/
def unitPlace (j : Nat) : Nat :=
  if j < 5 then 1 + 2 * j else if j < 11 then 14 + 2 * (j - 5) else 28 + 2 * (j - 11)

/-- The name is stored from `d` on, the last piece first and marked, with a short entry behind. -/
structure StoresLong (dir : Mem) (d : Nat) (w : List Nat) : Prop where
  length : 1 ≤ w.length ∧ w.length ≤ 255
  units : ∀ u ∈ w, u < 2 ^ 16 ∧ u ≠ 0x0000 ∧ u ≠ 0xffff
  attr : ∀ i < pieces w, dir (d + 32 * i + 11) = attrLongName
  mark : ∀ i < pieces w, dir (d + 32 * i) &&& 0x40 ≠ 0 ↔ i = 0
  stored : ∀ i < pieces w, ∀ j < 13,
    dir.load (d + 32 * i + unitPlace j) 2 = paddedUnit w (13 * (pieces w - 1 - i) + j)
  short : dir (d + 32 * pieces w + 11) ≠ attrLongName

/-! ## Copying -/

/-- One of the three fields of an entry: copied unless its first unit is 0xFFFF. -/
def copyField (dir : Mem) (src n : Nat) (units : List Nat)
    (rest : List Nat → Except FatFault (Option (List Nat))) :
    Except FatFault (Option (List Nat)) :=
  if dir.load src 2 = 0xffff then .ok (some units)
  else appendUnits units (wstrncpy dir src n) >>= rest

/-- An entry is copied field by field. -/
theorem longNameLoop_fields (dir : Mem) (d k : Nat) (units : List Nat) :
    longNameLoop dir d (k + 1) units
      = copyField dir (d + 32 * k + 1) 5 units fun units =>
        copyField dir (d + 32 * k + 14) 6 units fun units =>
        copyField dir (d + 32 * k + 28) 2 units fun units =>
        if dir (d + 32 * k) &&& 0x40 ≠ 0 then .ok (some units) else longNameLoop dir d k units := by
  have hentry : d + 32 * (k + 1) - 32 = d + 32 * k := by omega
  rw [longNameLoop_succ, hentry]
  rfl

/-- What is copied of the first `a` units of the pieces. -/
def copied (w : List Nat) (a : Nat) : List Nat := if a ≤ w.length then w.take a else w ++ [0]

theorem copied_of_lt {w : List Nat} {a : Nat} (h : w.length < a) : copied w a = w ++ [0] :=
  if_neg (Nat.not_le.mpr h)

theorem copied_length (w : List Nat) (a : Nat) : (copied w a).length ≤ w.length + 1 := by
  unfold copied
  split
  · rw [List.length_take]
    omega
  · rw [List.length_append, List.length_singleton]

theorem unitAt_copied {w : List Nat} {a : Nat} (h : w.length ≤ a) :
    unitAt (copied w a) = unitAt w := by
  funext i
  unfold unitAt copied
  split
  · rw [List.take_of_length_le h]
  · rcases Nat.lt_trichotomy i w.length with hi | rfl | hi
    · rw [List.getD_append _ _ _ _ hi]
    · rw [List.getD_append_right _ _ _ _ le_rfl, Nat.sub_self, List.getD_cons_zero,
        List.getD_eq_default _ _ le_rfl]
    · rw [List.getD_eq_default _ _ (by simpa using hi), List.getD_eq_default _ _ hi.le]

/-- The units of a field go behind those before it, up to the terminator. -/
theorem wstrncpy_padded {w : List Nat} (hw : ∀ u ∈ w, u ≠ 0x0000) : ∀ {n src a : Nat},
    (∀ j < n, dir.load (src + 2 * j) 2 = paddedUnit w (a + j)) → a ≤ w.length →
      copied w a ++ wstrncpy dir src n = copied w (a + n)
  | 0, _, a, _, _ => List.append_nil _
  | n + 1, src, a, hstored, ha => by
    have hfirst := hstored 0 (Nat.succ_pos n)
    rw [Nat.mul_zero, Nat.add_zero, Nat.add_zero] at hfirst
    rw [wstrncpy, hfirst]
    by_cases hlast : a = w.length
    · -- the terminator is copied, and nothing behind it
      have hzero : paddedUnit w a = 0 := by rw [paddedUnit, if_neg (by omega), if_pos hlast]
      rw [hzero, if_pos rfl, copied, if_pos ha, copied_of_lt (by omega), hlast, List.take_length]
    · have hlt : a < w.length := by omega
      have hunit : paddedUnit w a = w[a] := by
        rw [paddedUnit, if_pos hlt, List.getD_eq_getElem _ _ hlt]
      have hrest := wstrncpy_padded hw (n := n) (fun j hj => by
        have hj' := hstored (j + 1) (Nat.succ_lt_succ hj)
        rwa [show src + 2 * (j + 1) = src + 2 + 2 * j by ring,
          show a + (j + 1) = a + 1 + j by ring] at hj') hlt
      have hnext : copied w (a + 1) = copied w a ++ [w[a]] := by
        rw [copied, copied, if_pos ha, if_pos (Nat.succ_le_of_lt hlt), List.take_append_getElem hlt]
      rw [hunit, if_neg (hw w[a] (List.getElem_mem hlt)), ← Nat.add_assoc, Nat.add_right_comm,
        ← hrest, hnext, List.append_assoc]
      rfl

/-- A field is copied, or the name has ended before it. -/
theorem copyField_padded {w : List Nat} (hlen : w.length ≤ 255)
    (hw : ∀ u ∈ w, u ≠ 0x0000 ∧ u ≠ 0xffff) {src a n : Nat} (hn : 0 < n)
    (hstored : ∀ j < n, dir.load (src + 2 * j) 2 = paddedUnit w (a + j))
    (rest : List Nat → Except FatFault (Option (List Nat))) :
    copyField dir src n (copied w a) rest
      = if w.length < a then .ok (some (w ++ [0])) else rest (copied w (a + n)) := by
  have hfirst := hstored 0 hn
  rw [Nat.mul_zero, Nat.add_zero, Nat.add_zero] at hfirst
  rw [copyField, hfirst]
  by_cases ha : w.length < a
  · have hpad : paddedUnit w a = 0xffff := by rw [paddedUnit, if_neg (by omega), if_neg (by omega)]
    rw [if_pos hpad, if_pos ha, copied_of_lt ha]
  · have hne : paddedUnit w a ≠ 0xffff := by
      unfold paddedUnit
      split
      · rw [List.getD_eq_getElem _ _ ‹_›]
        exact (hw _ (List.getElem_mem _)).2
      · rw [if_pos (by omega)]
        decide
    have hcopy := wstrncpy_padded (fun u hu => (hw u hu).1) hstored (Nat.le_of_not_lt ha)
    have hroom := copied_length w (a + n)
    rw [← hcopy, List.length_append] at hroom
    rw [if_neg hne, if_neg ha, appendUnits, if_neg (by omega), hcopy]
    rfl

/-- The units of a field of a stored name. -/
theorem StoresLong.field {w : List Nat} (h : StoresLong dir d w) {i : Nat} (hi : i < pieces w)
    {o first n : Nat} (hn : first + n ≤ 13)
    (hplace : ∀ j < n, unitPlace (first + j) = o + 2 * j) :
    ∀ j < n, dir.load (d + 32 * i + o + 2 * j) 2
      = paddedUnit w (13 * (pieces w - 1 - i) + first + j) := by
  intro j hj
  have hstored := h.stored i hi (first + j) (by omega)
  rwa [hplace j hj, ← Nat.add_assoc, ← Nat.add_assoc] at hstored

/-- An entry is copied up to the end of the name. -/
theorem longNameLoop_entry {w : List Nat} (h : StoresLong dir d w) {i : Nat} (hi : i < pieces w) :
    longNameLoop dir d (i + 1) (copied w (13 * (pieces w - 1 - i))) =
      if w.length < 13 * (pieces w - 1 - i) + 11 then .ok (some (copied w (13 * pieces w)))
      else if i = 0 then .ok (some (copied w (13 * pieces w)))
      else longNameLoop dir d i (copied w (13 * (pieces w - 1 - i) + 13)) := by
  have hw : ∀ u ∈ w, u ≠ 0x0000 ∧ u ≠ 0xffff := fun u hu => (h.units u hu).2
  have hall : ∀ a ≤ 13 * pieces w, w.length < a → w ++ [0] = copied w (13 * pieces w) :=
    fun a ha hlt => (copied_of_lt (by omega)).symm
  have hlast : i = 0 → 13 * (pieces w - 1 - i) + 13 = 13 * pieces w := by omega
  have hend : 13 * (pieces w - 1 - i) + 13 ≤ 13 * pieces w := by omega
  have h1 : ∀ j < 5, dir.load (d + 32 * i + 1 + 2 * j) 2
      = paddedUnit w (13 * (pieces w - 1 - i) + j) :=
    h.field hi (show 0 + 5 ≤ 13 by decide) (show ∀ j < 5, _ = 1 + 2 * j by decide)
  have h2 := h.field hi (show 5 + 6 ≤ 13 by decide) (show ∀ j < 6, _ = 14 + 2 * j by decide)
  have h3 := h.field hi (show 11 + 2 ≤ 13 by decide) (show ∀ j < 2, _ = 28 + 2 * j by decide)
  generalize 13 * (pieces w - 1 - i) = a at hlast hend h1 h2 h3
  rw [longNameLoop_fields, copyField_padded h.length.2 hw (by decide) h1]
  by_cases ha : w.length < a
  · rw [if_pos ha, if_pos (by omega), hall a (by omega) ha]
  rw [if_neg ha, copyField_padded h.length.2 hw (by decide) h2]
  by_cases ha : w.length < a + 5
  · rw [if_pos ha, if_pos (by omega), hall _ (by omega) ha]
  rw [if_neg ha, show a + 5 + 6 = a + 11 from rfl, copyField_padded h.length.2 hw (by decide) h3]
  by_cases ha : w.length < a + 11
  · rw [if_pos ha, if_pos ha, hall _ (by omega) ha]
  rw [if_neg ha, if_neg ha, show a + 11 + 2 = a + 13 from rfl]
  by_cases hi0 : i = 0
  · rw [if_pos ((h.mark i hi).mpr hi0), if_pos hi0, hlast hi0]
  · rw [if_neg (fun hne => hi0 ((h.mark i hi).mp hne)), if_neg hi0]

/-- The entries from the last piece to the first put the name together. -/
theorem longNameLoop_copies {w : List Nat} (h : StoresLong dir d w) : ∀ i < pieces w,
    longNameLoop dir d (i + 1) (copied w (13 * (pieces w - 1 - i)))
      = .ok (some (copied w (13 * pieces w))) := by
  intro i
  induction i with
  | zero =>
    intro hi
    rw [longNameLoop_entry h hi, if_pos rfl, ite_self]
  | succ i ih =>
    intro hi
    have hnext : 13 * (pieces w - 1 - (i + 1)) + 13 = 13 * (pieces w - 1 - i) := by omega
    rw [longNameLoop_entry h hi, hnext, ih (by omega), ite_self, ite_self]

theorem StoresLong.pieces_pos {w : List Nat} (h : StoresLong dir d w) : 0 < pieces w := by
  have hlen := h.length.1
  unfold pieces
  omega

theorem length_le_pieces (w : List Nat) : w.length ≤ 13 * pieces w := by
  unfold pieces
  omega

/-- A stored long name is read back. -/
theorem readName_long {w : List Nat} (h : StoresLong dir d w) (hmax : pieces w ≤ max) {cap : Nat}
    (hcap : (utf8Name w).length < cap) :
    readName dir d max cap = .ok (some (pieces w, utf8Name w)) := by
  have hpos := h.pieces_pos
  have hmark : dir d &&& 0x40 ≠ 0 := (h.mark 0 hpos).mpr rfl
  have hused : dir d ≠ 0x00 := fun hzero => hmark (by rw [hzero]; rfl)
  have hcopied : longNameLoop dir d (pieces w) [] = .ok (some (copied w (13 * pieces w))) := by
    have hloop := longNameLoop_copies h (pieces w - 1) (by omega)
    have hstart : copied w (13 * (pieces w - 1 - (pieces w - 1))) = [] := by simp [copied]
    rwa [hstart, Nat.sub_add_cancel hpos] at hloop
  have hlen := le_utf8Name_length w
  have hutf8 : strUnicodeToUtf8 (unitAt (copied w (13 * pieces w))) cap 0 = some (utf8Name w) := by
    rw [unitAt_copied (length_le_pieces w)]
    exact strUnicodeToUtf8_eq (fun u hu => ⟨(h.units u hu).1, (h.units u hu).2.1⟩)
      (Nat.zero_le _) (by omega)
  rw [readName_long_eq hpos hmax hused h.attr h.short, hcopied, ok_bind, nameOfUnits, nameOf, hutf8]
  exact if_pos hcap

/-! ## Short names on the disk -/

/-- A character of a short name. -/
def IsNameByte (b : UInt8) : Prop := b ≠ 0x20 ∧ b ≠ 0x00 ∧ b ≠ 0x2e

/-- The entries of a directory for itself and for the one above it. -/
def IsDotName (base ext : List UInt8) : Prop := (base = [0x2e] ∨ base = [0x2e, 0x2e]) ∧ ext = []

/-- A base and an extension are stored at `d`, filled up with spaces. -/
structure StoresShort (dir : Mem) (d : Nat) (base ext : List UInt8) : Prop where
  baseLength : 1 ≤ base.length ∧ base.length ≤ 8
  extLength : ext.length ≤ 3
  bytes : ((∀ b ∈ base, IsNameByte b) ∧ ∀ b ∈ ext, IsNameByte b) ∨ IsDotName base ext
  storedBase : dir.bytes d 8 = base ++ List.replicate (8 - base.length) 0x20
  storedExt : dir.bytes (d + 8) 3 = ext ++ List.replicate (3 - ext.length) 0x20
  short : dir (d + 11) ≠ attrLongName

/-- The base, with a point and the extension behind it if there is one. -/
def joinedName (base ext : List UInt8) : List UInt8 := if ext = [] then base else base ++ 0x2e :: ext

/-- The spaces at the end are cut off. -/
theorem upToSpace_padded {s : List UInt8} (h : ∀ b ∈ s, b ≠ 0x20 ∧ b ≠ 0x00) (n : Nat) :
    upToSpace (s ++ List.replicate n 0x20) = s := by
  unfold upToSpace
  rw [List.takeWhile_append_of_pos fun b hb => by simpa using h b hb]
  cases n with
  | zero => simp
  | succ n => simp [List.replicate_succ]

theorem StoresShort.base_ne_space {base ext : List UInt8} (h : StoresShort dir d base ext) :
    ∀ b ∈ base, b ≠ 0x20 ∧ b ≠ 0x00 := by
  intro b hb
  rcases h.bytes with ⟨hbase, -⟩ | ⟨rfl | rfl, -⟩
  · exact ⟨(hbase b hb).1, (hbase b hb).2.1⟩
  · rw [List.mem_singleton.mp hb]
    decide
  · have hdot : b = 0x2e := by simpa using hb
    rw [hdot]
    decide

/-- The first byte of the extension is a space exactly if there is none. -/
theorem StoresShort.ext_blank {base ext : List UInt8} (h : StoresShort dir d base ext) :
    dir (d + 8) = 0x20 ↔ ext = [] := by
  have hfirst : (dir.bytes (d + 8) 3)[0]? = some (dir (d + 8)) := Mem.getElem?_bytes dir (by decide)
  rw [h.storedExt] at hfirst
  cases ext with
  | nil =>
    have hspace : dir (d + 8) = 0x20 := (Option.some.inj hfirst).symm
    simp [hspace]
  | cons b ext =>
    have hb : b = dir (d + 8) := Option.some.inj hfirst
    rw [← hb]
    refine ⟨fun hspace => ?_, fun h => by cases h⟩
    rcases h.bytes with ⟨-, hext⟩ | ⟨-, hnil⟩
    · exact absurd hspace (hext b List.mem_cons_self).1
    · cases hnil

/-- A stored short name is read back. -/
theorem readName_shortEntry {base ext : List UInt8} (h : StoresShort dir d base ext) (cap : Nat) :
    readName dir d max cap = .ok (some (0, joinedName base ext)) := by
  have hused : dir d ≠ 0x00 := by
    have hfirst : (dir.bytes d 8)[0]? = some (dir d) := Mem.getElem?_bytes dir (by decide)
    rw [h.storedBase, List.getElem?_append_left h.baseLength.1] at hfirst
    have hmem : dir d ∈ base := List.mem_of_getElem? hfirst
    exact (h.base_ne_space _ hmem).2
  have hbase : upToSpace (dir.bytes d 8) = base := by
    rw [h.storedBase]
    exact upToSpace_padded h.base_ne_space _
  rw [readName, if_neg hused, if_pos h.short, shortName, hbase, h.storedExt]
  change Except.ok (some (0, _)) = _
  congr 3
  by_cases hext : ext = []
  · rw [joinedName, if_pos hext]
    exact if_pos (.inr (.inr (h.ext_blank.mpr hext)))
  · -- a name with an extension is not one of the names with points
    obtain ⟨hb, he⟩ := h.bytes.resolve_right fun hdot => hext hdot.2
    have hdot : ∀ b ∈ base, b ≠ 0x2e := fun b hb' => (hb b hb').2.2
    have hne : ¬ (strcmp base [0x2e] = 0 ∨ strcmp base [0x2e, 0x2e] = 0 ∨ dir (d + 8) = 0x20) := by
      rw [strcmp_eq_zero, strcmp_eq_zero, h.ext_blank]
      rintro (rfl | rfl | hnil)
      · exact hdot 0x2e List.mem_cons_self rfl
      · exact hdot 0x2e List.mem_cons_self rfl
      · exact hext hnil
    rw [if_neg hne, joinedName, if_neg hext]
    have hassoc : base ++ 0x2e :: (ext ++ List.replicate (3 - ext.length) 0x20)
        = base ++ 0x2e :: ext ++ List.replicate (3 - ext.length) 0x20 := by simp
    rw [hassoc]
    refine upToSpace_padded (fun b hb' => ?_) _
    rcases List.mem_append.mp hb' with hb' | hb'
    · exact h.base_ne_space b hb'
    · rcases List.mem_cons.mp hb' with rfl | hb'
      · decide
      · exact ⟨(he b hb').1, (he b hb').2.1⟩

/-! ## Both encodings -/

/--
`read_name` inverts both encodings: a name of 1 to 255 units that is stored in long entries is
read back as its UTF-8 encoding, with the number of these entries, and a short entry as its base
and extension.
-/
theorem readName_inverts (dir : Mem) (d max : Nat) :
    (∀ w, StoresLong dir d w → pieces w ≤ max → ∀ cap, (utf8Name w).length < cap →
      readName dir d max cap = .ok (some (pieces w, utf8Name w))) ∧
    ∀ base ext, StoresShort dir d base ext → ∀ cap,
      readName dir d max cap = .ok (some (0, joinedName base ext)) :=
  ⟨fun _ h hmax _ hcap => readName_long h hmax hcap, fun _ _ h cap => readName_shortEntry h cap⟩

/-- The name `A` in a long entry and, behind it, in a short one. -/
def nameSector : Mem := fun i =>
  if i = 11 then 0x0f
  else if i = 0 ∨ i = 1 ∨ i = 32 then 0x41
  else if 2 ≤ i ∧ i ≤ 4 then 0
  else if i < 32 then 0xff
  else 0x20

theorem nameSector_long : StoresLong nameSector 0 [0x41] where
  length := by decide
  units := by decide
  attr := by decide
  mark := by decide
  stored := by decide
  short := by decide

theorem nameSector_short : StoresShort nameSector 32 [0x41] [] where
  baseLength := by decide
  extLength := by decide
  bytes := .inl ⟨List.forall_mem_singleton.mpr ⟨by decide, by decide, by decide⟩,
    fun _ hb => (List.not_mem_nil hb).elim⟩
  storedBase := by decide +kernel
  storedExt := by decide +kernel
  short := by decide

theorem readName_inverts_A : readName nameSector 0 1 256 = .ok (some (1, [0x41])) ∧
    readName nameSector 32 1 256 = .ok (some (0, [0x41])) :=
  ⟨(readName_inverts nameSector 0 1).1 [0x41] nameSector_long (by decide) 256 (by decide),
    (readName_inverts nameSector 32 1).2 [0x41] [] nameSector_short 256⟩

end Raincloud
