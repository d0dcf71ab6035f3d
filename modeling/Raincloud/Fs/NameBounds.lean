import Raincloud.Fs.NameEncoding

/-!
# The bounds of `read_name`

`read_name` looks at an entry before it tests whether it is one of the directory, at both ends,
and counts neither the units nor the bytes that it writes. Here every access is checked.
-/

set_option linter.style.nameCheck false

namespace Raincloud

open Infra

variable {dir : Mem} {d max k : Nat}

/-! ## Checked accesses -/

/-- An access outside the buffers of `read_name`. -/
inductive Stray where
  /-- An entry that is not in the directory. -/
  | entry (i : Int)
  /-- A unit behind the conversion buffer. -/
  | unit
  /-- A byte behind the name. -/
  | name
  deriving DecidableEq

/-- Entry `i` is read. -/
def touchEntry (max : Nat) (i : Int) : Except Stray Unit :=
  if 0 ≤ i ∧ i < max then .ok () else .error (.entry i)

/-- The first `n` units of the conversion buffer are used, which has 512 bytes. -/
def touchUnits (n : Nat) : Except Stray Unit := if n ≤ 256 then .ok () else .error .unit

/-- The first `n` bytes of the name are written. -/
def touchName (n : Nat) : Except Stray Unit := if n ≤ 256 then .ok () else .error .name

def shortNameChecked (dir : Mem) (entry : Nat) : Except Stray (List UInt8) := do
  let base := upToSpace (dir.bytes entry 8)
  touchName 9
  if strcmp base [0x2e] = 0 ∨ strcmp base [0x2e, 0x2e] = 0 ∨ dir (entry + 8) = 0x20 then return base
  touchName (base.length + 5)
  return upToSpace (base ++ 0x2e :: dir.bytes (entry + 8) 3)

/-- The first loop: forwards over the long entries. -/
def countLongChecked (dir : Mem) (dirEntry max : Nat) : Nat → Nat → Except Stray (Option Nat)
  | 0, _ => .ok none
  | fuel + 1, n => do
    touchEntry max n
    if dir (dirEntry + 32 * n + 11) = attrLongName then
      if max < n + 1 then return none
      countLongChecked dir dirEntry max fuel (n + 1)
    else return some n

/-- `LDIR_Name1`, `LDIR_Name2` and `LDIR_Name3` of an entry, with their numbers of units. -/
def nameFields (entry : Nat) : List (Nat × Nat) := [(entry + 1, 5), (entry + 14, 6), (entry + 28, 2)]

/-- The fields of an entry are copied; whether one of them begins with 0xFFFF. -/
def copyFields (dir : Mem) : List (Nat × Nat) → List Nat → Except Stray (List Nat × Bool)
  | [], units => return (units, false)
  | (src, n) :: fields, units => do
    if dir.load src 2 = 0xffff then return (units, true)
    let more := wstrncpy dir src n
    touchUnits (units.length + more.length)
    copyFields dir fields (units ++ more)

/-- The second loop: backwards, from the entry before `dirEntry + 32 * k`. -/
def longNameLoopChecked (dir : Mem) (dirEntry max : Nat) :
    Nat → List Nat → Except Stray (Option (List Nat))
  | k, units => do
    touchEntry max ((k : Int) - 1)
    let entry := dirEntry + 32 * k - 32
    let (units, padded) ← copyFields dir (nameFields entry) units
    if padded then return some units
    match k with
    | 0 => return none
    | k + 1 =>
      if dir entry &&& 0x40 ≠ 0 then return some units
      longNameLoopChecked dir dirEntry max k units

/-- `str_unicode_to_utf8` from the unit `i` on, behind the bytes of `name`. -/
def strUnicodeToUtf8Checked (units : List Nat) :
    Nat → Nat → List UInt8 → Except Stray (List UInt8)
  | 0, _, _ => .error .unit
  | room + 1, i, name => do
    touchUnits (i + 1)
    if unitAt units i = 0x0000 then
      touchName (name.length + 1)
      return name
    let name := name ++ unicodeIntoUtf8 (unitAt units i)
    touchName name.length
    strUnicodeToUtf8Checked units room (i + 1) name

/-- `read_name` with a name of 256 bytes. -/
def readNameChecked (dir : Mem) (dirEntry max : Nat) :
    Except Stray (Option (Nat × List UInt8)) := do
  touchEntry max 0
  -- empty directory
  if dir dirEntry = 0x00 then return none
  -- short name
  if dir (dirEntry + 11) ≠ attrLongName then return some (0, ← shortNameChecked dir dirEntry)
  -- long name
  match ← countLongChecked dir dirEntry max (max + 2) 0 with
  | none => return none
  | some offset =>
    touchEntry max ((offset : Int) - 1)
    if dir (dirEntry + 32 * offset - 32 + 11) ≠ attrLongName then return none
    match ← longNameLoopChecked dir dirEntry max offset [] with
    | none => return none
    | some units => return some (offset, ← strUnicodeToUtf8Checked units 257 0 [])

theorem touchEntry_ok {i : Nat} (h : i < max) : touchEntry max i = .ok () :=
  if_pos ⟨Int.natCast_nonneg i, Int.ofNat_lt.mpr h⟩

theorem touchEntry_stray {i : Int} (h : i < 0 ∨ (max : Int) ≤ i) :
    touchEntry max i = .error (.entry i) :=
  if_neg fun hin => h.elim (Int.not_lt.mpr hin.1) (Int.not_le.mpr hin.2)

/-! ## Short names -/

/-- A short name has at most 12 bytes. -/
theorem shortNameChecked_eq (dir : Mem) (entry : Nat) :
    shortNameChecked dir entry = .ok (shortName dir entry) := by
  have hlen : (upToSpace (dir.bytes entry 8)).length ≤ 8 :=
    (List.takeWhile_sublist _).length_le.trans (Mem.length_bytes ..).le
  unfold shortNameChecked shortName
  dsimp only
  rw [touchName, if_pos (by decide), ok_bind]
  split
  · rfl
  · rw [touchName, if_pos (by omega), ok_bind]
    rfl

/-! ## Long entries -/

/-- The first entry that is not long is found, if it is in the directory. -/
theorem countLongChecked_eq (hk : k < max) (hlong : ∀ i < k, dir (d + 32 * i + 11) = attrLongName)
    (hshort : dir (d + 32 * k + 11) ≠ attrLongName) :
    ∀ fuel n, n ≤ k → k < fuel + n → countLongChecked dir d max fuel n = .ok (some k)
  | 0, n, hn, hfuel => by omega
  | fuel + 1, n, hn, hfuel => by
    rw [countLongChecked, touchEntry_ok (by omega), ok_bind]
    by_cases hn' : n = k
    · rw [hn', if_neg hshort]
      rfl
    · rw [if_pos (hlong n (by omega)), if_neg (by omega),
        countLongChecked_eq hk hlong hshort fuel (n + 1) (by omega) (by omega)]

/-- Otherwise the entry behind the directory is read. -/
theorem countLongChecked_stray (hlong : ∀ i < max, dir (d + 32 * i + 11) = attrLongName) :
    ∀ fuel n, n ≤ max → max < fuel + n →
      countLongChecked dir d max fuel n = .error (.entry max)
  | 0, n, hn, hfuel => by omega
  | fuel + 1, n, hn, hfuel => by
    rw [countLongChecked]
    by_cases hn' : n = max
    · rw [hn', touchEntry_stray (.inr le_rfl)]
      rfl
    · rw [touchEntry_ok (by omega), ok_bind, if_pos (hlong n (by omega)), if_neg (by omega),
        countLongChecked_stray hlong fuel (n + 1) (by omega) (by omega)]

/-! ## Units -/

/-- A field that begins with 0xFFFF ends the name. -/
def IsPadded (dir : Mem) (fields : List (Nat × Nat)) : Prop :=
  ∃ f ∈ fields, dir.load f.1 2 = 0xffff

instance (dir : Mem) (fields : List (Nat × Nat)) : Decidable (IsPadded dir fields) := by
  unfold IsPadded
  infer_instance

/-- The units in the fields, up to one that begins with 0xFFFF. -/
def heldUnits (dir : Mem) : List (Nat × Nat) → List Nat
  | [] => []
  | (src, n) :: fields =>
    if dir.load src 2 = 0xffff then [] else wstrncpy dir src n ++ heldUnits dir fields

/-- The name begins in this entry: it is marked, or the name ends in it. -/
def BeginsIn (dir : Mem) (entry : Nat) : Prop :=
  IsPadded dir (nameFields entry) ∨ dir entry &&& 0x40 ≠ 0

instance (dir : Mem) (entry : Nat) : Decidable (BeginsIn dir entry) := by
  unfold BeginsIn
  infer_instance

/-- The units of a name in `k` long entries, from the last of them back. -/
def storedUnits (dir : Mem) (d : Nat) : Nat → List Nat
  | 0 => []
  | k + 1 => heldUnits dir (nameFields (d + 32 * k)) ++
      if BeginsIn dir (d + 32 * k) then [] else storedUnits dir d k

theorem copyFields_eq : ∀ {fields : List (Nat × Nat)} {units : List Nat}, units.length ≤ 256 →
    copyFields dir fields units = if units.length + (heldUnits dir fields).length ≤ 256
      then .ok (units ++ heldUnits dir fields, decide (IsPadded dir fields)) else .error .unit
  | [], units, h => by
    rw [copyFields, heldUnits, List.length_nil, Nat.add_zero, if_pos h, List.append_nil]
    rfl
  | (src, n) :: fields, units, h => by
    rw [copyFields, heldUnits]
    by_cases hpad : dir.load src 2 = 0xffff
    · have hpadded : IsPadded dir ((src, n) :: fields) := ⟨(src, n), List.mem_cons_self, hpad⟩
      rw [if_pos hpad, if_pos hpad, List.length_nil, Nat.add_zero, if_pos h, List.append_nil,
        decide_eq_true hpadded]
      rfl
    · have hpadded : IsPadded dir ((src, n) :: fields) ↔ IsPadded dir fields := by
        simp [IsPadded, hpad]
      rw [if_neg hpad, if_neg hpad, List.length_append, ← Nat.add_assoc, ← List.append_assoc]
      dsimp only
      by_cases hroom : units.length + (wstrncpy dir src n).length ≤ 256
      · rw [touchUnits, if_pos hroom, ok_bind, copyFields_eq (by rwa [List.length_append]),
          List.length_append, decide_eq_decide.mpr hpadded]
      · rw [touchUnits, if_neg hroom, if_neg (by omega)]
        rfl

/-- An entry is copied, and the one before it if the name does not begin in it. -/
theorem longNameLoopChecked_step {units : List Nat} (hk : k < max) (hunits : units.length ≤ 256) :
    longNameLoopChecked dir d max (k + 1) units =
      if units.length + (heldUnits dir (nameFields (d + 32 * k))).length ≤ 256 then
        if BeginsIn dir (d + 32 * k) then
          .ok (some (units ++ heldUnits dir (nameFields (d + 32 * k))))
        else longNameLoopChecked dir d max k (units ++ heldUnits dir (nameFields (d + 32 * k)))
      else .error .unit := by
  have hentry : d + 32 * (k + 1) - 32 = d + 32 * k := by omega
  have hindex : ((k + 1 : Nat) : Int) - 1 = k := by omega
  rw [longNameLoopChecked, hindex, touchEntry_ok hk, ok_bind, hentry]
  dsimp only
  rw [copyFields_eq hunits]
  by_cases hroom : units.length + (heldUnits dir (nameFields (d + 32 * k))).length ≤ 256
  · rw [if_pos hroom, if_pos hroom, ok_bind]
    by_cases hpad : IsPadded dir (nameFields (d + 32 * k))
    · have hbegin : BeginsIn dir (d + 32 * k) := .inl hpad
      rw [if_pos hbegin, decide_eq_true hpad]
      rfl
    by_cases hmark : dir (d + 32 * k) &&& 0x40 ≠ 0
    · have hbegin : BeginsIn dir (d + 32 * k) := .inr hmark
      rw [if_pos hbegin, decide_eq_false hpad]
      exact if_pos hmark
    · have hbegin : ¬ BeginsIn dir (d + 32 * k) := not_or.mpr ⟨hpad, hmark⟩
      rw [if_neg hbegin, decide_eq_false hpad]
      exact if_neg hmark
  · rw [if_neg hroom, if_neg hroom]
    rfl

/-- The units are copied if the name begins in one of the entries and they fit. -/
theorem longNameLoopChecked_ok_iff {x : Option (List Nat)} : ∀ {k : Nat} {units : List Nat},
    k ≤ max → units.length ≤ 256 → (longNameLoopChecked dir d max k units = .ok x ↔
      (∃ i < k, BeginsIn dir (d + 32 * i)) ∧ units.length + (storedUnits dir d k).length ≤ 256 ∧
        x = some (units ++ storedUnits dir d k))
  | 0, units, hk, hunits => by
    rw [longNameLoopChecked, touchEntry_stray (.inl (by decide))]
    constructor
    · intro h
      cases h
    · rintro ⟨⟨i, hi, -⟩, -⟩
      exact (Nat.not_lt_zero i hi).elim
  | k + 1, units, hk, hunits => by
    rw [longNameLoopChecked_step hk hunits, storedUnits]
    by_cases hroom : units.length + (heldUnits dir (nameFields (d + 32 * k))).length ≤ 256
    · rw [if_pos hroom]
      by_cases hbegin : BeginsIn dir (d + 32 * k)
      · rw [if_pos hbegin, if_pos hbegin, List.append_nil, Except.ok.injEq, eq_comm]
        exact ⟨fun h => ⟨⟨k, Nat.lt_succ_self k, hbegin⟩, hroom, h⟩, fun h => h.2.2⟩
      · have hlater : (∃ i < k + 1, BeginsIn dir (d + 32 * i)) ↔
            ∃ i < k, BeginsIn dir (d + 32 * i) := by
          rw [Nat.exists_lt_succ_right]
          exact or_iff_left hbegin
        rw [if_neg hbegin, if_neg hbegin, hlater, List.length_append, ← Nat.add_assoc,
          ← List.append_assoc, longNameLoopChecked_ok_iff (by omega) (by rwa [List.length_append]),
          List.length_append]
    · rw [if_neg hroom, List.length_append]
      constructor
      · intro h
        cases h
      · rintro ⟨-, hlen, -⟩
        omega

/-- The fields as `read_name` copies them, one behind the other. -/
theorem copyField_foldr {rest : List Nat → Except FatFault (Option (List Nat))} :
    ∀ {fields : List (Nat × Nat)} {units : List Nat},
      units.length + (heldUnits dir fields).length ≤ 256 →
        fields.foldr (fun f rest units => copyField dir f.1 f.2 units rest) rest units
          = if IsPadded dir fields then .ok (some (units ++ heldUnits dir fields))
            else rest (units ++ heldUnits dir fields)
  | [], units, _ => by
    have hpadded : ¬ IsPadded dir [] := fun ⟨_, hf, _⟩ => List.not_mem_nil hf
    rw [List.foldr_nil, if_neg hpadded, heldUnits, List.append_nil]
  | (src, n) :: fields, units, h => by
    rw [heldUnits] at h ⊢
    rw [List.foldr_cons, copyField]
    by_cases hpad : dir.load src 2 = 0xffff
    · have hpadded : IsPadded dir ((src, n) :: fields) := ⟨(src, n), List.mem_cons_self, hpad⟩
      rw [if_pos hpad, if_pos hpad, if_pos hpadded, List.append_nil]
    · have hpadded : IsPadded dir ((src, n) :: fields) ↔ IsPadded dir fields := by
        simp [IsPadded, hpad]
      rw [if_neg hpad, List.length_append, ← Nat.add_assoc] at h
      have hroom : ¬ 256 < units.length + (wstrncpy dir src n).length := by omega
      rw [if_neg hpad, if_neg hpad, appendUnits, if_neg hroom, ok_bind,
        copyField_foldr (by rwa [List.length_append]), ← List.append_assoc]
      simp only [hpadded]

/-- Units that fit are copied by `read_name` as well. -/
theorem longNameLoop_stored : ∀ {k : Nat} {units : List Nat}, (∃ i < k, BeginsIn dir (d + 32 * i)) →
    units.length + (storedUnits dir d k).length ≤ 256 →
      longNameLoop dir d k units = .ok (some (units ++ storedUnits dir d k))
  | 0, _, ⟨i, hi, _⟩, _ => (Nat.not_lt_zero i hi).elim
  | k + 1, units, hbegin, hroom => by
    rw [storedUnits, List.length_append, ← Nat.add_assoc] at hroom
    have hfields : longNameLoop dir d (k + 1) units =
        if IsPadded dir (nameFields (d + 32 * k)) then
          .ok (some (units ++ heldUnits dir (nameFields (d + 32 * k))))
        else if dir (d + 32 * k) &&& 0x40 ≠ 0 then
          .ok (some (units ++ heldUnits dir (nameFields (d + 32 * k))))
        else longNameLoop dir d k (units ++ heldUnits dir (nameFields (d + 32 * k))) :=
      (longNameLoop_fields dir d k units).trans (copyField_foldr (Nat.le_of_add_right_le hroom))
    rw [hfields, storedUnits, ← List.append_assoc]
    by_cases hpad : IsPadded dir (nameFields (d + 32 * k))
    · have hb : BeginsIn dir (d + 32 * k) := .inl hpad
      rw [if_pos hpad, if_pos hb, List.append_nil]
    by_cases hmark : dir (d + 32 * k) &&& 0x40 ≠ 0
    · have hb : BeginsIn dir (d + 32 * k) := .inr hmark
      rw [if_neg hpad, if_pos hmark, if_pos hb, List.append_nil]
    · have hb : ¬ BeginsIn dir (d + 32 * k) := not_or.mpr ⟨hpad, hmark⟩
      rw [if_neg hb] at hroom
      rw [if_neg hpad, if_neg hmark, if_neg hb]
      refine longNameLoop_stored ?_ (by rwa [List.length_append])
      rw [Nat.exists_lt_succ_right] at hbegin
      exact hbegin.resolve_right hb

/-! ## Bytes -/

/-- The units from `i` on, up to the first zero. -/
def unitsFrom (units : List Nat) (i : Nat) : List Nat := (units.drop i).takeWhile (· ≠ 0)

theorem unitsFrom_of_zero {units : List Nat} {i : Nat} (h : unitAt units i = 0) :
    unitsFrom units i = [] := by
  unfold unitsFrom
  by_cases hi : i < units.length
  · rw [unitAt, List.getD_eq_getElem _ _ hi] at h
    rw [List.drop_eq_getElem_cons hi, h]
    rfl
  · rw [List.drop_eq_nil_of_le (Nat.le_of_not_lt hi)]
    rfl

theorem unitsFrom_of_ne {units : List Nat} {i : Nat} (h : unitAt units i ≠ 0) :
    unitsFrom units i = unitAt units i :: unitsFrom units (i + 1) := by
  have hi : i < units.length := by
    by_contra hi
    exact h (List.getD_eq_default _ _ (Nat.le_of_not_lt hi))
  have hunit : unitAt units i = units[i] := List.getD_eq_getElem _ _ hi
  rw [hunit] at h
  rw [unitsFrom, List.drop_eq_getElem_cons hi, List.takeWhile_cons_of_pos (by simpa using h), hunit]
  rfl

theorem strUnicodeToUtf8_units {units : List Nat} : ∀ {room i : Nat},
    (unitsFrom units i).length < room → strUnicodeToUtf8 (unitAt units) room i
      = some ((unitsFrom units i).flatMap unicodeIntoUtf8)
  | 0, i, h => (Nat.not_lt_zero _ h).elim
  | room + 1, i, h => by
    rw [strUnicodeToUtf8]
    by_cases hzero : unitAt units i = 0x0000
    · rw [if_pos hzero, unitsFrom_of_zero hzero]
      rfl
    · rw [unitsFrom_of_ne hzero, List.length_cons] at h
      rw [if_neg hzero, unitsFrom_of_ne hzero, strUnicodeToUtf8_units (Nat.lt_of_succ_lt_succ h)]
      rfl

/-- The bytes are written if they fit, with their terminator. -/
theorem strUnicodeToUtf8Checked_ok_iff {units : List Nat} {s : List UInt8} :
    ∀ {room i : Nat} {name : List UInt8}, 256 < room + i → i ≤ name.length →
      (strUnicodeToUtf8Checked units room i name = .ok s ↔
        s = name ++ (unitsFrom units i).flatMap unicodeIntoUtf8 ∧ s.length < 256)
  | 0, i, name, hroom, hi => by
    constructor
    · intro h
      cases h
    · rintro ⟨rfl, hlen⟩
      rw [List.length_append] at hlen
      omega
  | room + 1, i, name, hroom, hi => by
    rw [strUnicodeToUtf8Checked]
    by_cases hin : i + 1 ≤ 256
    · rw [touchUnits, if_pos hin, ok_bind]
      by_cases hzero : unitAt units i = 0x0000
      · rw [if_pos hzero, unitsFrom_of_zero hzero, List.flatMap_nil, List.append_nil, touchName]
        by_cases hlen : name.length + 1 ≤ 256
        · rw [if_pos hlen, ok_bind]
          constructor
          · rintro ⟨⟩
            exact ⟨rfl, hlen⟩
          · rintro ⟨rfl, -⟩
            rfl
        · rw [if_neg hlen]
          constructor
          · intro h
            cases h
          · rintro ⟨rfl, hs⟩
            exact absurd hs hlen
      · have hpos := unicodeIntoUtf8_length_pos (unitAt units i)
        rw [if_neg hzero, unitsFrom_of_ne hzero, List.flatMap_cons, ← List.append_assoc]
        dsimp only
        rw [touchName]
        by_cases hlen : (name ++ unicodeIntoUtf8 (unitAt units i)).length ≤ 256
        · rw [if_pos hlen, ok_bind]
          exact strUnicodeToUtf8Checked_ok_iff (by omega) (by rw [List.length_append]; omega)
        · rw [if_neg hlen]
          constructor
          · intro h
            cases h
          · rintro ⟨rfl, hs⟩
            rw [List.length_append] at hs
            omega
    · rw [touchUnits, if_neg hin]
      constructor
      · intro h
        cases h
      · rintro ⟨rfl, hs⟩
        rw [List.length_append] at hs
        omega

/-! ## `read_name` -/

/-- Long entries with a short one behind them in the directory, and a name that fits. -/
structure FitsLong (dir : Mem) (d max k : Nat) : Prop where
  room : k < max
  long : ∀ i < k, dir (d + 32 * i + 11) = attrLongName
  short : dir (d + 32 * k + 11) ≠ attrLongName
  begins : ∃ i < k, BeginsIn dir (d + 32 * i)
  units : (storedUnits dir d k).length ≤ 256
  name : (utf8Name ((storedUnits dir d k).takeWhile (· ≠ 0))).length < 256

/-- The entry at `d` is empty or short, or the first of long ones that fit. -/
def NameFits (dir : Mem) (d max : Nat) : Prop :=
  dir d = 0x00 ∨ dir (d + 11) ≠ attrLongName ∨ ∃ k, FitsLong dir d max k

/-- `read_name` does not leave its buffers. -/
def ReadsInside (dir : Mem) (d max : Nat) : Prop := ∃ x, readNameChecked dir d max = .ok x

theorem wstrncpy_lt : ∀ {n src : Nat}, ∀ u ∈ wstrncpy dir src n, u < 2 ^ 16
  | 0, _, _, hu => (List.not_mem_nil hu).elim
  | n + 1, src, u, hu => by
    rw [wstrncpy, List.mem_cons] at hu
    rcases hu with rfl | hu
    · exact Mem.load_lt dir src 2
    · split at hu
      · exact (List.not_mem_nil hu).elim
      · exact wstrncpy_lt u hu

theorem heldUnits_lt : ∀ {fields : List (Nat × Nat)}, ∀ u ∈ heldUnits dir fields, u < 2 ^ 16
  | [], _, hu => (List.not_mem_nil hu).elim
  | (src, n) :: fields, u, hu => by
    rw [heldUnits] at hu
    split at hu
    · exact (List.not_mem_nil hu).elim
    · exact (List.mem_append.mp hu).elim (wstrncpy_lt u) (heldUnits_lt u)

theorem storedUnits_lt : ∀ {k : Nat}, ∀ u ∈ storedUnits dir d k, u < 2 ^ 16
  | 0, _, hu => (List.not_mem_nil hu).elim
  | k + 1, u, hu => by
    rw [storedUnits, List.mem_append] at hu
    refine hu.elim (heldUnits_lt u) fun hu => ?_
    split at hu
    · exact (List.not_mem_nil hu).elim
    · exact storedUnits_lt u hu

/-- The bytes of the units are their encoding. -/
theorem flatMap_unicodeIntoUtf8 {w : List Nat} (h : ∀ u ∈ w, u < 2 ^ 16) :
    w.flatMap unicodeIntoUtf8 = utf8Name w :=
  List.flatMap_congr fun u hu => unicodeIntoUtf8_eq (h u hu)

theorem storedUnits_bytes : (unitsFrom (storedUnits dir d k) 0).flatMap unicodeIntoUtf8
    = utf8Name ((storedUnits dir d k).takeWhile (· ≠ 0)) :=
  flatMap_unicodeIntoUtf8 fun u hu => storedUnits_lt u ((List.takeWhile_sublist _).subset hu)

section Read

variable (hmax : 1 ≤ max)

include hmax

theorem touchEntry_first : touchEntry max 0 = .ok () := if_pos ⟨le_rfl, by omega⟩

theorem readNameChecked_empty (h : dir d = 0x00) : readNameChecked dir d max = .ok none := by
  rw [readNameChecked, touchEntry_first hmax, ok_bind, if_pos h]
  rfl

theorem readNameChecked_short (hused : dir d ≠ 0x00) (h : dir (d + 11) ≠ attrLongName) :
    readNameChecked dir d max = .ok (some (0, shortName dir d)) := by
  rw [readNameChecked, touchEntry_first hmax, ok_bind, if_neg hused, if_pos h,
    shortNameChecked_eq, ok_bind]
  rfl

/-- In a directory of long entries only, the one behind it is read. -/
theorem readNameChecked_stray (hused : dir d ≠ 0x00)
    (hlong : ∀ i < max, dir (d + 32 * i + 11) = attrLongName) :
    readNameChecked dir d max = .error (.entry max) := by
  rw [readNameChecked, touchEntry_first hmax, ok_bind, if_neg hused,
    if_neg (not_not_intro (hlong 0 hmax)), countLongChecked_stray hlong _ 0 (by omega) (by omega)]
  rfl

end Read

section Long

variable (hk : 0 < k) (hroom : k < max) (hused : dir d ≠ 0x00)
  (hlong : ∀ i < k, dir (d + 32 * i + 11) = attrLongName)
  (hshort : dir (d + 32 * k + 11) ≠ attrLongName)

include hk hroom hused hlong hshort

/-- Long entries that end in the directory are copied from the last of them back. -/
theorem readNameChecked_long : readNameChecked dir d max
    = longNameLoopChecked dir d max k [] >>= fun found =>
      match found with
      | none => .ok none
      | some units => strUnicodeToUtf8Checked units 257 0 [] >>= fun s => .ok (some (k, s)) := by
  have hlast : dir (d + 32 * k - 32 + 11) = attrLongName := by
    have h := hlong (k - 1) (by omega)
    rwa [show d + 32 * (k - 1) = d + 32 * k - 32 by omega] at h
  have hindex : touchEntry max ((k : Int) - 1) = .ok () := if_pos (by omega)
  rw [readNameChecked, touchEntry_first (by omega), ok_bind, if_neg hused,
    if_neg (not_not_intro (hlong 0 hk)),
    countLongChecked_eq hroom hlong hshort _ 0 (by omega) (by omega), ok_bind]
  dsimp only
  rw [hindex, ok_bind, if_neg (not_not_intro hlast)]
  rfl

/-- What is read is the encoding of their units. -/
theorem readNameChecked_ok_iff {x : Option (Nat × List UInt8)} :
    readNameChecked dir d max = .ok x ↔ FitsLong dir d max k ∧
      x = some (k, utf8Name ((storedUnits dir d k).takeWhile (· ≠ 0))) := by
  have hconvert : ∀ s, strUnicodeToUtf8Checked (storedUnits dir d k) 257 0 [] = .ok s ↔
      s = utf8Name ((storedUnits dir d k).takeWhile (· ≠ 0)) ∧ s.length < 256 := fun s => by
    rw [strUnicodeToUtf8Checked_ok_iff (show 256 < 257 + 0 by decide) (Nat.zero_le _),
      storedUnits_bytes, List.nil_append]
  rw [readNameChecked_long hk hroom hused hlong hshort]
  constructor
  · intro h
    cases hloop : longNameLoopChecked dir d max k [] with
    | error e =>
      rw [hloop] at h
      cases h
    | ok found =>
      obtain ⟨hbegin, hunits, rfl⟩ := (longNameLoopChecked_ok_iff hroom.le (Nat.zero_le _)).mp hloop
      rw [hloop, ok_bind] at h
      dsimp only at h
      rw [List.nil_append] at h
      rw [List.length_nil, Nat.zero_add] at hunits
      cases hs : strUnicodeToUtf8Checked (storedUnits dir d k) 257 0 [] with
      | error e =>
        rw [hs] at h
        cases h
      | ok s =>
        obtain ⟨rfl, hlen⟩ := (hconvert s).mp hs
        rw [hs, ok_bind, Except.ok.injEq] at h
        exact ⟨⟨hroom, hlong, hshort, hbegin, hunits, hlen⟩, h.symm⟩
  · rintro ⟨hfits, rfl⟩
    have hunits : ([] : List Nat).length + (storedUnits dir d k).length ≤ 256 := by
      rw [List.length_nil, Nat.zero_add]
      exact hfits.units
    rw [(longNameLoopChecked_ok_iff hroom.le (Nat.zero_le _)).mpr ⟨hfits.begins, hunits, rfl⟩,
      ok_bind]
    dsimp only
    rw [List.nil_append, (hconvert _).mpr ⟨rfl, hfits.name⟩, ok_bind]

end Long

/-- An entry that is in use and long begins a run of long entries. -/
theorem exists_run (hlong : ∃ i < max, dir (d + 32 * i + 11) ≠ attrLongName) :
    ∃ k < max, (∀ i < k, dir (d + 32 * i + 11) = attrLongName) ∧
      dir (d + 32 * k + 11) ≠ attrLongName := by
  obtain ⟨i, hi, hshort⟩ := hlong
  have hex : ∃ i, dir (d + 32 * i + 11) ≠ attrLongName := ⟨i, hshort⟩
  exact ⟨Nat.find hex, (Nat.find_min' hex hshort).trans_lt hi,
    fun j hj => not_not.mp (Nat.find_min hex hj), Nat.find_spec hex⟩

/-- Inside its buffers `read_name` returns the same. -/
theorem readName_of_checked {x : Option (Nat × List UInt8)} (hmax : 1 ≤ max)
    (h : readNameChecked dir d max = .ok x) : readName dir d max 256 = .ok x := by
  by_cases hused : dir d = 0x00
  · rw [readNameChecked_empty hmax hused] at h
    cases h
    rw [readName, if_pos hused]
    rfl
  by_cases hattr : dir (d + 11) ≠ attrLongName
  · rw [readNameChecked_short hmax hused hattr] at h
    cases h
    rw [readName, if_neg hused, if_pos hattr]
    rfl
  by_cases hend : ∃ i < max, dir (d + 32 * i + 11) ≠ attrLongName
  · obtain ⟨k, hroom, hlong, hshort⟩ := exists_run hend
    have hk : 0 < k := Nat.pos_of_ne_zero fun hk => hattr (by rwa [hk] at hshort)
    obtain ⟨hfits, rfl⟩ := (readNameChecked_ok_iff hk hroom hused hlong hshort).mp h
    have hunits : ([] : List Nat).length + (storedUnits dir d k).length ≤ 256 := by
      rw [List.length_nil, Nat.zero_add]
      exact hfits.units
    have hlt : (unitsFrom (storedUnits dir d k) 0).length < 256 :=
      (le_utf8Name_length _).trans_lt hfits.name
    rw [readName_long_eq hk hroom.le hused hlong hshort, longNameLoop_stored hfits.begins hunits,
      ok_bind, nameOfUnits, nameOf, List.nil_append, strUnicodeToUtf8_units hlt,
      storedUnits_bytes]
    exact if_pos hfits.name
  · push Not at hend
    rw [readNameChecked_stray hmax hused hend] at h
    cases h

/--
`read_name` stays inside its buffers exactly if the entry is empty or short, or if the long
entries from it on end in front of another entry of the directory, the name begins in one of
them, they hold at most 256 units, and the name has at most 255 bytes.
-/
theorem readsInside_iff (hmax : 1 ≤ max) : ReadsInside dir d max ↔ NameFits dir d max := by
  by_cases hused : dir d = 0x00
  · exact iff_of_true ⟨none, readNameChecked_empty hmax hused⟩ (.inl hused)
  by_cases hattr : dir (d + 11) ≠ attrLongName
  · exact iff_of_true ⟨_, readNameChecked_short hmax hused hattr⟩ (.inr (.inl hattr))
  have hfirst : ∀ {k}, dir (d + 32 * k + 11) ≠ attrLongName → 0 < k := fun {k} hshort =>
    Nat.pos_of_ne_zero fun hk => hattr (by rwa [hk] at hshort)
  constructor
  · rintro ⟨x, hx⟩
    by_cases hend : ∃ i < max, dir (d + 32 * i + 11) ≠ attrLongName
    · obtain ⟨k, hroom, hlong, hshort⟩ := exists_run hend
      have hfits := (readNameChecked_ok_iff (hfirst hshort) hroom hused hlong hshort).mp hx
      exact .inr (.inr ⟨k, hfits.1⟩)
    · push Not at hend
      rw [readNameChecked_stray hmax hused hend] at hx
      cases hx
  · rintro (h | h | ⟨k, hfits⟩)
    · exact absurd h hused
    · exact absurd h hattr
    · exact ⟨_, (readNameChecked_ok_iff (hfirst hfits.short) hfits.room hused hfits.long
        hfits.short).mpr ⟨hfits, rfl⟩⟩

/-- A long entry with a short one behind it is read. -/
theorem readsInside_A : ReadsInside nameSector 0 2 :=
  (readsInside_iff (by decide)).mpr (.inr (.inr ⟨1, by decide, by decide, by decide, by decide,
    by decide, by decide⟩))

/-- Without the short one, the entry behind the directory is read. -/
theorem long_entry_strays : readNameChecked nameSector 0 1 = .error (.entry 1) ∧
    ¬ ReadsInside nameSector 0 1 := by
  have hstray : readNameChecked nameSector 0 1 = .error (.entry 1) :=
    readNameChecked_stray le_rfl (by decide) (by decide)
  refine ⟨hstray, fun ⟨x, hx⟩ => ?_⟩
  rw [hstray] at hx
  cases hx

end Raincloud
