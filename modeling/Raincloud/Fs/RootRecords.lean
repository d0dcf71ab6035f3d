import Raincloud.Fs.ClusterChain
import Raincloud.Fs.FatDir
import Mathlib.Data.List.GetD

/-!
# Records of a directory

A directory is a list of records with an entry that has no name behind them. A record has the
entries of its long name, if any, before the entry of the file. Both loops over a directory
go from record to record.
-/

set_option linter.style.nameCheck false

namespace Raincloud

open Infra

/-! ## Records -/

/-- A record by its first entry, the number of its long entries, and its name. -/
structure DirRecord where
  pos : Nat
  long : Nat
  name : List UInt8

/-- The entry behind the record. -/
def DirRecord.next (r : DirRecord) : Nat := r.pos + r.long + 1

/-- The record is in the block, and its name fits `FATFile_Type`. -/
structure RecordAt (dir : Mem) (r : DirRecord) : Prop where
  used : dir (32 + 32 * r.pos) ≠ 0
  long : ∀ i < r.long, dir (32 + 32 * r.pos + 32 * i + 11) = attrLongName
  short : dir (32 + 32 * r.pos + 32 * r.long + 11) ≠ attrLongName
  marked : 0 < r.long → dir (32 + 32 * r.pos) &&& 0x40 ≠ 0
  name : readName dir (32 + 32 * r.pos) r.long 256 = .ok (some (r.long, r.name))

/-- The records from entry `pos` on, and the entry without a name behind them. -/
inductive Records (dir : Mem) (entries : Nat) : Nat → List DirRecord → Nat → Prop
  | stop {pos : Nat} (hpos : pos < entries) (hzero : dir (32 + 32 * pos) = 0) :
      Records dir entries pos [] pos
  | record {r : DirRecord} {rs : List DirRecord} {stop : Nat} (h : RecordAt dir r)
      (hrest : Records dir entries r.next rs stop) : Records dir entries r.pos (r :: rs) stop

/-- The first record of that name. -/
def firstNamed (name : List UInt8) (rs : List DirRecord) : Option DirRecord :=
  rs.find? fun r => r.name = name

theorem Records.pos_lt {dir : Mem} {entries pos stop : Nat} {rs : List DirRecord}
    (h : Records dir entries pos rs stop) : pos < entries := by
  induction h with
  | stop hpos _ => exact hpos
  | @record r _ _ _ _ ih =>
    unfold DirRecord.next at ih
    omega

/-! ## The units of a long name -/

/-- The entries of a record are the same in both blocks. -/
def SameEntries (dir dir' : Mem) (lo hi : Nat) : Prop :=
  ∀ x, 32 + 32 * lo ≤ x → x < 32 + 32 * hi → dir' x = dir x

theorem SameEntries.mono {dir dir' : Mem} {lo hi lo' hi' : Nat} (h : SameEntries dir dir' lo hi)
    (hlo : lo ≤ lo') (hhi : hi' ≤ hi) : SameEntries dir dir' lo' hi' :=
  fun x h1 h2 => h x (by omega) (by omega)

theorem wstrncpy_congr {m m' : Mem} : ∀ {n src : Nat},
    (∀ x, src ≤ x → x < src + 2 * n → m' x = m x) → wstrncpy m' src n = wstrncpy m src n
  | 0, _, _ => rfl
  | n + 1, src, h => by
    rw [wstrncpy, wstrncpy, Mem.load_congr fun x h1 h2 => h x h1 (by omega),
      wstrncpy_congr fun x h1 h2 => h x (by omega) (by omega)]

theorem longNameLoop_succ (dir : Mem) (d k : Nat) (units : List Nat) :
    longNameLoop dir d (k + 1) units = (do
      let entry := d + 32 * (k + 1) - 32
      if dir.load (entry + 1) 2 = 0xffff then return some units
      let units ← appendUnits units (wstrncpy dir (entry + 1) 5)
      if dir.load (entry + 14) 2 = 0xffff then return some units
      let units ← appendUnits units (wstrncpy dir (entry + 14) 6)
      if dir.load (entry + 28) 2 = 0xffff then return some units
      let units ← appendUnits units (wstrncpy dir (entry + 28) 2)
      if dir entry &&& 0x40 ≠ 0 then return some units
      longNameLoop dir d k units) := rfl

/-- The loop over the entries of a long name stops at the first of them, which is marked. -/
theorem longNameLoop_congr {m m' : Mem} {d : Nat} (hmark : m d &&& 0x40 ≠ 0) :
    ∀ k units, (∀ x, d ≤ x → x < d + 32 * (k + 1) → m' x = m x) →
      longNameLoop m' d (k + 1) units = longNameLoop m d (k + 1) units
  | k, units, h => by
    have hentry : d + 32 * (k + 1) - 32 = d + 32 * k := by omega
    have hload : ∀ o, o + 2 ≤ 32 → m'.load (d + 32 * k + o) 2 = m.load (d + 32 * k + o) 2 :=
      fun o ho => Mem.load_congr fun x h1 h2 => h x (by omega) (by omega)
    have hcopy : ∀ o n, o + 2 * n ≤ 32 →
        wstrncpy m' (d + 32 * k + o) n = wstrncpy m (d + 32 * k + o) n :=
      fun o n ho => wstrncpy_congr fun x h1 h2 => h x (by omega) (by omega)
    have hrest : ∀ units, (if m' (d + 32 * k) &&& 0x40 ≠ 0 then pure (some units)
        else longNameLoop m' d k units) = if m (d + 32 * k) &&& 0x40 ≠ 0 then pure (some units)
        else longNameLoop m d k units := by
      intro units
      rw [h _ (by omega) (by omega)]
      cases k with
      | zero => rw [Nat.mul_zero, Nat.add_zero, if_pos hmark, if_pos hmark]
      | succ k => rw [longNameLoop_congr hmark k units fun x h1 h2 => h x h1 (by omega)]
    rw [longNameLoop_succ, longNameLoop_succ]
    simp only [hentry, hload 1 (by omega), hload 14 (by omega), hload 28 (by omega),
      hcopy 1 5 (by omega), hcopy 14 6 (by omega), hcopy 28 2 (by omega), hrest]

/-- More room does not change what fits. -/
theorem strUnicodeToUtf8_mono {unit : Nat → Nat} : ∀ {room room' i : Nat} {s : List UInt8},
    strUnicodeToUtf8 unit room i = some s → room ≤ room' → strUnicodeToUtf8 unit room' i = some s
  | room + 1, room', i, s, h, hle => by
    obtain ⟨n, rfl⟩ := Nat.exists_eq_add_of_le' (Nat.le_trans (Nat.le_add_left 1 _) hle)
    unfold strUnicodeToUtf8 at h ⊢
    by_cases hu : unit i = 0x0000
    · rw [if_pos hu] at h ⊢
      exact h
    · rw [if_neg hu] at h ⊢
      obtain ⟨t, ht, rfl⟩ := Option.map_eq_some_iff.mp h
      rw [strUnicodeToUtf8_mono ht (Nat.le_of_succ_le_succ hle), Option.map_some]

/-! ## The name of a record -/

theorem countLong_eq {dir : Mem} {d max k : Nat} (hmax : k ≤ max)
    (hlong : ∀ i < k, dir (d + 32 * i + 11) = attrLongName)
    (hshort : dir (d + 32 * k + 11) ≠ attrLongName) :
    ∀ fuel n, n ≤ k → k < fuel + n → countLong dir d max fuel n = some k
  | 0, n, hn, hfuel => by omega
  | fuel + 1, n, hn, hfuel => by
    rw [countLong]
    by_cases hk : n = k
    · rw [hk, if_neg hshort]
    · rw [if_pos (hlong n (by omega)), if_neg (by omega),
        countLong_eq hmax hlong hshort fuel (n + 1) (by omega) (by omega)]

theorem shortName_congr {dir dir' : Mem} {d : Nat} (h : ∀ x, d ≤ x → x < d + 32 → dir' x = dir x) :
    shortName dir' d = shortName dir d := by
  have hbase : dir'.bytes d 8 = dir.bytes d 8 :=
    Mem.bytes_congr fun x h1 h2 => h x h1 (by omega)
  have hext : dir'.bytes (d + 8) 3 = dir.bytes (d + 8) 3 :=
    Mem.bytes_congr fun x h1 h2 => h x (by omega) (by omega)
  unfold shortName
  rw [hbase, hext, h (d + 8) (by omega) (by omega)]

/-- What `read_name` makes of a record whose units are known. -/
def nameOf (units : List Nat) (long cap : Nat) : Except FatFault (Option (Nat × List UInt8)) :=
  match strUnicodeToUtf8 (unitAt units) cap 0 with
  | none => .error .overflow
  | some name => if name.length < cap then .ok (some (long, name)) else .error .overflow

/-- The same for what the loop over the entries returns. -/
def nameOfUnits (long cap : Nat) : Option (List Nat) → Except FatFault (Option (Nat × List UInt8))
  | none => .ok none
  | some units => nameOf units long cap

/-- Several entries are read from the last of them back. -/
theorem readName_long_eq {dir : Mem} {d k max : Nat} (hk : 0 < k) (hmax : k ≤ max)
    (hused : dir d ≠ 0) (hlong : ∀ i < k, dir (d + 32 * i + 11) = attrLongName)
    (hshort : dir (d + 32 * k + 11) ≠ attrLongName) (cap : Nat) :
    readName dir d max cap = longNameLoop dir d k [] >>= nameOfUnits k cap := by
  have hcount : countLong dir d max (max + 2) 0 = some k :=
    countLong_eq hmax hlong hshort (max + 2) 0 (by omega) (by omega)
  have hattr : dir (d + 11) = attrLongName := hlong 0 hk
  rw [readName, if_neg hused, hattr, if_neg (not_not_intro rfl), hcount]
  dsimp only
  cases longNameLoop dir d k [] with
  | error e => rfl
  | ok found => cases found <;> rfl

theorem nameOf_eq_ok {units : List Nat} {long cap : Nat} {x : Option (Nat × List UInt8)}
    (h : nameOf units long cap = .ok x) : ∃ name,
      strUnicodeToUtf8 (unitAt units) cap 0 = some name ∧ name.length < cap ∧
        x = some (long, name) := by
  unfold nameOf at h
  cases hs : strUnicodeToUtf8 (unitAt units) cap 0 with
  | none =>
    rw [hs] at h
    cases h
  | some name =>
    rw [hs] at h
    dsimp only at h
    by_cases hlen : name.length < cap
    · rw [if_pos hlen] at h
      exact ⟨name, rfl, hlen, (Except.ok.inj h).symm⟩
    · rw [if_neg hlen] at h
      cases h

theorem nameOf_mono {units : List Nat} {long cap cap' : Nat} {x : Option (Nat × List UInt8)}
    (h : nameOf units long cap = .ok x) (hle : cap ≤ cap') : nameOf units long cap' = .ok x := by
  obtain ⟨name, hname, hlen, rfl⟩ := nameOf_eq_ok h
  rw [nameOf, strUnicodeToUtf8_mono hname hle]
  exact if_pos (Nat.lt_of_lt_of_le hlen hle)

/-- Long entries, the first of them marked, and a short entry. -/
structure EntryRun (dir : Mem) (r : DirRecord) : Prop where
  used : dir (32 + 32 * r.pos) ≠ 0
  long : ∀ i < r.long, dir (32 + 32 * r.pos + 32 * i + 11) = attrLongName
  short : dir (32 + 32 * r.pos + 32 * r.long + 11) ≠ attrLongName
  marked : 0 < r.long → dir (32 + 32 * r.pos) &&& 0x40 ≠ 0

section Record

variable {dir dir' : Mem} {r : DirRecord} {max cap : Nat}

theorem RecordAt.run (h : RecordAt dir r) : EntryRun dir r := ⟨h.used, h.long, h.short, h.marked⟩

theorem EntryRun.congr (h : EntryRun dir r) (hsame : SameEntries dir dir' r.pos r.next) :
    EntryRun dir' r := by
  have hbyte : ∀ i ≤ r.long, ∀ o < 32, dir' (32 + 32 * r.pos + 32 * i + o)
      = dir (32 + 32 * r.pos + 32 * i + o) := fun i hi o ho => by
    unfold DirRecord.next at hsame
    exact hsame _ (by omega) (by omega)
  have hfirst : dir' (32 + 32 * r.pos) = dir (32 + 32 * r.pos) :=
    hbyte 0 (Nat.zero_le _) 0 (by decide)
  exact ⟨hfirst ▸ h.used, fun i hi => (hbyte i hi.le 11 (by decide)).trans (h.long i hi),
    by rw [hbyte _ le_rfl 11 (by decide)]; exact h.short, fun hlong => hfirst ▸ h.marked hlong⟩

theorem EntryRun.readName_short (h : EntryRun dir r) (hlong : r.long = 0) (max cap : Nat) :
    readName dir (32 + 32 * r.pos) max cap
      = .ok (some (r.long, shortName dir (32 + 32 * r.pos))) := by
  have hshort := h.short
  rw [hlong, Nat.mul_zero, Nat.add_zero] at hshort
  rw [readName, if_neg h.used, if_pos hshort, hlong]
  rfl

theorem EntryRun.readName_long (h : EntryRun dir r) (hlong : 0 < r.long) (hmax : r.long ≤ max)
    (cap : Nat) : readName dir (32 + 32 * r.pos) max cap
      = longNameLoop dir (32 + 32 * r.pos) r.long [] >>= nameOfUnits r.long cap :=
  readName_long_eq hlong hmax h.used h.long h.short cap

/-- What follows the record does not matter, and neither does the block it is in. -/
theorem EntryRun.readName_congr (h : EntryRun dir r) (hsame : SameEntries dir dir' r.pos r.next)
    (hmax : r.long ≤ max) (cap : Nat) :
    readName dir' (32 + 32 * r.pos) max cap = readName dir (32 + 32 * r.pos) r.long cap := by
  have h' := h.congr hsame
  unfold DirRecord.next at hsame
  by_cases hlong : r.long = 0
  · rw [h.readName_short hlong, h'.readName_short hlong,
      shortName_congr fun x h1 h2 => hsame x h1 (by omega)]
  · obtain ⟨k, hk⟩ := Nat.exists_eq_succ_of_ne_zero hlong
    have hpos : 0 < r.long := Nat.pos_of_ne_zero hlong
    have hloop : longNameLoop dir' (32 + 32 * r.pos) r.long []
        = longNameLoop dir (32 + 32 * r.pos) r.long [] := by
      rw [hk]
      exact longNameLoop_congr (h.marked hpos) k [] fun x h1 h2 => hsame x h1 (by omega)
    rw [h.readName_long hpos le_rfl, h'.readName_long hpos hmax, hloop]

/-- A larger buffer does not change a name that fits. -/
theorem EntryRun.readName_mono (h : EntryRun dir r) {cap' : Nat} {x : Option (Nat × List UInt8)}
    (hok : readName dir (32 + 32 * r.pos) r.long cap = .ok x) (hle : cap ≤ cap') :
    readName dir (32 + 32 * r.pos) r.long cap' = .ok x := by
  by_cases hlong : r.long = 0
  · rw [h.readName_short hlong] at hok ⊢
    exact hok
  · have hpos : 0 < r.long := Nat.pos_of_ne_zero hlong
    rw [h.readName_long hpos le_rfl] at hok ⊢
    cases hloop : longNameLoop dir (32 + 32 * r.pos) r.long [] with
    | error e =>
      rw [hloop] at hok
      cases hok
    | ok found =>
      rw [hloop] at hok
      cases found with
      | none => exact hok
      | some units => exact nameOf_mono hok hle

/-- However large the buffer and whatever follows in the block, `read_name` reads the record. -/
theorem RecordAt.readName (h : RecordAt dir r) (hsame : SameEntries dir dir' r.pos r.next)
    (hmax : r.long ≤ max) (hcap : 256 ≤ cap) :
    readName dir' (32 + 32 * r.pos) max cap = .ok (some (r.long, r.name)) := by
  rw [h.run.readName_congr hsame hmax]
  exact h.run.readName_mono h.name hcap

end Record

/-! ## One round of the loops -/

section Round

variable {dir dir' : Mem} {size entries fuel : Nat} {name : List UInt8} {r : DirRecord}

/-- Both loops count the entries left. -/
theorem max_eq (hsize : size = 32 * entries) (hlt : size < 2 ^ 32) {pos : Nat}
    (hpos : pos < entries) :
    (size >>> 5 + (2 ^ 32 - pos)) % 2 ^ 32 = entries - pos ∧
      ((size + (2 ^ 32 - 32 * pos)) % 2 ^ 32) >>> 5 = entries - pos := by
  have hentries : size >>> 5 = entries := by
    rw [Nat.shiftRight_eq_div_pow]
    omega
  have hwrap : entries + (2 ^ 32 - pos) = entries - pos + 2 ^ 32 := by omega
  have hleft : size + (2 ^ 32 - 32 * pos) = 32 * (entries - pos) + 2 ^ 32 := by omega
  constructor
  · rw [hentries, hwrap, Nat.add_mod_right, Nat.mod_eq_of_lt (by omega)]
  · rw [hleft, Nat.add_mod_right, Nat.mod_eq_of_lt (by omega), Nat.shiftRight_eq_div_pow]
    omega

theorem readFileLoop_record (h : RecordAt dir r) (hsame : SameEntries dir dir' r.pos r.next)
    (hsize : size = 32 * entries) (hlt : size < 2 ^ 32) (hnext : r.next < entries) :
    readFileLoop dir' size name (fuel + 1) r.pos
      = if r.name = name then .ok r.next else readFileLoop dir' size name fuel r.next := by
  have hnext' : r.pos + r.long + 1 < entries := hnext
  have hpos : (r.pos + (r.long + 1)) % 2 ^ 32 = r.next := Nat.mod_eq_of_lt (by omega)
  rw [readFileLoop, (max_eq hsize hlt (show r.pos < entries by omega)).1,
    h.readName hsame (by omega) (by decide)]
  change (if strcmp r.name name = 0 then _ else _) = _
  rw [hpos]
  exact ite_congr (propext strcmp_eq_zero) (fun _ => rfl) fun _ => rfl

theorem readFileLoop_stop {pos : Nat} (hzero : dir (32 + 32 * pos) = 0) :
    readFileLoop dir size name (fuel + 1) pos = .ok pos := by
  rw [readFileLoop, readName, if_pos hzero]
  rfl

/-- The file of a record. -/
def DirRecord.file (dir : Mem) (r : DirRecord) : FATFile :=
  .ofDirStruc r.name (DirStruc.ofMem dir (32 * r.next))

/-- `fatfs_readdir` returns the file of the next record. -/
theorem readdir_record (h : RecordAt dir r) (hsame : SameEntries dir dir' r.pos r.next)
    (hsize : size = 32 * entries) (hlt : size < 2 ^ 32) (hnext : r.next ≤ entries) :
    fatfsReaddir ⟨dir', size, 32 * r.pos⟩
      = .ok (some (r.file dir', ⟨dir', size, 32 * r.next⟩)) := by
  have hnext' : r.pos + r.long + 1 ≤ entries := hnext
  have hoffset : (32 * r.pos + (r.long + 1) <<< 5) % 2 ^ 32 = 32 * r.next := by
    rw [Nat.shiftLeft_eq, DirRecord.next]
    omega
  have hentry : 32 + 32 * r.next - 32 = 32 * r.next := by omega
  unfold fatfsReaddir
  dsimp only
  rw [if_neg (by omega), (max_eq hsize hlt (show r.pos < entries by omega)).2,
    h.readName hsame (by omega) (by decide)]
  change Except.ok (some (FATFile.ofDirStruc r.name (DirStruc.ofMem dir'
    (32 + (32 * r.pos + (r.long + 1) <<< 5) % 2 ^ 32 - 32)), _)) = _
  rw [hoffset, hentry]
  rfl

/-- At the entry without a name, and behind the last one, there is no file. -/
theorem readdir_stop {pos : Nat} (h : size ≤ 32 * pos ∨ dir (32 + 32 * pos) = 0) :
    fatfsReaddir ⟨dir, size, 32 * pos⟩ = .ok none := by
  unfold fatfsReaddir
  dsimp only
  by_cases hend : size ≤ 32 * pos
  · rw [if_pos hend]
    rfl
  · rw [if_neg hend, readName, if_pos (h.resolve_left hend)]
    rfl

theorem searchLoop_record (h : RecordAt dir r) (hsame : SameEntries dir dir' r.pos r.next)
    (hsize : size = 32 * entries) (hlt : size < 2 ^ 32) (hnext : r.next ≤ entries) :
    searchLoop name (fuel + 1) ⟨dir', size, 32 * r.pos⟩
      = if r.name = name then .ok (some (r.file dir'))
        else searchLoop name fuel ⟨dir', size, 32 * r.next⟩ := by
  rw [searchLoop, readdir_record h hsame hsize hlt hnext]
  change (if strcmp r.name name ≠ 0 then _ else _) = _
  by_cases hname : r.name = name
  · rw [if_neg (not_not_intro (strcmp_eq_zero.mpr hname)), if_pos hname]
    rfl
  · rw [if_pos fun h => hname (strcmp_eq_zero.mp h), if_neg hname]

theorem searchLoop_stop {pos : Nat} (h : size ≤ 32 * pos ∨ dir (32 + 32 * pos) = 0) :
    searchLoop name (fuel + 1) ⟨dir, size, 32 * pos⟩ = .ok none := by
  rw [searchLoop, readdir_stop h]
  rfl

end Round

/-! ## The loops -/

section Loops

variable {dir dir' : Mem} {size entries pos stop : Nat} {name : List UInt8} {r : DirRecord}
  {rs : List DirRecord}

theorem firstNamed_cons_of_eq (h : r.name = name) : firstNamed name (r :: rs) = some r := by
  rw [firstNamed, List.find?_cons, decide_eq_true h]

theorem firstNamed_cons_of_ne (h : r.name ≠ name) :
    firstNamed name (r :: rs) = firstNamed name rs := by
  rw [firstNamed, List.find?_cons, decide_eq_false h, firstNamed]

theorem firstNamed_eq_none : firstNamed name rs = none ↔ ∀ r ∈ rs, r.name ≠ name := by
  simp [firstNamed]

/-- `read_file` stops behind the first record of the name, or at the entry behind all. -/
theorem readFileLoop_scan (h : Records dir entries pos rs stop)
    (hsame : SameEntries dir dir' 0 entries) (hsize : size = 32 * entries) (hlt : size < 2 ^ 32) :
    ∀ fuel, rs.length < fuel → readFileLoop dir' size name fuel pos
      = .ok ((firstNamed name rs).elim stop DirRecord.next) := by
  induction h with
  | @stop pos hpos hzero =>
    intro fuel hfuel
    obtain ⟨fuel, rfl⟩ : ∃ n, fuel = n + 1 := ⟨fuel - 1, Nat.eq_add_of_sub_eq hfuel rfl⟩
    exact readFileLoop_stop (by rw [hsame _ (by omega) (by omega), hzero])
  | @record r rs stop h hrest ih =>
    intro fuel hfuel
    rw [List.length_cons] at hfuel
    obtain ⟨fuel, rfl⟩ : ∃ n, fuel = n + 1 := ⟨fuel - 1, by omega⟩
    have hsame' := hsame.mono (Nat.zero_le r.pos) (Nat.le_of_lt hrest.pos_lt)
    rw [readFileLoop_record h hsame' hsize hlt hrest.pos_lt]
    by_cases hr : r.name = name
    · rw [if_pos hr, firstNamed_cons_of_eq hr, Option.elim_some]
    · rw [if_neg hr, firstNamed_cons_of_ne hr]
      exact ih _ (by omega)

/-- `fatfs_searchfile` finds the first record of the name. -/
theorem searchLoop_scan (h : Records dir entries pos rs stop)
    (hsame : SameEntries dir dir' 0 entries) (hsize : size = 32 * entries) (hlt : size < 2 ^ 32) :
    ∀ fuel, rs.length < fuel → searchLoop name fuel ⟨dir', size, 32 * pos⟩
      = .ok ((firstNamed name rs).map (DirRecord.file dir')) := by
  induction h with
  | @stop pos hpos hzero =>
    intro fuel hfuel
    obtain ⟨fuel, rfl⟩ : ∃ n, fuel = n + 1 := ⟨fuel - 1, Nat.eq_add_of_sub_eq hfuel rfl⟩
    exact searchLoop_stop (.inr (by rw [hsame _ (by omega) (by omega), hzero]))
  | @record r rs stop h hrest ih =>
    intro fuel hfuel
    rw [List.length_cons] at hfuel
    obtain ⟨fuel, rfl⟩ : ∃ n, fuel = n + 1 := ⟨fuel - 1, by omega⟩
    have hsame' := hsame.mono (Nat.zero_le r.pos) (Nat.le_of_lt hrest.pos_lt)
    rw [searchLoop_record h hsame' hsize hlt (Nat.le_of_lt hrest.pos_lt)]
    by_cases hr : r.name = name
    · rw [if_pos hr, firstNamed_cons_of_eq hr, Option.map_some]
    · rw [if_neg hr, firstNamed_cons_of_ne hr]
      exact ih _ (by omega)

end Loops

end Raincloud
