import Raincloud.Fs.NameEncoding

/-!
# Listing a directory

`fatfs_readdir` goes from record to record: the number that `read_name` returns for a record is
the number of its long entries, so the next offset is behind its short entry.
-/

set_option linter.style.nameCheck false

namespace Raincloud

open Infra

variable {dir : Mem} {entries pos d : Nat} {r : DirRecord} {rs : List DirRecord}

/-! ## Records -/

/-- The address of the short entry of a record. -/
def DirRecord.shortEntry (r : DirRecord) : Nat := 32 + 32 * (r.pos + r.long)

/-- Long entries in their order, the first of them marked, and a short entry that is in use. -/
structure VfatRecord (dir : Mem) (r : DirRecord) : Prop where
  used : dir r.shortEntry ≠ 0x00 ∧ dir r.shortEntry ≠ 0xe5
  long : ∀ i < r.long, dir (32 + 32 * r.pos + 32 * i + 11) = attrLongName
  short : dir (r.shortEntry + 11) ≠ attrLongName
  mark : ∀ i < r.long, dir (32 + 32 * r.pos + 32 * i) &&& 0x40 ≠ 0 ↔ i = 0
  fits : ∃ x, readName dir (32 + 32 * r.pos) (r.long + 1) 256 = .ok x
  name : ∀ n s, readName dir (32 + 32 * r.pos) (r.long + 1) 256 = .ok (some (n, s)) → s = r.name

/-- Records from entry `pos` on, up to an entry without a name or to the end of the block. -/
inductive Listing (IsRecord : DirRecord → Prop) (dir : Mem) (entries : Nat) :
    Nat → List DirRecord → Prop
  | stop {pos : Nat} (hpos : pos ≤ entries) (hend : pos = entries ∨ dir (32 + 32 * pos) = 0) :
      Listing IsRecord dir entries pos []
  | record {r : DirRecord} {rs : List DirRecord} (h : IsRecord r)
      (hrest : Listing IsRecord dir entries r.next rs) : Listing IsRecord dir entries r.pos (r :: rs)

theorem Listing.pos_le {P : DirRecord → Prop} (h : Listing P dir entries pos rs) :
    pos ≤ entries := by
  induction h with
  | stop hpos _ => exact hpos
  | record _ _ ih =>
    exact Nat.le_of_succ_le (Nat.le_trans (Nat.succ_le_succ (Nat.le_add_right _ _)) ih)

theorem Listing.mono {P Q : DirRecord → Prop} (h : Listing P dir entries pos rs)
    (hPQ : ∀ r, P r → Q r) : Listing Q dir entries pos rs := by
  induction h with
  | stop hpos hend => exact .stop hpos hend
  | record h _ ih => exact .record (hPQ _ h) ih

/-! ## The name of a record -/

/-- A copy that meets the first long entry with its mark does not go on behind it. -/
theorem longNameLoop_ne_none (hmark : dir d &&& 0x40 ≠ 0) : ∀ k units,
    longNameLoop dir d (k + 1) units ≠ .ok none := by
  have hfield : ∀ src n units (rest : List Nat → Except FatFault (Option (List Nat))),
      (∀ units, rest units ≠ .ok none) → copyField dir src n units rest ≠ .ok none := by
    intro src n units rest hrest
    unfold copyField
    split
    · exact fun h => by cases h
    unfold appendUnits
    split
    · exact fun h => by cases h
    · exact hrest _
  intro k
  induction k with
  | zero =>
    intro units
    rw [longNameLoop_fields]
    refine hfield _ _ _ _ fun units => hfield _ _ _ _ fun units => hfield _ _ _ _ fun units => ?_
    rw [Nat.mul_zero, Nat.add_zero, if_pos hmark]
    exact fun h => by cases h
  | succ k ih =>
    intro units
    rw [longNameLoop_fields]
    refine hfield _ _ _ _ fun units => hfield _ _ _ _ fun units => hfield _ _ _ _ fun units => ?_
    split
    · exact fun h => by cases h
    · exact ih units

/-- `read_name` returns the number of the long entries. -/
theorem EntryRun.readName_ok (h : EntryRun dir r) {cap : Nat} {x : Option (Nat × List UInt8)}
    (hok : readName dir (32 + 32 * r.pos) r.long cap = .ok x) : ∃ s, x = some (r.long, s) := by
  by_cases hlong : r.long = 0
  · rw [h.readName_short hlong] at hok
    exact ⟨_, (Except.ok.inj hok).symm⟩
  · obtain ⟨k, hk⟩ := Nat.exists_eq_succ_of_ne_zero hlong
    have hpos : 0 < r.long := Nat.pos_of_ne_zero hlong
    rw [h.readName_long hpos le_rfl] at hok
    cases hloop : longNameLoop dir (32 + 32 * r.pos) r.long [] with
    | error e =>
      rw [hloop] at hok
      cases hok
    | ok found =>
      rw [hloop] at hok
      cases found with
      | none =>
        rw [hk] at hloop
        exact absurd hloop (longNameLoop_ne_none (h.marked hpos) k [])
      | some units =>
        have hunits : nameOf units r.long cap = .ok x := hok
        obtain ⟨s, -, -, hx⟩ := nameOf_eq_ok hunits
        exact ⟨s, hx⟩

theorem EntryRun.recordAt (h : EntryRun dir r)
    (hname : readName dir (32 + 32 * r.pos) r.long 256 = .ok (some (r.long, r.name))) :
    RecordAt dir r :=
  ⟨h.used, h.long, h.short, h.marked, hname⟩

theorem shortEntry_eq (r : DirRecord) : r.shortEntry = 32 + 32 * r.pos + 32 * r.long := by
  unfold DirRecord.shortEntry
  omega

theorem shortEntry_next (r : DirRecord) : r.shortEntry = 32 * r.next := by
  unfold DirRecord.shortEntry DirRecord.next
  omega

theorem VfatRecord.run (h : VfatRecord dir r) : EntryRun dir r where
  used := by
    have hused := h.used.1
    rw [shortEntry_eq] at hused
    by_cases hlong : r.long = 0
    · rwa [hlong] at hused
    · have hmark := (h.mark 0 (Nat.pos_of_ne_zero hlong)).mpr rfl
      exact fun hzero => hmark (by rw [Nat.mul_zero, Nat.add_zero, hzero]; rfl)
  long := h.long
  short := by
    rw [← shortEntry_eq]
    exact h.short
  marked hlong := (h.mark 0 hlong).mpr rfl

/-- What the records of a directory are read as. -/
theorem VfatRecord.recordAt (h : VfatRecord dir r) : RecordAt dir r := by
  obtain ⟨x, hfits⟩ := h.fits
  have hread := (h.run.readName_congr (fun _ _ _ => rfl) (Nat.le_succ _) 256).symm.trans hfits
  obtain ⟨s, rfl⟩ := h.run.readName_ok hread
  rw [h.name _ _ hfits] at hread
  exact h.run.recordAt hread

/-! ## Successive calls -/

/-- `fatfs_rewinddir`. -/
def fatfsRewinddir (dir : FATDir) : FATDir := { dir with offset := 0 }

/-- What `n` calls of `fatfs_readdir` return, `none` for `NULL`. -/
def readdirs : Nat → FATDir → Except FatFault (List (Option FATFile) × FATDir)
  | 0, dir => .ok ([], dir)
  | n + 1, dir => do
    match ← fatfsReaddir dir with
    | none =>
      let (files, dir) ← readdirs n dir
      return (none :: files, dir)
    | some (file, dir) =>
      let (files, dir) ← readdirs n dir
      return (some file :: files, dir)

/-- What the short entry of a record says about its file, under the name of the record. -/
def recordFile (dir : Mem) (r : DirRecord) : FATFile :=
  .ofDirStruc r.name (DirStruc.ofMem dir r.shortEntry)

/-- The files one after another, and then none. -/
def listed (files : List FATFile) (n : Nat) : List (Option FATFile) :=
  (files.map some ++ List.replicate n none).take n

theorem listed_nil (n : Nat) : listed [] n = List.replicate n none := by
  simp [listed]

theorem listed_cons (file : FATFile) (files : List FATFile) (n : Nat) :
    listed (file :: files) (n + 1) = some file :: listed files n := by
  simp only [listed, List.map_cons, List.cons_append, List.take_succ_cons, List.take_append,
    List.take_replicate, List.cons.injEq, true_and]
  congr 2
  omega

theorem recordFile_eq (dir : Mem) (r : DirRecord) : recordFile dir r = r.file dir := by
  rw [recordFile, DirRecord.file, shortEntry_next]

/-- At the end of the records every call returns `NULL`. -/
theorem readdirs_stop {size : Nat} (h : size ≤ 32 * pos ∨ dir (32 + 32 * pos) = 0) :
    ∀ n, readdirs n ⟨dir, size, 32 * pos⟩ = .ok (List.replicate n none, ⟨dir, size, 32 * pos⟩)
  | 0 => rfl
  | n + 1 => by
    rw [readdirs, readdir_stop h, ok_bind]
    dsimp only
    rw [readdirs_stop h n]
    rfl

/-- From any record on the calls return the records that are left. -/
theorem readdirs_listing (h : Listing (RecordAt dir) dir entries pos rs)
    (hsize : 32 * entries < 2 ^ 32) : ∀ n, ∃ offset,
      readdirs n ⟨dir, 32 * entries, 32 * pos⟩
        = .ok (listed (rs.map (recordFile dir)) n, ⟨dir, 32 * entries, offset⟩) := by
  induction h with
  | @stop pos hpos hend =>
    intro n
    refine ⟨32 * pos, ?_⟩
    rw [List.map_nil, listed_nil]
    exact readdirs_stop (hend.imp_left fun he => by rw [he]) n
  | @record r rs h hrest ih =>
    intro n
    cases n with
    | zero => exact ⟨32 * r.pos, by rw [readdirs, listed, List.take_zero]⟩
    | succ n =>
      obtain ⟨offset, hcalls⟩ := ih n
      refine ⟨offset, ?_⟩
      rw [readdirs, readdir_record h (fun _ _ _ => rfl) rfl hsize hrest.pos_le, ok_bind]
      dsimp only
      rw [hcalls, List.map_cons, listed_cons, recordFile_eq]
      rfl

/--
However the records are made up, `fatfs_readdir` returns each of them once and in order, and
then `NULL` for good; after `fatfs_rewinddir` it does so again.
-/
theorem readdir_enumerates (h : Listing (VfatRecord dir) dir entries 0 rs)
    (hsize : 32 * entries < 2 ^ 32) (n m : Nat) : ∃ after last,
      readdirs n ⟨dir, 32 * entries, 0⟩ = .ok (listed (rs.map (recordFile dir)) n, after) ∧
      readdirs m (fatfsRewinddir after) = .ok (listed (rs.map (recordFile dir)) m, last) := by
  have hrecords := h.mono fun _ => VfatRecord.recordAt
  obtain ⟨offset, hfirst⟩ := readdirs_listing hrecords hsize n
  obtain ⟨_, hagain⟩ := readdirs_listing hrecords hsize m
  exact ⟨_, _, hfirst, hagain⟩

/-- A directory of two entries, which are the record `A`. -/
def nameBlock : Mem := fun x => nameSector (x - 32)

theorem readdir_enumerates_A : ∃ after last,
    readdirs 2 ⟨nameBlock, 64, 0⟩
      = .ok ([some (recordFile nameBlock ⟨0, 1, [0x41]⟩), none], after) ∧
    readdirs 1 (fatfsRewinddir after)
      = .ok ([some (recordFile nameBlock ⟨0, 1, [0x41]⟩)], last) := by
  have hread : readName nameBlock 32 2 256 = .ok (some (1, [0x41])) := by rfl
  have hrecord : VfatRecord nameBlock ⟨0, 1, [0x41]⟩ :=
    ⟨by decide, by decide, by decide, by decide, ⟨_, hread⟩, fun n s h => by
      cases hread.symm.trans h
      rfl⟩
  exact readdir_enumerates (.record hrecord (.stop (by decide) (.inl rfl)))
    (by decide) 2 1

end Raincloud
