import Raincloud.Fs.Listing
import Raincloud.Fs.ReadFile

/-!
# Deleted records and labels

Neither `read_name` nor the loops over a directory look at the first byte 0xE5 of a deleted
record, or at the attribute of a label. The first record of a name is found, whatever its kind.
-/

set_option linter.style.nameCheck false

namespace Raincloud

open Infra

variable {dir : Mem} {entries pos size : Nat} {name : List UInt8} {r : DirRecord}
  {rs : List DirRecord}

/-! ## Kinds of records -/

/-- A record in use: of a file, of a directory, or a label. -/
structure InUse (dir : Mem) (r : DirRecord) : Prop where
  used : dir r.shortEntry ≠ 0x00 ∧ dir r.shortEntry ≠ 0xe5
  mark : ∀ i < r.long, dir (32 + 32 * r.pos + 32 * i) &&& 0x40 ≠ 0 ↔ i = 0

/-- A deleted record: all its entries begin with 0xE5. -/
structure Deleted (dir : Mem) (r : DirRecord) : Prop where
  used : dir r.shortEntry = 0xe5
  mark : ∀ i < r.long, dir (32 + 32 * r.pos + 32 * i) = 0xe5

/-- A record of any kind, with the name that `read_name` leaves in a large enough buffer. -/
structure DirItem (dir : Mem) (r : DirRecord) : Prop where
  long : ∀ i < r.long, dir (32 + 32 * r.pos + 32 * i + 11) = attrLongName
  short : dir (r.shortEntry + 11) ≠ attrLongName
  kind : InUse dir r ∨ Deleted dir r
  name : ∃ cap n, readName dir (32 + 32 * r.pos) (r.long + 1) cap = .ok (some (n, r.name))

/-- In use, and no label. -/
def isLive (dir : Mem) (r : DirRecord) : Bool :=
  dir r.shortEntry ≠ 0xe5 ∧ (DirStruc.ofMem dir r.shortEntry).attr &&& attrVolumnId = 0

theorem DirItem.run (h : DirItem dir r) : EntryRun dir r where
  used := by
    by_cases hlong : r.long = 0
    · have hplace : r.shortEntry = 32 + 32 * r.pos := by
        rw [shortEntry_eq, hlong, Nat.mul_zero, Nat.add_zero]
      rcases h.kind with huse | hdel
      · exact hplace ▸ huse.used.1
      · rw [← hplace, hdel.used]
        decide
    · have hpos : 0 < r.long := Nat.pos_of_ne_zero hlong
      rcases h.kind with huse | hdel
      · have hmark := (huse.mark 0 hpos).mpr rfl
        exact fun hzero => hmark (by rw [Nat.mul_zero, Nat.add_zero, hzero]; rfl)
      · have hmark : dir (32 + 32 * r.pos) = 0xe5 := hdel.mark 0 hpos
        rw [hmark]
        decide
  long := h.long
  short := by
    rw [← shortEntry_eq]
    exact h.short
  marked hlong := by
    rcases h.kind with huse | hdel
    · exact (huse.mark 0 hlong).mpr rfl
    · have hmark : dir (32 + 32 * r.pos) = 0xe5 := hdel.mark 0 hlong
      rw [hmark]
      decide

/-! ## Names that fit -/

theorem shortName_length (dir : Mem) (entry : Nat) : (shortName dir entry).length ≤ 12 := by
  have hcut : ∀ s, (upToSpace s).length ≤ s.length := fun s => (List.takeWhile_sublist _).length_le
  have hbase := hcut (dir.bytes entry 8)
  rw [Mem.length_bytes] at hbase
  unfold shortName
  dsimp only
  split
  · omega
  · refine (hcut _).trans ?_
    rw [List.length_append, List.length_cons, Mem.length_bytes]
    omega

/-- The name in a buffer of `cap` bytes. -/
theorem DirItem.readName_eq (h : DirItem dir r) {max cap : Nat} (hmax : r.long ≤ max)
    (hcap : 13 ≤ cap) : readName dir (32 + 32 * r.pos) max cap
      = if r.name.length < cap then .ok (some (r.long, r.name)) else .error .overflow := by
  obtain ⟨cap', n, hname⟩ := h.name
  rw [h.run.readName_congr (fun _ _ _ => rfl) (Nat.le_succ _)] at hname
  obtain ⟨s, hs⟩ := h.run.readName_ok hname
  cases hs
  rw [h.run.readName_congr (fun _ _ _ => rfl) hmax]
  by_cases hlong : r.long = 0
  · rw [h.run.readName_short hlong] at hname ⊢
    have hlen := shortName_length dir (32 + 32 * r.pos)
    obtain ⟨-, hshort⟩ := Prod.mk.inj (Option.some.inj (Except.ok.inj hname))
    rw [← hshort, if_pos (by omega)]
  · have hpos : 0 < r.long := Nat.pos_of_ne_zero hlong
    rw [h.run.readName_long hpos le_rfl] at hname ⊢
    cases hloop : longNameLoop dir (32 + 32 * r.pos) r.long [] with
    | error e =>
      rw [hloop] at hname
      cases hname
    | ok found =>
      rw [hloop] at hname
      cases found with
      | none => cases hname
      | some units =>
        have hunits : nameOf units r.long cap' = .ok (some (r.long, r.name)) := hname
        obtain ⟨s, hs, -, hx⟩ := nameOf_eq_ok hunits
        obtain rfl : r.name = s := (Prod.mk.inj (Option.some.inj hx)).2
        change nameOf units r.long cap = _
        by_cases hlen : r.name.length < cap
        · rw [if_pos hlen, nameOf, strUnicodeToUtf8_room hs hlen]
          exact if_pos hlen
        · rw [if_neg hlen, nameOf]
          cases hcap : strUnicodeToUtf8 (unitAt units) cap 0 with
          | none => rfl
          | some t =>
            -- a larger room gives the same name
            have hsame := (strUnicodeToUtf8_mono hcap (Nat.le_max_left cap cap')).symm.trans
              (strUnicodeToUtf8_mono hs (Nat.le_max_right cap cap'))
            rw [Option.some.inj hsame]
            exact if_neg hlen

theorem DirItem.recordAt (h : DirItem dir r) (hlen : r.name.length < 256) : RecordAt dir r :=
  h.run.recordAt (by rw [h.readName_eq (Nat.le_refl _) (by decide), if_pos hlen])

/-! ## The search -/

/-- The loop of `fatfs_searchfile`, with the offset behind the record that it selects. -/
def selectLoop (fileName : List UInt8) :
    Nat → FATDir → Except FatFault (Option (FATFile × Nat))
  | 0, _ => .error .endless
  | fuel + 1, dir => do
    match ← fatfsReaddir dir with
    | none => return none
    | some (file, dir) =>
      if strcmp file.name fileName ≠ 0 then selectLoop fileName fuel dir
      else return some (file, dir.offset)

/-- `fatfs_searchfile`, with the same. -/
def selectFile (drive : Drive) (fs : FATFS) (fresh : Fresh) (fuel : Nat) (path : List UInt8) :
    Except FatFault (Option (FATFile × Nat)) := do
  let fileName := ((strrchr path slash).getD path).tail
  let dirPath := path.take (path.length - fileName.length)
  match ← fatfsOpendir drive fs fresh fuel dirPath with
  | none => .error .nullPointer
  | some dir => selectLoop fileName fuel dir

theorem searchLoop_eq (fileName : List UInt8) : ∀ fuel dir,
    searchLoop fileName fuel dir = (selectLoop fileName fuel dir).map (Option.map Prod.fst)
  | 0, _ => rfl
  | fuel + 1, dir => by
    rw [searchLoop, selectLoop]
    cases fatfsReaddir dir with
    | error e => rfl
    | ok found =>
      cases found with
      | none => rfl
      | some p =>
        obtain ⟨file, dir⟩ := p
        change (if strcmp file.name fileName ≠ 0 then _ else _) = (Except.map _
          (if strcmp file.name fileName ≠ 0 then _ else _))
        split
        · exact searchLoop_eq fileName fuel dir
        · rfl

/-- `fatfs_searchfile` returns the file that is selected. -/
theorem fatfsSearchfile_eq (drive : Drive) (fs : FATFS) (fresh : Fresh) (fuel : Nat)
    (path : List UInt8) : fatfsSearchfile drive fs fresh fuel path
      = (selectFile drive fs fresh fuel path).map (Option.map Prod.fst) := by
  unfold fatfsSearchfile selectFile
  dsimp only
  cases fatfsOpendir drive fs fresh fuel _ with
  | error e => rfl
  | ok found =>
    cases found with
    | none => rfl
    | some dir => exact searchLoop_eq _ fuel dir

/-- A record as it is selected. -/
def selected (dir : Mem) (r : DirRecord) : FATFile × Nat := (recordFile dir r, 32 * r.next)

/-- The records up to the first one of that name. -/
def scanned (name : List UInt8) : List DirRecord → List DirRecord
  | [] => []
  | r :: rs => if r.name = name then [r] else r :: scanned name rs

theorem scanned_cons_of_ne (h : r.name ≠ name) :
    scanned name (r :: rs) = r :: scanned name rs := if_neg h

theorem mem_scanned_head : r ∈ scanned name (r :: rs) := by
  unfold scanned
  split
  · exact List.mem_singleton_self r
  · exact List.mem_cons_self

section Loop

variable {fuel : Nat}

theorem selectLoop_record (h : RecordAt dir r) (hsize : 32 * entries < 2 ^ 32)
    (hnext : r.next ≤ entries) :
    selectLoop name (fuel + 1) ⟨dir, 32 * entries, 32 * r.pos⟩
      = if r.name = name then .ok (some (selected dir r))
        else selectLoop name fuel ⟨dir, 32 * entries, 32 * r.next⟩ := by
  rw [selectLoop, readdir_record h (fun _ _ _ => rfl) rfl hsize hnext, ok_bind, selected,
    recordFile_eq]
  change (if strcmp r.name name ≠ 0 then _ else _) = _
  by_cases hname : r.name = name
  · rw [if_neg (not_not_intro (strcmp_eq_zero.mpr hname)), if_pos hname]
    rfl
  · rw [if_pos fun h => hname (strcmp_eq_zero.mp h), if_neg hname]

/-- A name that does not fit is written over the end of `Name`. -/
theorem selectLoop_unfit (h : DirItem dir r) (hsize : 32 * entries < 2 ^ 32)
    (hnext : r.next ≤ entries) (hlen : 256 ≤ r.name.length) :
    selectLoop name (fuel + 1) ⟨dir, 32 * entries, 32 * r.pos⟩ = .error .overflow := by
  have hnext' : r.pos + r.long + 1 ≤ entries := hnext
  have hread : fatfsReaddir ⟨dir, 32 * entries, 32 * r.pos⟩ = .error .overflow := by
    unfold fatfsReaddir
    dsimp only
    rw [if_neg (by omega), (max_eq rfl hsize (show r.pos < entries by omega)).2,
      h.readName_eq (by omega) (by decide), if_neg (Nat.not_lt.mpr hlen)]
    rfl
  rw [selectLoop, hread]
  rfl

/-- The first record of the name is selected, if the names up to it fit. -/
theorem selectLoop_scan (h : Listing (DirItem dir) dir entries pos rs)
    (hsize : 32 * entries < 2 ^ 32) (hfits : ∀ r ∈ scanned name rs, r.name.length < 256) :
    ∀ fuel, rs.length < fuel → selectLoop name fuel ⟨dir, 32 * entries, 32 * pos⟩
      = .ok ((firstNamed name rs).map (selected dir)) := by
  induction h with
  | @stop pos hpos hend =>
    intro fuel hfuel
    obtain ⟨fuel, rfl⟩ : ∃ n, fuel = n + 1 := ⟨fuel - 1, Nat.eq_add_of_sub_eq hfuel rfl⟩
    rw [selectLoop, readdir_stop (hend.imp_left fun he => by rw [he])]
    rfl
  | @record r rs h hrest ih =>
    intro fuel hfuel
    rw [List.length_cons] at hfuel
    obtain ⟨fuel, rfl⟩ : ∃ n, fuel = n + 1 := ⟨fuel - 1, by omega⟩
    rw [selectLoop_record (h.recordAt (hfits r mem_scanned_head)) hsize hrest.pos_le]
    by_cases hr : r.name = name
    · rw [if_pos hr, firstNamed_cons_of_eq hr, Option.map_some]
    · rw [scanned_cons_of_ne hr] at hfits
      rw [if_neg hr, firstNamed_cons_of_ne hr]
      exact ih (fun s hs => hfits s (List.mem_cons_of_mem _ hs)) _ (by omega)

/-- A name before it that does not fit stops the search. -/
theorem selectLoop_overflow (h : Listing (DirItem dir) dir entries pos rs)
    (hsize : 32 * entries < 2 ^ 32) (hunfit : ∃ r ∈ scanned name rs, 256 ≤ r.name.length) :
    ∀ fuel, rs.length < fuel →
      selectLoop name fuel ⟨dir, 32 * entries, 32 * pos⟩ = .error .overflow := by
  induction h with
  | stop =>
    obtain ⟨_, hr, _⟩ := hunfit
    exact (List.not_mem_nil hr).elim
  | @record r rs h hrest ih =>
    intro fuel hfuel
    rw [List.length_cons] at hfuel
    obtain ⟨fuel, rfl⟩ : ∃ n, fuel = n + 1 := ⟨fuel - 1, by omega⟩
    by_cases hlen : 256 ≤ r.name.length
    · exact selectLoop_unfit h hsize hrest.pos_le hlen
    · obtain ⟨s, hs, hslen⟩ := hunfit
      have hne : r.name ≠ name := fun he => by
        rw [scanned, if_pos he, List.mem_singleton] at hs
        exact hlen (hs ▸ hslen)
      rw [scanned_cons_of_ne hne] at hs
      have hs := (List.mem_cons.mp hs).resolve_left fun he => hlen (he ▸ hslen)
      rw [selectLoop_record (h.recordAt (by omega)) hsize hrest.pos_le, if_neg hne]
      exact ih ⟨s, hs, hslen⟩ _ (by omega)

end Loop

/-! ## Live records -/

/-- The record that is selected is the first live one of the name. -/
def SelectsLive (drive : Drive) (fs : FATFS) (fresh : Fresh) (path : List UInt8) (dir : Mem)
    (rs : List DirRecord) (name : List UInt8) : Prop :=
  ∃ rounds, ∀ fuel ≥ rounds, selectFile drive fs fresh fuel path
    = .ok ((rs.find? fun r => isLive dir r ∧ r.name = name).map (selected dir))

/-- The path leads to a directory of these records, for the name behind its last slash. -/
structure OpensDir (drive : Drive) (fs : FATFS) (fresh : Fresh) (path : List UInt8) (dir : Mem)
    (entries : Nat) (rs : List DirRecord) (name : List UInt8) : Prop where
  fileName : ((strrchr path slash).getD path).tail = name
  opens : ∃ rounds, ∀ fuel ≥ rounds,
    fatfsOpendir drive fs fresh fuel (path.take (path.length - name.length))
      = .ok (some ⟨dir, 32 * entries, 0⟩)
  size : 32 * entries < 2 ^ 32
  items : Listing (DirItem dir) dir entries 0 rs

theorem OpensDir.selectFile_eq {drive : Drive} {fs : FATFS} {fresh : Fresh} {path : List UInt8}
    (h : OpensDir drive fs fresh path dir entries rs name) : ∃ rounds, ∀ fuel ≥ rounds,
      selectFile drive fs fresh fuel path = selectLoop name fuel ⟨dir, 32 * entries, 0⟩ := by
  obtain ⟨rounds, hopen⟩ := h.opens
  refine ⟨rounds, fun fuel hfuel => ?_⟩
  unfold selectFile
  dsimp only
  rw [h.fileName, hopen fuel hfuel]
  rfl

/-- A record of another name is not the first one of the name. -/
theorem find_live (rs : List DirRecord) (hlive : ∀ r, firstNamed name rs = some r → isLive dir r) :
    rs.find? (fun r => isLive dir r ∧ r.name = name) = firstNamed name rs := by
  induction rs with
  | nil => rfl
  | cons r rs ih =>
    by_cases hr : r.name = name
    · rw [firstNamed_cons_of_eq hr] at hlive ⊢
      exact List.find?_cons_of_pos (by simpa [hr] using hlive r rfl)
    · rw [firstNamed_cons_of_ne hr] at hlive ⊢
      rw [List.find?_cons_of_neg (by simp [hr]), ih hlive]

/-- When a record is selected that is not live, it is not the first live one. -/
theorem not_selectsLive {drive : Drive} {fs : FATFS} {fresh : Fresh} {path : List UInt8}
    (h : OpensDir drive fs fresh path dir entries rs name)
    (hfits : ∀ r ∈ scanned name rs, r.name.length < 256) (hr : firstNamed name rs = some r)
    (hdead : ¬ isLive dir r) : ¬ SelectsLive drive fs fresh path dir rs name := by
  rintro ⟨rounds, hselect⟩
  obtain ⟨rounds', heq⟩ := h.selectFile_eq
  have hfuel : rounds ≤ rounds + rounds' + rs.length + 1 := by omega
  have hloop := selectLoop_scan h.items h.size hfits (rounds + rounds' + rs.length + 1) (by omega)
  rw [Nat.mul_zero, ← heq _ (by omega), hselect _ hfuel, hr, Option.map_some] at hloop
  obtain ⟨s, hs, hsel⟩ := Option.map_eq_some_iff.mp (Except.ok.inj hloop)
  -- the two records end at the same place, so they have the same short entry
  have hnext : 32 * s.next = 32 * r.next := congrArg Prod.snd hsel
  have hlive := List.find?_some hs
  rw [isLive, shortEntry_next, ← hnext, ← shortEntry_next] at hdead
  simp only [decide_eq_true_eq] at hlive
  exact hdead hlive.1

/-- Every name up to the first record of the name fits, and that record is live. -/
structure FindsLive (dir : Mem) (rs : List DirRecord) (name : List UInt8) : Prop where
  fits : ∀ r ∈ scanned name rs, r.name.length < 256
  live : ∀ r, firstNamed name rs = some r → isLive dir r

/--
`fatfs_searchfile` selects the first live record of a name exactly if the first record of any
kind with that name is live, or there is none, and the names up to it fit.
-/
theorem selectsLive_iff {drive : Drive} {fs : FATFS} {fresh : Fresh} {path : List UInt8}
    (h : OpensDir drive fs fresh path dir entries rs name) :
    SelectsLive drive fs fresh path dir rs name ↔ FindsLive dir rs name := by
  constructor
  · intro hselect
    have hfits : ∀ r ∈ scanned name rs, r.name.length < 256 := by
      by_contra hunfit
      push Not at hunfit
      obtain ⟨rounds, hselect⟩ := hselect
      obtain ⟨rounds', heq⟩ := h.selectFile_eq
      have hloop := selectLoop_overflow h.items h.size hunfit (rounds + rounds' + rs.length + 1)
        (by omega)
      rw [Nat.mul_zero, ← heq _ (by omega), hselect _ (by omega)] at hloop
      cases hloop
    refine ⟨hfits, fun r hr => ?_⟩
    by_contra hdead
    exact not_selectsLive h hfits hr hdead hselect
  · rintro ⟨hfits, hlive⟩
    obtain ⟨rounds, heq⟩ := h.selectFile_eq
    refine ⟨rounds + rs.length + 1, fun fuel hfuel => ?_⟩
    have hloop := selectLoop_scan h.items h.size hfits fuel (by omega)
    rw [Nat.mul_zero, ← heq _ (by omega)] at hloop
    rw [hloop, find_live rs hlive]

/-! ## In the root directory -/

/-- A path of one slash and a name leads to the root directory. -/
theorem opensDir_root {drive : Drive} {fs : FATFS} {clusters : List Nat}
    (hfs : fatfsInit drive = some fs) (hchain : IsChain drive fs clusters)
    (hroot : clusters.headD 0 = fs.bpb.rootClus) (hlt : clusters.length * clusterSize fs < 2 ^ 32)
    (fresh : Fresh) (hname : slash ∉ name)
    (hitems : Listing (DirItem (loadedChain drive fs clusters fresh.dir))
      (loadedChain drive fs clusters fresh.dir) (dirEntries fs clusters) 0 rs) :
    OpensDir drive fs fresh (slash :: name) (loadedChain drive fs clusters fresh.dir)
      (dirEntries fs clusters) rs name := by
  have hfile : strrchr (slash :: name) slash = some (slash :: name) :=
    strrchr_eq_some.mpr ⟨[], name, rfl, hname, rfl⟩
  have hdir : (slash :: name).take ((slash :: name).length - name.length) = [slash] := by
    rw [List.length_cons, Nat.add_sub_cancel_left, List.take_succ_cons, List.take_zero]
  refine ⟨by rw [hfile]; rfl, ⟨clusters.length, fun fuel hfuel => ?_⟩, ?_, hitems⟩
  · rw [hdir, opendir_slash hfs hchain hroot hlt hfuel fresh, size_eq]
  · rw [← size_eq]
    exact hlt

/-- A label `A`, and behind it the file `A` of 5 bytes at cluster 3. -/
def labelSector : Mem := fun i =>
  if i = 11 then 0x08 else if 12 ≤ i ∧ i < 32 then 0 else if i < 64 then rootSector (i % 32) else 0

/-- The small volume with another sector in its root directory. -/
def sectorDrive (m : Mem) : Drive where
  sector lba :=
    if lba = 2048 then rootBoot else if lba = 2049 then rootTable
    else if lba = 2050 then m else fun _ => 0
  behind _ := 0

def rootFs : FATFS := .ofBPB 2048 (BPB.ofSector rootBoot)

theorem sectorDrive_init (m : Mem) : fatfsInit (sectorDrive m) = some rootFs := by
  have hboot : (sectorDrive m).sector 2048 = rootBoot := by simp [sectorDrive]
  rw [fatfsInit, hboot, if_pos (by decide), rootFs]

/-- The root directory is cluster 2 and nothing else. -/
theorem sectorDrive_chain (m : Mem) : IsChain (sectorDrive m) rootFs [2] := by
  have hsame : extractFatEntry (sectorDrive m) rootFs 2 = extractFatEntry rootDrive rootFs 2 := by
    unfold extractFatEntry pioReadSector
    rfl
  refine .last (hsame.trans ?_)
  decide +kernel

/-- It is loaded to 32. -/
def sectorBlock (m : Mem) : Mem := Mem.put (fun _ => 0) 32 512 m

theorem sectorDrive_loaded (m : Mem) :
    loadedChain (sectorDrive m) rootFs [2] (fun _ => 0) = sectorBlock m := by
  have hsize : clusterSize rootFs = 512 := by decide
  have hstart : clusterStart rootFs 2 = 2050 := by decide
  rw [loadedChain, hsize, sectorBlock]
  refine Mem.put_congr fun j hj => ?_
  have hj : j < 512 := hj
  have hdiv : j / 512 = 0 := Nat.div_eq_of_lt hj
  rw [chainByte, hsize, hdiv, Nat.mod_eq_of_lt hj, clusterByte, List.getD_cons_zero, hstart, hdiv,
    Nat.mod_eq_of_lt hj]
  rfl

/-- The directory is opened for every name in it. -/
theorem sectorDrive_opens (m : Mem) (hname : slash ∉ name)
    (hitems : Listing (DirItem (sectorBlock m)) (sectorBlock m) 16 0 rs) :
    OpensDir (sectorDrive m) rootFs ⟨fun _ => 0⟩ (slash :: name) (sectorBlock m) 16 rs name := by
  have hentries : dirEntries rootFs [2] = 16 := by decide
  have hopens : _ → OpensDir _ _ _ _ _ _ rs name := opensDir_root (sectorDrive_init m)
    (sectorDrive_chain m) (by decide) (by decide) ⟨fun _ => 0⟩ hname
  rw [sectorDrive_loaded, hentries] at hopens
  exact hopens hitems

/-- The label is a record of the name `A`, and so is the file. -/
theorem labelSector_items : Listing (DirItem (sectorBlock labelSector)) (sectorBlock labelSector) 16 0
    [⟨0, 0, [0x41]⟩, ⟨1, 0, [0x41]⟩] := by
  refine .record (r := ⟨0, 0, [0x41]⟩) ⟨by decide, by decide, .inl ⟨by decide, by decide⟩, 256, 0, rfl⟩
    (.record (r := ⟨1, 0, [0x41]⟩) ⟨by decide, by decide, .inl ⟨by decide, by decide⟩, 256, 0, rfl⟩
      (.stop (by decide) (.inr (by decide))))

/-- A root directory with the file `A` only. -/
theorem rootSector_items : Listing (DirItem (sectorBlock rootSector)) (sectorBlock rootSector) 16 0
    [⟨0, 0, [0x41]⟩] :=
  .record (r := ⟨0, 0, [0x41]⟩) ⟨by decide, by decide, .inl ⟨by decide, by decide⟩, 256, 0, rfl⟩
    (.stop (by decide) (.inr (by decide)))

/-- The file is found. -/
theorem selectsLive_A : SelectsLive (sectorDrive rootSector) rootFs ⟨fun _ => 0⟩
    (slash :: [0x41]) (sectorBlock rootSector) [⟨0, 0, [0x41]⟩] [0x41] :=
  (selectsLive_iff (sectorDrive_opens rootSector (by decide) rootSector_items)).mpr
    ⟨by decide, fun r hr => by
      cases hr
      decide⟩

/-- The label is found in front of the file. -/
theorem label_selected : fatfsInit (sectorDrive labelSector) = some rootFs ∧
    OpensDir (sectorDrive labelSector) rootFs ⟨fun _ => 0⟩ (slash :: [0x41])
      (sectorBlock labelSector) 16 [⟨0, 0, [0x41]⟩, ⟨1, 0, [0x41]⟩] [0x41] ∧
    ¬ SelectsLive (sectorDrive labelSector) rootFs ⟨fun _ => 0⟩ (slash :: [0x41])
      (sectorBlock labelSector) [⟨0, 0, [0x41]⟩, ⟨1, 0, [0x41]⟩] [0x41] := by
  have hopens : OpensDir _ _ _ (slash :: [0x41]) _ _ _ [0x41] :=
    sectorDrive_opens labelSector (by decide) labelSector_items
  refine ⟨sectorDrive_init _, hopens, ?_⟩
  exact not_selectsLive hopens (by decide) (firstNamed_cons_of_eq rfl) (by decide)

end Raincloud
