import Raincloud.Fs.LiveSearch

/-!
# Walking a path

`fatfs_opendir` goes from directory to directory along the components of a path. It looks
whether it has come to the end of a directory before it compares the name it has read, so it
does not find the record in the last slots of a full directory.
-/

set_option linter.style.nameCheck false

namespace Raincloud

open Infra

variable {drive : Drive} {fs : FATFS}

/-! ## Directories along a path -/

/-- The chain of a directory ends, and its size is one of `uint32_t`. -/
structure IntactDir (drive : Drive) (fs : FATFS) (cs : List Nat) : Prop where
  chain : IsChain drive fs cs
  size : cs.length * clusterSize fs < 2 ^ 32

/-- The data of a directory, in a block. -/
def dirBlock (drive : Drive) (fs : FATFS) (cs : List Nat) : Mem :=
  loadedChain drive fs cs fun _ => 0

/-- A step of a path: a directory with its records, and the one that the step goes to. -/
structure DirStep where
  clusters : List Nat
  items : List DirRecord
  record : DirRecord

namespace DirStep

variable (step : DirStep)

/-- What the short entry of the record says. -/
def entry (drive : Drive) (fs : FATFS) : DirStruc :=
  .ofMem (dirBlock drive fs step.clusters) step.record.shortEntry

/-- The record is the first one of its name, and one of a directory. -/
structure Ok (drive : Drive) (fs : FATFS) : Prop where
  intact : IntactDir drive fs step.clusters
  items : Listing (DirItem (dirBlock drive fs step.clusters)) (dirBlock drive fs step.clusters)
    (dirEntries fs step.clusters) 0 step.items
  first : firstNamed step.record.name step.items = some step.record
  directory : (step.entry drive fs).attr &&& attrDirectory ≠ 0

/-- The names up to the record fit in the buffer for them, and the directory goes on behind it. -/
structure Passes (fs : FATFS) : Prop where
  fits : ∀ r ∈ scanned step.record.name step.items, r.name.length < 512
  goesOn : step.record.next < dirEntries fs step.clusters

end DirStep

/-- From the first directory the steps lead to the last one. -/
inductive Leads (drive : Drive) (fs : FATFS) : List Nat → List DirStep → List Nat → Prop
  | here {cs : List Nat} (h : IntactDir drive fs cs) : Leads drive fs cs [] cs
  | down {step : DirStep} {ds es : List Nat} {steps : List DirStep} (h : step.Ok drive fs)
      (hhead : ds.headD 0 = (step.entry drive fs).firstCluster)
      (hrest : Leads drive fs ds steps es) : Leads drive fs step.clusters (step :: steps) es

theorem Leads.intact {cs es : List Nat} {steps : List DirStep} (h : Leads drive fs cs steps es) :
    IntactDir drive fs cs := by
  cases h with
  | here h => exact h
  | down h => exact h.intact

/-! ## One directory -/

section Find

variable {dir dir' : Mem} {entries pos fuel : Nat} {name : List UInt8} {r : DirRecord}
  {rs : List DirRecord}

theorem DirItem.congr (h : DirItem dir r) (hsame : SameEntries dir dir' r.pos r.next) :
    ∀ {max cap : Nat}, r.long ≤ max → 13 ≤ cap → readName dir' (32 + 32 * r.pos) max cap
      = if r.name.length < cap then .ok (some (r.long, r.name)) else .error .overflow := by
  intro max cap hmax hcap
  rw [h.run.readName_congr hsame hmax, ← h.run.readName_congr (fun _ _ _ => rfl) le_rfl,
    h.readName_eq le_rfl hcap]

theorem Listing.pos_lt {P : DirRecord → Prop} (h : Listing P dir entries pos rs) (hne : rs ≠ []) :
    pos < entries := by
  cases h with
  | stop => exact absurd rfl hne
  | record _ hrest =>
    have hle := hrest.pos_le
    unfold DirRecord.next at hle
    omega

/-- A record is passed, or it is the one: but not at the end of the directory. -/
theorem findEntryLoop_record (h : DirItem dir r) (hsame : SameEntries dir dir' r.pos r.next)
    (hsize : 32 * entries < 2 ^ 32) (hnext : r.next ≤ entries) (hlen : r.name.length < 512) :
    findEntryLoop ⟨dir', 32 * entries, 0⟩ name (fuel + 1) (32 * r.pos)
      = if entries ≤ r.next then .ok none
        else if r.name = name then .ok (some (32 * r.next))
        else findEntryLoop ⟨dir', 32 * entries, 0⟩ name fuel (32 * r.next) := by
  have hnext' : r.pos + r.long + 1 ≤ entries := hnext
  have hpos : (32 * r.pos + (r.long + 1) <<< 5) % 2 ^ 32 = 32 * r.next := by
    rw [Nat.shiftLeft_eq, DirRecord.next]
    omega
  rw [findEntryLoop]
  dsimp only
  rw [(max_eq rfl hsize (show r.pos < entries by omega)).2, h.congr hsame (by omega) (by decide),
    if_pos hlen, ok_bind]
  dsimp only
  rw [hpos]
  by_cases hend : entries ≤ r.next
  · rw [if_pos (Nat.mul_le_mul_left 32 hend), if_pos hend]
    rfl
  · rw [if_neg (by omega), if_neg hend]
    exact ite_congr (propext strcmp_eq_zero) (fun _ => rfl) fun _ => rfl

theorem findEntryLoop_unfit (h : DirItem dir r) (hsame : SameEntries dir dir' r.pos r.next)
    (hsize : 32 * entries < 2 ^ 32) (hnext : r.next ≤ entries) (hlen : 512 ≤ r.name.length) :
    findEntryLoop ⟨dir', 32 * entries, 0⟩ name (fuel + 1) (32 * r.pos) = .error .overflow := by
  have hnext' : r.pos + r.long + 1 ≤ entries := hnext
  rw [findEntryLoop]
  dsimp only
  rw [(max_eq rfl hsize (show r.pos < entries by omega)).2, h.congr hsame (by omega) (by decide),
    if_neg (Nat.not_lt.mpr hlen)]
  rfl

/-- The first record of the name is found, unless it is at the end of the directory. -/
theorem findEntryLoop_scan (h : Listing (DirItem dir) dir entries pos rs)
    (hsame : SameEntries dir dir' 0 entries) (hsize : 32 * entries < 2 ^ 32)
    (hr : firstNamed name rs = some r) (hfits : ∀ s ∈ scanned name rs, s.name.length < 512) :
    ∀ fuel, rs.length ≤ fuel → findEntryLoop ⟨dir', 32 * entries, 0⟩ name fuel (32 * pos)
      = .ok (if entries ≤ r.next then none else some (32 * r.next)) := by
  induction h with
  | stop => cases hr
  | @record s rs h hrest ih =>
    intro fuel hfuel
    obtain ⟨fuel, rfl⟩ := Nat.exists_eq_add_of_le' (Nat.le_trans (Nat.le_add_left 1 _) hfuel)
    have hsame' := hsame.mono (Nat.zero_le s.pos) hrest.pos_le
    rw [findEntryLoop_record h hsame' hsize hrest.pos_le (hfits s mem_scanned_head)]
    by_cases hs : s.name = name
    · rw [firstNamed_cons_of_eq hs, Option.some.injEq] at hr
      rw [← hr]
      by_cases hend : entries ≤ s.next
      · rw [if_pos hend, if_pos hend]
      · rw [if_neg hend, if_neg hend, if_pos hs]
    · rw [firstNamed_cons_of_ne hs] at hr
      rw [scanned_cons_of_ne hs] at hfits
      have hlt : s.next < entries := hrest.pos_lt fun hnil => by
        rw [hnil] at hr
        cases hr
      rw [if_neg (Nat.not_le.mpr hlt), if_neg hs]
      exact ih hr (fun s hs => hfits s (List.mem_cons_of_mem _ hs)) fuel
        (Nat.le_of_succ_le_succ hfuel)

/-- A name before it that does not fit is written over the end of the buffer. -/
theorem findEntryLoop_overflow (h : Listing (DirItem dir) dir entries pos rs)
    (hsame : SameEntries dir dir' 0 entries) (hsize : 32 * entries < 2 ^ 32)
    (hunfit : ∃ s ∈ scanned name rs, 512 ≤ s.name.length) :
    ∀ fuel, rs.length ≤ fuel →
      findEntryLoop ⟨dir', 32 * entries, 0⟩ name fuel (32 * pos) = .error .overflow := by
  induction h with
  | stop =>
    obtain ⟨_, hs, _⟩ := hunfit
    exact (List.not_mem_nil hs).elim
  | @record s rs h hrest ih =>
    intro fuel hfuel
    obtain ⟨fuel, rfl⟩ := Nat.exists_eq_add_of_le' (Nat.le_trans (Nat.le_add_left 1 _) hfuel)
    have hsame' := hsame.mono (Nat.zero_le s.pos) hrest.pos_le
    by_cases hlen : 512 ≤ s.name.length
    · exact findEntryLoop_unfit h hsame' hsize hrest.pos_le hlen
    · obtain ⟨t, ht, htlen⟩ := hunfit
      have hne : s.name ≠ name := fun he => by
        rw [scanned, if_pos he, List.mem_singleton] at ht
        exact hlen (ht ▸ htlen)
      rw [scanned_cons_of_ne hne] at ht
      have ht := (List.mem_cons.mp ht).resolve_left fun he => hlen (he ▸ htlen)
      have hlt : s.next < entries := hrest.pos_lt fun hnil => by
        rw [hnil] at ht
        exact List.not_mem_nil ht
      rw [findEntryLoop_record h hsame' hsize hrest.pos_le (by omega),
        if_neg (Nat.not_le.mpr hlt), if_neg hne]
      exact ih ⟨t, ht, htlen⟩ fuel (Nat.le_of_succ_le_succ hfuel)

end Find

/-! ## The walk -/

/-- The buffer of an open directory holds the directory, and maybe more. -/
structure HoldsDir (drive : Drive) (fs : FATFS) (cs : List Nat) (dir : FATDir) (bufSize : Nat) :
    Prop where
  size : dir.size = cs.length * clusterSize fs
  offset : dir.offset = 0
  data : SameEntries (dirBlock drive fs cs) dir.buf 0 (dirEntries fs cs)
  room : dir.size ≤ bufSize
  small : bufSize < 2 ^ 32

section Walk

variable {fresh : Fresh} {cs ds : List Nat} {dir : FATDir} {bufSize fuel : Nat}
  {save save' dirName : List UInt8} {step : DirStep}

theorem HoldsDir.eq (h : HoldsDir drive fs cs dir bufSize) :
    dir = ⟨dir.buf, 32 * dirEntries fs cs, 0⟩ := by
  have hsize := h.size
  rw [size_eq] at hsize
  cases dir
  simp only [FATDir.mk.injEq, true_and]
  exact ⟨hsize, h.offset⟩

/-- The first cluster of a record is read from the directory. -/
theorem HoldsDir.firstCluster (h : HoldsDir drive fs step.clusters dir bufSize)
    (hnext : step.record.next ≤ dirEntries fs step.clusters) :
    (DirStruc.ofMem dir.buf (32 + (32 * step.record.next - 32))).firstCluster
      = (step.entry drive fs).firstCluster := by
  have hpos : 0 < step.record.next := Nat.succ_pos _
  have hplace : 32 + (32 * step.record.next - 32) = step.record.shortEntry := by
    rw [shortEntry_next]
    omega
  rw [hplace, DirStep.entry, shortEntry_next,
    dirStruc_congr fun x h1 h2 => h.data x (by omega) (by omega)]

/-- The token is the first component, and the others are left. -/
theorem strtokR_of_components {names : List (List UInt8)} (h : components save = dirName :: names) :
    ∃ save', strtokR save [slash] = some (dirName, save') ∧ components save' = names := by
  have htoken := strtokR_slash save
  cases hs : strtokR save [slash] with
  | none =>
    rw [hs] at htoken
    rw [show components save = [] from htoken] at h
    cases h
  | some p =>
    obtain ⟨token, save'⟩ := p
    rw [hs] at htoken
    rw [htoken.1, List.cons.injEq] at h
    obtain ⟨rfl, rfl⟩ := h
    exact ⟨save', rfl, rfl⟩

/-- Without a component left, the directory is returned. -/
theorem openLoop_end (h : components save = []) :
    openLoop drive fs fresh (fuel + 1) dir bufSize save = .ok (some dir) := by
  have htoken := strtokR_slash save
  rw [openLoop]
  cases hs : strtokR save [slash] with
  | none => rfl
  | some p =>
    rw [hs] at htoken
    rw [htoken.1] at h
    cases h

/-- The directory of a record is read into the buffer, or into a larger one. -/
theorem openLoop_step (hfs : fatfsInit drive = some fs)
    (hsave : strtokR save [slash] = some (dirName, save')) {pos : Nat} (hds : IntactDir drive fs ds)
    (hhead : (DirStruc.ofMem dir.buf (32 + (pos - 32))).firstCluster = ds.headD 0)
    (hoffset : dir.offset = 0) (hsmall : bufSize < 2 ^ 32) : ∃ dir' bufSize',
      HoldsDir drive fs ds dir' bufSize' ∧ ∀ fuel ≥ ds.length,
        findEntryLoop dir dirName fuel 0 = .ok (some pos) →
          openLoop drive fs fresh (fuel + 1) dir bufSize save
            = openLoop drive fs fresh fuel dir' bufSize' save' := by
  have hload : ∀ fuel ≥ ds.length, ∀ size heap, ds.length * clusterSize fs ≤ size → size < 2 ^ 32 →
      computeClusterChainLength drive fs fuel (ds.headD 0) = some ds.length ∧
        readClusterChain drive fs fuel 32 size (ds.headD 0) 0 heap
          = some (ds.length * clusterSize fs, loadedChain drive fs ds heap) :=
    fun fuel hfuel size heap hle hlt => loadChain_eq hfs hds.chain hle hlt hfuel heap
  by_cases hnew : bufSize < ds.length * clusterSize fs
  · refine ⟨⟨loadedChain drive fs ds fresh.dir, ds.length * clusterSize fs, dir.offset⟩, _,
      ⟨rfl, hoffset, loadedChain_sameEntries _ _ _ _ _, le_rfl, hds.size⟩, fun fuel hfuel hfind => ?_⟩
    obtain ⟨hlength, hread⟩ := hload fuel hfuel _ fresh.dir le_rfl hds.size
    rw [openLoop, hsave]
    dsimp only
    rw [hfind, ok_bind]
    dsimp only
    rw [hhead, hlength]
    simp only [orEndless, ok_bind, dirSize_eq hfs hds.size, if_pos hnew, hread]
  · have hle := Nat.le_of_not_lt hnew
    refine ⟨⟨loadedChain drive fs ds dir.buf, ds.length * clusterSize fs, dir.offset⟩, bufSize,
      ⟨rfl, hoffset, loadedChain_sameEntries _ _ _ _ _, hle, hsmall⟩, fun fuel hfuel hfind => ?_⟩
    obtain ⟨hlength, hread⟩ := hload fuel hfuel _ dir.buf hle hsmall
    rw [openLoop, hsave]
    dsimp only
    rw [hfind, ok_bind]
    dsimp only
    rw [hhead, hlength]
    simp only [orEndless, ok_bind, dirSize_eq hfs hds.size, if_neg hnew, hread]

/-- Without the record nothing is opened. -/
theorem openLoop_lost (hsave : strtokR save [slash] = some (dirName, save'))
    (hfind : ∀ pos, findEntryLoop dir dirName fuel 0 ≠ .ok (some pos)) (dir' : FATDir) :
    openLoop drive fs fresh (fuel + 1) dir bufSize save ≠ .ok (some dir') := by
  rw [openLoop, hsave]
  dsimp only
  intro hopen
  cases hfound : findEntryLoop dir dirName fuel 0 with
  | error e =>
    rw [hfound] at hopen
    cases hopen
  | ok found =>
    rw [hfound] at hopen
    cases found with
    | none => cases hopen
    | some pos => exact hfind pos hfound

section Step

variable (h : step.Ok drive fs) (hdir : HoldsDir drive fs step.clusters dir bufSize)

include h

theorem DirStep.Ok.small : 32 * dirEntries fs step.clusters < 2 ^ 32 := by
  rw [← size_eq]
  exact h.intact.size

include hdir

theorem DirStep.Ok.find (hpass : step.Passes fs) (hfuel : step.items.length ≤ fuel) :
    findEntryLoop dir step.record.name fuel 0 = .ok (some (32 * step.record.next)) := by
  have hscan := findEntryLoop_scan h.items hdir.data h.small h.first hpass.fits fuel hfuel
  rw [if_neg (Nat.not_le.mpr hpass.goesOn), Nat.mul_zero] at hscan
  rw [hdir.eq]
  exact hscan

theorem DirStep.Ok.not_find (hpass : ¬ step.Passes fs) (hfuel : step.items.length ≤ fuel)
    (pos : Nat) : findEntryLoop dir step.record.name fuel 0 ≠ .ok (some pos) := by
  rw [hdir.eq]
  by_cases hfits : ∀ r ∈ scanned step.record.name step.items, r.name.length < 512
  · have hend : dirEntries fs step.clusters ≤ step.record.next :=
      Nat.le_of_not_lt fun hlt => hpass ⟨hfits, hlt⟩
    have hscan := findEntryLoop_scan h.items hdir.data h.small h.first hfits fuel hfuel
    rw [if_pos hend, Nat.mul_zero] at hscan
    rw [hscan]
    intro h
    cases h
  · push Not at hfits
    have hscan := findEntryLoop_overflow h.items hdir.data h.small hfits fuel hfuel
    rw [Nat.mul_zero] at hscan
    rw [hscan]
    intro h
    cases h

end Step

/-- The walk leads to the last directory, if it passes at every step. -/
theorem Leads.openLoop (hfs : fatfsInit drive = some fs) {cs es : List Nat} {steps : List DirStep}
    (h : Leads drive fs cs steps es) (hpass : ∀ step ∈ steps, step.Passes fs) :
    ∀ (dir : FATDir) (bufSize : Nat) (save : List UInt8), HoldsDir drive fs cs dir bufSize →
      components save = steps.map (·.record.name) → ∃ dir' bufSize' rounds,
        HoldsDir drive fs es dir' bufSize' ∧ ∀ fuel ≥ rounds,
          Raincloud.openLoop drive fs fresh fuel dir bufSize save = .ok (some dir') := by
  induction h with
  | here =>
    intro dir bufSize save hdir hnames
    refine ⟨dir, bufSize, 1, hdir, fun fuel hfuel => ?_⟩
    obtain ⟨fuel, rfl⟩ := Nat.exists_eq_add_of_le' hfuel
    exact openLoop_end hnames
  | @down step ds es steps hok hhead hrest ih =>
    intro dir bufSize save hdir hnames
    have hpass' := List.forall_mem_cons.mp hpass
    obtain ⟨save', hsave, hnames'⟩ := strtokR_of_components hnames
    have hcluster := hdir.firstCluster (Nat.le_of_lt hpass'.1.goesOn)
    obtain ⟨dir', bufSize', hdir', hstep⟩ := openLoop_step hfs hsave hrest.intact
      (hcluster.trans hhead.symm) hdir.offset hdir.small
    obtain ⟨last, lastSize, rounds, hlast, hopen⟩ := ih hpass'.2 dir' bufSize' save' hdir' hnames'
    refine ⟨last, lastSize, rounds + ds.length + step.items.length + 1, hlast, fun fuel hfuel => ?_⟩
    obtain ⟨fuel, rfl⟩ := Nat.exists_eq_add_of_le' (Nat.le_trans (Nat.le_add_left 1 _) hfuel)
    rw [hstep fuel (by omega) (hok.find hdir hpass'.1 (by omega)), hopen fuel (by omega)]

/-- Otherwise it leads nowhere. -/
theorem Leads.openLoop_lost (hfs : fatfsInit drive = some fs) {cs es : List Nat}
    {steps : List DirStep} (h : Leads drive fs cs steps es)
    (hpass : ¬ ∀ step ∈ steps, step.Passes fs) :
    ∀ (dir : FATDir) (bufSize : Nat) (save : List UInt8), HoldsDir drive fs cs dir bufSize →
      components save = steps.map (·.record.name) → ∃ rounds, ∀ fuel ≥ rounds, ∀ dir',
        Raincloud.openLoop drive fs fresh fuel dir bufSize save ≠ .ok (some dir') := by
  induction h with
  | here => exact absurd (fun step hstep => (List.not_mem_nil hstep).elim) hpass
  | @down step ds es steps hok hhead hrest ih =>
    intro dir bufSize save hdir hnames
    obtain ⟨save', hsave, hnames'⟩ := strtokR_of_components hnames
    by_cases hstep : step.Passes fs
    · have hcluster := hdir.firstCluster (Nat.le_of_lt hstep.goesOn)
      obtain ⟨dir', bufSize', hdir', hnext⟩ := openLoop_step hfs hsave hrest.intact
        (hcluster.trans hhead.symm) hdir.offset hdir.small
      obtain ⟨rounds, hopen⟩ := ih (fun h => hpass (List.forall_mem_cons.mpr ⟨hstep, h⟩)) dir'
        bufSize' save' hdir' hnames'
      refine ⟨rounds + ds.length + step.items.length + 1, fun fuel hfuel => ?_⟩
      obtain ⟨fuel, rfl⟩ := Nat.exists_eq_add_of_le' (Nat.le_trans (Nat.le_add_left 1 _) hfuel)
      rw [hnext fuel (by omega) (hok.find hdir hstep (by omega))]
      exact hopen fuel (by omega)
    · refine ⟨step.items.length + 1, fun fuel hfuel => ?_⟩
      obtain ⟨fuel, rfl⟩ := Nat.exists_eq_add_of_le' (Nat.le_trans (Nat.le_add_left 1 _) hfuel)
      exact Raincloud.openLoop_lost hsave (hok.not_find hdir hstep (by omega))

end Walk

/-! ## Paths -/

/-- An open directory at its start, with all of its data. -/
structure OpenAt (drive : Drive) (fs : FATFS) (es : List Nat) (dir : FATDir) : Prop where
  offset : dir.offset = 0
  size : dir.size = es.length * clusterSize fs
  data : ∀ j < dir.size, dir.buf (32 + j) = chainByte drive fs es j

theorem HoldsDir.openAt {es : List Nat} {dir : FATDir} {bufSize : Nat}
    (h : HoldsDir drive fs es dir bufSize) : OpenAt drive fs es dir where
  offset := h.offset
  size := h.size
  data j hj := by
    rw [h.size] at hj
    have hdata : dirBlock drive fs es (32 + j) = dir.buf (32 + j) :=
      (h.data _ (by omega) (by rw [← size_eq]; omega)).symm
    rw [← hdata, dirBlock, loadedChain, Mem.put,
      if_pos ⟨Nat.le_add_right _ _, Nat.add_lt_add_left hj _⟩, Nat.add_sub_cancel_left]

/-- `fatfs_opendir` returns the directory `es` for the path. -/
def OpensAs (drive : Drive) (fs : FATFS) (fresh : Fresh) (path : List UInt8) (es : List Nat) :
    Prop :=
  ∃ dir rounds, OpenAt drive fs es dir ∧
    ∀ fuel ≥ rounds, fatfsOpendir drive fs fresh fuel path = .ok (some dir)

/-- The directory that the walk begins with. -/
theorem IntactDir.holdsDir {cs : List Nat} (h : IntactDir drive fs cs) (heap : Mem) :
    HoldsDir drive fs cs ⟨loadedChain drive fs cs heap, cs.length * clusterSize fs, 0⟩
      (cs.length * clusterSize fs) :=
  ⟨rfl, rfl, loadedChain_sameEntries _ _ _ _ _, le_rfl, h.size⟩

section Path

variable {fresh : Fresh} {cs es : List Nat} {steps : List DirStep} {path : List UInt8}
  (hfs : fatfsInit drive = some fs) (h : Leads drive fs cs steps es)
  (hroot : cs.headD 0 = fs.bpb.rootClus) (hpath : components path = steps.map (·.record.name))

include hfs h hroot hpath

theorem Leads.opens (hpass : ∀ step ∈ steps, step.Passes fs) : OpensAs drive fs fresh path es := by
  obtain ⟨dir, bufSize, rounds, hlast, hopen⟩ :=
    h.openLoop hfs hpass _ _ path (h.intact.holdsDir fresh.dir) hpath
  refine ⟨dir, rounds + cs.length, hlast.openAt, fun fuel hfuel => ?_⟩
  rw [opendir_eq hfs h.intact.chain hroot h.intact.size (by omega), hopen fuel (by omega)]

theorem Leads.not_opens (hpass : ¬ ∀ step ∈ steps, step.Passes fs) :
    ¬ OpensAs drive fs fresh path es := by
  rintro ⟨dir, rounds, -, hopen⟩
  obtain ⟨rounds', hlost⟩ :=
    h.openLoop_lost hfs hpass _ _ path (h.intact.holdsDir fresh.dir) hpath
  have hfuel : rounds ≤ rounds + rounds' + cs.length := by omega
  refine hlost (rounds + rounds' + cs.length) (by omega) dir ?_
  rw [← opendir_eq hfs h.intact.chain hroot h.intact.size (by omega), hopen _ hfuel]

end Path

/--
A path of directories is opened as the last of them exactly if each record on it has slots
behind it in its directory, and the names of the records up to it fit.
-/
theorem opens_iff {cs es : List Nat} {steps : List DirStep} {path : List UInt8}
    (hfs : fatfsInit drive = some fs) (h : Leads drive fs cs steps es)
    (hroot : cs.headD 0 = fs.bpb.rootClus) (hpath : components path = steps.map (·.record.name))
    (fresh : Fresh) : OpensAs drive fs fresh path es ↔ ∀ step ∈ steps, step.Passes fs :=
  ⟨fun hopens => by_contra fun hpass => h.not_opens hfs hroot hpath hpass hopens,
    h.opens hfs hroot hpath⟩

/-! ## A root directory of directories -/

theorem DirItem.ofShort {dir : Mem} {pos : Nat} {name : List UInt8}
    (hused : dir (32 + 32 * pos) ≠ 0x00 ∧ dir (32 + 32 * pos) ≠ 0xe5)
    (hattr : dir (32 + 32 * pos + 11) ≠ attrLongName)
    (hname : shortName dir (32 + 32 * pos) = name) : DirItem dir ⟨pos, 0, name⟩ where
  long i hi := (Nat.not_lt_zero i hi).elim
  short := hattr
  kind := .inl ⟨hused, fun i hi => (Nat.not_lt_zero i hi).elim⟩
  name := ⟨0, 0, by rw [readName, if_neg hused.1, if_pos hattr, hname]; rfl⟩

/-- Short entries one behind the other. -/
theorem Listing.range {P : DirRecord → Prop} {dir : Mem} {entries : Nat} {name : Nat → List UInt8} :
    ∀ n pos, (∀ p, pos ≤ p → p < pos + n → P ⟨p, 0, name p⟩) → pos + n ≤ entries →
      (pos + n = entries ∨ dir (32 + 32 * (pos + n)) = 0) →
        Listing P dir entries pos ((List.range' pos n).map fun p => ⟨p, 0, name p⟩)
  | 0, _, _, hle, hend => .stop hle hend
  | n + 1, pos, h, hle, hend => by
    rw [← Nat.succ_add_eq_add_succ] at hle hend
    exact .record (r := ⟨pos, 0, name pos⟩) (h pos le_rfl (by omega))
      (Listing.range n (pos + 1) (fun p hp hlt => h p (by omega) (by omega)) hle hend)

/-- A root directory with the directories `A`, `B` and so on, all of them at cluster 3. -/
def dirSector (n : Nat) : Mem := fun i =>
  if 32 * n ≤ i then 0 else if i % 32 = 0 then UInt8.ofNat (0x41 + i / 32)
  else if i % 32 < 11 then 0x20 else if i % 32 = 11 then 0x10 else if i % 32 = 26 then 3 else 0

def letterName (p : Nat) : List UInt8 := [UInt8.ofNat (0x41 + p)]

def dirRecords (n : Nat) : List DirRecord := (List.range' 0 n).map fun p => ⟨p, 0, letterName p⟩

/-- The last of them. -/
def lastStep (n : Nat) : DirStep := ⟨[2], dirRecords n, ⟨n - 1, 0, letterName (n - 1)⟩⟩

theorem dirSector_items {n : Nat} (hn : n = 1 ∨ n = 16) : Listing
    (DirItem (sectorBlock (dirSector n))) (sectorBlock (dirSector n)) 16 0 (dirRecords n) := by
  have hitem : ∀ p < n, (sectorBlock (dirSector n) (32 + 32 * p) ≠ 0x00 ∧
      sectorBlock (dirSector n) (32 + 32 * p) ≠ 0xe5) ∧
      sectorBlock (dirSector n) (32 + 32 * p + 11) ≠ attrLongName ∧
      shortName (sectorBlock (dirSector n)) (32 + 32 * p) = letterName p := by
    rcases hn with rfl | rfl <;> decide +kernel
  refine Listing.range n 0 (fun p _ hp => ?_) (by omega) ?_
  · rw [Nat.zero_add] at hp
    exact .ofShort (hitem p hp).1 (hitem p hp).2.1 (hitem p hp).2.2
  · rcases hn with rfl | rfl
    · exact .inr (by decide)
    · exact .inl rfl

/-- The path of the last one leads to cluster 3. -/
theorem dirSector_leads {n : Nat} (hn : n = 1 ∨ n = 16) :
    Leads (sectorDrive (dirSector n)) rootFs [2] [lastStep n] [3] := by
  have hblock : dirBlock (sectorDrive (dirSector n)) rootFs [2] = sectorBlock (dirSector n) :=
    sectorDrive_loaded _
  have hentries : dirEntries rootFs [2] = 16 := by decide
  have hsize : [2].length * clusterSize rootFs < 2 ^ 32 := by decide
  have hchain : IsChain (sectorDrive (dirSector n)) rootFs [3] := by
    refine .last (Eq.trans (b := extractFatEntry rootDrive rootFs 3) ?_ (by decide +kernel))
    unfold extractFatEntry pioReadSector
    rfl
  have hitems := dirSector_items hn
  have hentry :
      DirStruc.firstCluster (.ofMem (sectorBlock (dirSector n)) (32 + 32 * (n - 1))) = 3 ∧
      DirStruc.attr (.ofMem (sectorBlock (dirSector n)) (32 + 32 * (n - 1))) &&& attrDirectory
        ≠ 0 := by
    rcases hn with rfl | rfl <;> decide +kernel
  have hfirst : firstNamed (letterName (n - 1)) (dirRecords n)
      = some ⟨n - 1, 0, letterName (n - 1)⟩ := by
    rcases hn with rfl | rfl <;> rfl
  rw [← hblock] at hitems hentry
  rw [← hentries] at hitems
  have hok : (lastStep n).Ok (sectorDrive (dirSector n)) rootFs :=
    ⟨⟨sectorDrive_chain _, hsize⟩, hitems, hfirst, hentry.2⟩
  have hhead : [3].headD 0 = ((lastStep n).entry (sectorDrive (dirSector n)) rootFs).firstCluster :=
    hentry.1.symm
  exact .down hok hhead (.here ⟨hchain, by decide⟩)

/-- The only directory is opened. -/
theorem opens_A : OpensAs (sectorDrive (dirSector 1)) rootFs ⟨fun _ => 0⟩ [slash, 0x41] [3] :=
  (opens_iff (sectorDrive_init _) (dirSector_leads (.inl rfl)) (by decide) (by decide) _).mpr
    (List.forall_mem_singleton.mpr ⟨by decide, by decide⟩)

/-- The last of the directories that fill a sector is not found. -/
theorem last_missed : fatfsInit (sectorDrive (dirSector 16)) = some rootFs ∧
    rootFs.type = .FAT32 ∧ Leads (sectorDrive (dirSector 16)) rootFs [2] [lastStep 16] [3] ∧
    [2].headD 0 = rootFs.bpb.rootClus ∧ components [slash, 0x50] = [(lastStep 16).record.name] ∧
    ¬ OpensAs (sectorDrive (dirSector 16)) rootFs ⟨fun _ => 0⟩ [slash, 0x50] [3] := by
  have hleads := dirSector_leads (n := 16) (.inr rfl)
  refine ⟨sectorDrive_init _, by decide, hleads, by decide, by decide, ?_⟩
  refine hleads.not_opens (sectorDrive_init _) (by decide) (by decide) fun hpass => ?_
  exact absurd (hpass _ (List.mem_singleton_self _)).goesOn (by decide)

end Raincloud
