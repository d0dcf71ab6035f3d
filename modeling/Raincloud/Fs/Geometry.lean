import Raincloud.Fs.FatEntry
import Raincloud.Fs.ClusterChain
import Raincloud.Infra.Slots

/-!
# Geometry of a volume

The reserved sectors, the tables and the root directory come before the clusters. What
`fatfs_init` computes from a boot sector places the clusters in slots of the sectors behind
them, the tables in slots of the sectors before, and the entries in slots of a table.
-/

set_option linter.style.nameCheck false

namespace Raincloud

open Infra

variable {drive : Drive} {fs : FATFS}

/-! ## The sectors that are read -/

/-- `read_cluster` reads the sector for the cluster. -/
def ReadsSector (fs : FATFS) (cluster lba : Nat) : Prop :=
  ∃ i < fs.bpb.secPerClus, lba = (clusterStart fs cluster + i) % 2 ^ 32

/-- No other sector is read. -/
theorem readCluster_congr {drive' : Drive} {cluster : Nat}
    (h : ∀ lba, ReadsSector fs cluster lba → drive'.sector lba = drive.sector lba) (buf : Nat)
    (mem : Mem) : readCluster drive' fs buf cluster mem = readCluster drive fs buf cluster mem := by
  rw [readCluster_eq, readCluster_eq]
  refine Mem.put_congr fun j hj => ?_
  have hsector : j / 512 < fs.bpb.secPerClus := Nat.div_lt_of_lt_mul (by rwa [Nat.mul_comm])
  rw [clusterByte, clusterByte, h _ ⟨j / 512, hsector, rfl⟩]

/-- The sector is one of table `k`. -/
def TableSector (fs : FATFS) (k lba : Nat) : Prop :=
  InSlot (fs.lbaStart + fs.firstFATSec) fs.fatSecs k lba

/-- `c` is a number of a cluster of the volume. -/
def IsCluster (fs : FATFS) (c : Nat) : Prop := 2 ≤ c ∧ c < fs.countOfClus + 2

/-- What is in front of the clusters fits in the volume, and the volume on the disk. -/
structure VolumeFits (fs : FATFS) : Prop where
  overhead : fs.bpb.rsvdSecCnt + fs.bpb.numFATs * fs.fatSecs + fs.rootDirSecs ≤ fs.totSecs
  disk : fs.lbaStart + fs.totSecs < 2 ^ 28

/-! ## What `fatfs_init` computes -/

theorem fatfsInit_eq (h : fatfsInit drive = some fs) :
    fs = FATFS.ofBPB 2048 (BPB.ofSector (drive.sector 2048)) := by
  obtain ⟨-, hfs⟩ := Option.ite_none_right_eq_some.mp h
  exact (Option.some.inj hfs).symm

/-- The clusters come behind the reserved sectors, the tables and the root directory. -/
theorem firstDataSec_eq (h : fatfsInit drive = some fs) (hfits : VolumeFits fs) :
    fs.firstDataSec = fs.bpb.rsvdSecCnt + fs.bpb.numFATs * fs.fatSecs + fs.rootDirSecs := by
  have hlt : fs.bpb.rsvdSecCnt + fs.bpb.numFATs * fs.fatSecs + fs.rootDirSecs < 2 ^ 32 := by
    have h1 := hfits.overhead
    have h2 := hfits.disk
    omega
  rw [Nat.add_assoc] at hlt ⊢
  rw [fatfsInit_eq h] at hlt ⊢
  exact Nat.mod_eq_of_lt hlt

theorem firstFATSec_eq (h : fatfsInit drive = some fs) : fs.firstFATSec = fs.bpb.rsvdSecCnt := by
  rw [fatfsInit_eq h]
  rfl

/-- The sectors from the first one of the clusters on. -/
theorem dataSecs_eq (h : fatfsInit drive = some fs) (hfits : VolumeFits fs) :
    fs.firstDataSec + fs.dataSecs = fs.totSecs := by
  have hfirst := firstDataSec_eq h hfits
  have hover := hfits.overhead
  have hdisk := hfits.disk
  have hdata : fs.dataSecs = (fs.totSecs + (2 ^ 32 - fs.firstDataSec)) % 2 ^ 32 := by
    rw [fatfsInit_eq h]
    rfl
  omega

theorem clusters_fit (h : fatfsInit drive = some fs) :
    fs.countOfClus * fs.bpb.secPerClus ≤ fs.dataSecs := by
  have hcount : fs.countOfClus = fs.dataSecs / fs.bpb.secPerClus := by
    rw [fatfsInit_eq h]
    rfl
  rw [hcount]
  exact Nat.div_mul_le_self _ _

/-! ## Clusters -/

/-- Where the clusters begin. -/
def dataStart (fs : FATFS) : Nat := fs.lbaStart + fs.firstDataSec

theorem slots_end (h : fatfsInit drive = some fs) (hfits : VolumeFits fs) :
    dataStart fs + fs.countOfClus * fs.bpb.secPerClus ≤ fs.lbaStart + fs.totSecs := by
  have hclus := clusters_fit h
  have hdata := dataSecs_eq h hfits
  unfold dataStart
  omega

/-- The sectors of a cluster are the slot of its number. -/
theorem ReadsSector.inSlot (h : fatfsInit drive = some fs) (hfits : VolumeFits fs) {c lba : Nat}
    (hc : IsCluster fs c) (hread : ReadsSector fs c lba) :
    InSlot (dataStart fs) fs.bpb.secPerClus (c - 2) lba := by
  obtain ⟨i, hi, rfl⟩ := hread
  have hin : InSlot (dataStart fs) fs.bpb.secPerClus (c - 2)
      (dataStart fs + (c - 2) * fs.bpb.secPerClus + i) := .of_lt hi
  have hlt := hin.lt_of_lt (show c - 2 < fs.countOfClus by have := hc.1; have := hc.2; omega)
  have hend := slots_end h hfits
  have hdisk := hfits.disk
  have hnumber : c + (2 ^ 32 - 2) = c - 2 + 2 ^ 32 := by
    have h2 := hc.1
    omega
  have hsector : (clusterStart fs c + i) % 2 ^ 32
      = dataStart fs + (c - 2) * fs.bpb.secPerClus + i := by
    rw [clusterStart, Nat.mod_add_mod, hnumber, Nat.add_mul, ← dataStart, ← Nat.add_assoc,
      Nat.add_right_comm, Nat.mul_comm (2 ^ 32), Nat.add_mul_mod_self_right,
      Nat.mod_eq_of_lt (by omega)]
  rw [hsector]
  exact hin

/-! ## Tables -/

/-- The tables end before the clusters begin. -/
theorem TableSector.lt_dataStart (h : fatfsInit drive = some fs) (hfits : VolumeFits fs) {k lba : Nat}
    (hk : k < fs.bpb.numFATs) (htable : TableSector fs k lba) : lba < dataStart fs := by
  have hlt := InSlot.lt_of_lt htable hk
  rw [firstFATSec_eq h] at hlt
  rw [dataStart, firstDataSec_eq h hfits]
  omega

/-- The place of an entry, counted from the start of its table. -/
theorem computeFat_place (h : fatfsInit drive = some fs) (hfits : VolumeFits fs) {k c : Nat}
    (hk : k < fs.bpb.numFATs) (hc : c < 2 ^ 28)
    (hoff : fs.type.entryOffset c < fs.fatSecs * 512) :
    computeFatForCluster fs k c = (fs.firstFATSec + k * fs.fatSecs + fs.type.entryOffset c / 512,
      fs.type.entryOffset c % 512) := by
  have hsec : fs.type.entryOffset c / 512 < fs.fatSecs :=
    Nat.div_lt_of_lt_mul (by rwa [Nat.mul_comm])
  have hin : TableSector fs k (fs.lbaStart + fs.firstFATSec + k * fs.fatSecs
      + fs.type.entryOffset c / 512) := .of_lt hsec
  have hlt := hin.lt_dataStart h hfits hk
  have hend := slots_end h hfits
  have hdisk := hfits.disk
  have hmod : fs.type.entryOffset c % 2 ^ 32 = fs.type.entryOffset c := by
    refine Nat.mod_eq_of_lt ?_
    cases fs.type <;> simp only [FatType.entryOffset] <;> omega
  have hplace : computeFatForCluster fs k c = ((fs.firstFATSec
      + fs.type.entryOffset c % 2 ^ 32 / 512 + k * fs.fatSecs) % 2 ^ 32,
      fs.type.entryOffset c % 2 ^ 32 % 512) := by
    rw [computeFatForCluster, fatfsInit_bytsPerSec h]
    cases fs.type <;> rfl
  rw [hplace, hmod, Nat.mod_eq_of_lt (by omega), Nat.add_right_comm]

/-- The bytes of an entry of 16 or 32 bits are the slot of its cluster. -/
theorem entry_inSlot {type : FatType} (htype : type ≠ .FAT12) {c i : Nat}
    (hi : i < type.entryBytes) : InSlot 0 type.entryBytes c (type.entryOffset c + i) := by
  have hoff : type.entryOffset c = 0 + c * type.entryBytes := by
    cases type with
    | FAT12 => exact absurd rfl htype
    | FAT16 => exact (Nat.zero_add _).symm
    | FAT32 => exact (Nat.zero_add _).symm
  rw [hoff]
  exact .of_lt hi

/-! ## The volume -/

/-- The entry of the cluster lies in the table. -/
structure InsideTable (fs : FATFS) (k c : Nat) : Prop where
  table : k < fs.bpb.numFATs
  cluster : c < 2 ^ 28
  offset : fs.type.entryOffset c < fs.fatSecs * 512

/-- Clusters and entries have their places to themselves. -/
structure SoundGeometry (fs : FATFS) : Prop where
  inside : ∀ c, IsCluster fs c → ∀ lba, ReadsSector fs c lba →
    fs.lbaStart + fs.firstDataSec ≤ lba ∧ lba < fs.lbaStart + fs.totSecs
  apart : ∀ c d, IsCluster fs c → IsCluster fs d → c ≠ d →
    ∀ lba, ReadsSector fs c lba → ¬ ReadsSector fs d lba
  tables : ∀ c, IsCluster fs c → ∀ lba, ReadsSector fs c lba →
    ∀ k < fs.bpb.numFATs, ¬ TableSector fs k lba
  place : ∀ k c, InsideTable fs k c →
    TableSector fs k (fs.lbaStart + (computeFatForCluster fs k c).1) ∧
      (computeFatForCluster fs k c).2 < 512
  entries : fs.type ≠ .FAT12 → ∀ k c k' d, InsideTable fs k c → InsideTable fs k' d → c ≠ d →
    ∀ i < fs.type.entryBytes, ∀ j < fs.type.entryBytes,
      ((computeFatForCluster fs k c).1, (computeFatForCluster fs k c).2 + i)
        ≠ ((computeFatForCluster fs k' d).1, (computeFatForCluster fs k' d).2 + j)

theorem entries_apart (h : fatfsInit drive = some fs) (hfits : VolumeFits fs)
    (htype : fs.type ≠ .FAT12) {k c k' d i j : Nat} (hc : InsideTable fs k c)
    (hd : InsideTable fs k' d) (hi : i < fs.type.entryBytes) (hj : j < fs.type.entryBytes)
    (hsame : ((computeFatForCluster fs k c).1, (computeFatForCluster fs k c).2 + i)
      = ((computeFatForCluster fs k' d).1, (computeFatForCluster fs k' d).2 + j)) : c = d := by
  rw [computeFat_place h hfits hc.table hc.cluster hc.offset,
    computeFat_place h hfits hd.table hd.cluster hd.offset] at hsame
  obtain ⟨hsec, hbyte⟩ : fs.firstFATSec + k * fs.fatSecs + fs.type.entryOffset c / 512
      = fs.firstFATSec + k' * fs.fatSecs + fs.type.entryOffset d / 512 ∧
      fs.type.entryOffset c % 512 + i = fs.type.entryOffset d % 512 + j := Prod.mk.inj hsame
  have hqc : fs.type.entryOffset c / 512 < fs.fatSecs :=
    Nat.div_lt_of_lt_mul (by rw [Nat.mul_comm]; exact hc.offset)
  have hqd : fs.type.entryOffset d / 512 < fs.fatSecs :=
    Nat.div_lt_of_lt_mul (by rw [Nat.mul_comm]; exact hd.offset)
  -- the sector is in one table only
  have hin : InSlot fs.firstFATSec fs.fatSecs k
      (fs.firstFATSec + k * fs.fatSecs + fs.type.entryOffset c / 512) := .of_lt hqc
  have hin' : InSlot fs.firstFATSec fs.fatSecs k'
      (fs.firstFATSec + k' * fs.fatSecs + fs.type.entryOffset d / 512) := .of_lt hqd
  obtain rfl : k = k' := hin.unique (hsec ▸ hin')
  have hbytes : fs.type.entryOffset c + i = fs.type.entryOffset d + j := by omega
  exact (entry_inSlot htype hi).unique (hbytes ▸ entry_inSlot htype hj)

/--
On every volume whose sectors in front of the clusters fit in it, no cluster reads a sector of
another cluster, of a table or from outside the volume, and no entry of 16 or 32 bits has a
byte of another one.
-/
theorem fatfsInit_soundGeometry (h : fatfsInit drive = some fs) (hfits : VolumeFits fs) :
    SoundGeometry fs where
  inside c hc lba hread := by
    have hin := hread.inSlot h hfits hc
    have hlt := hin.lt_of_lt (show c - 2 < fs.countOfClus by have := hc.1; have := hc.2; omega)
    exact ⟨hin.le, Nat.lt_of_lt_of_le hlt (slots_end h hfits)⟩
  apart c d hc hd hne lba hread hread' := by
    have hnumber := (hread.inSlot h hfits hc).unique (hread'.inSlot h hfits hd)
    have h1 := hc.1
    have h2 := hd.1
    omega
  tables c hc lba hread k hk htable :=
    absurd (htable.lt_dataStart h hfits hk) (Nat.not_lt.mpr (hread.inSlot h hfits hc).le)
  place k c hc := by
    rw [computeFat_place h hfits hc.table hc.cluster hc.offset, ← Nat.add_assoc, ← Nat.add_assoc]
    refine ⟨.of_lt (Nat.div_lt_of_lt_mul ?_), Nat.mod_lt _ (by decide)⟩
    rw [Nat.mul_comm]
    exact hc.offset
  entries htype k c k' d hc hd hne i hi j hj hsame :=
    hne (entries_apart h hfits htype hc hd hi hj hsame)

/-- The small volume has two sectors of table in front of 97 clusters. -/
theorem soundGeometry_small : ∃ fs, fatfsInit smallDrive = some fs ∧ SoundGeometry fs := by
  obtain ⟨fs, hfs, hfits⟩ : ∃ fs, fatfsInit smallDrive = some fs ∧ VolumeFits fs :=
    ⟨FATFS.ofBPB 2048 (BPB.ofSector (smallDrive.sector 2048)),
      by rw [fatfsInit]; exact if_pos (by decide), ⟨by decide, by decide⟩⟩
  exact ⟨fs, hfs, fatfsInit_soundGeometry hfs hfits⟩

end Raincloud
