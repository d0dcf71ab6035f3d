import Raincloud.Fs.Fat
import Raincloud.Infra.Word

/-!
# Entries of the file allocation table

The first table of a volume is an array of bytes, with the entries packed into it: 12, 16 or
28 bits each. `extract_fat_entry` reads one sector of it, so it misses the second byte of an
entry of 12 bits that crosses into the next sector.
-/

set_option linter.style.nameCheck false

namespace Raincloud

open Infra

/-! ## The table as an array of bytes -/

/-- Byte `i` of the first table: its sectors one after another. -/
def fatBytes (drive : Drive) (fs : FATFS) : Mem := fun i =>
  drive.sector ((fs.lbaStart + fs.firstFATSec + i / 512) % 2 ^ 32) (i % 512)

/-- The byte the entry of a cluster starts at. -/
def FatType.entryOffset (cluster : Nat) : FatType → Nat
  | FAT12 => cluster + cluster / 2
  | FAT16 => cluster * 2
  | FAT32 => cluster * 4

/-- The entry of a cluster, as the bytes from `offset` on have it packed. -/
def FatType.entryAt (table : Mem) (cluster offset : Nat) : FatType → Nat
  | FAT12 =>
    if cluster % 2 = 1 then table.load offset 2 / 2 ^ 4 else table.load offset 2 % 2 ^ 12
  | FAT16 => table.load offset 2
  | FAT32 => table.load offset 4 % 2 ^ 28

/-- The entry of a cluster. -/
def packedEntry (drive : Drive) (fs : FATFS) (cluster : Nat) : Nat :=
  fs.type.entryAt (fatBytes drive fs) cluster (fs.type.entryOffset cluster)

/-- The entry lies in the table. -/
def EntryInside (fs : FATFS) (cluster : Nat) : Prop :=
  fs.type.entryOffset cluster + fs.type.entryBytes ≤ fs.fatSecs * 512

/-- The entry is extracted from inside the sector buffer. -/
structure ExtractOk (drive : Drive) (fs : FATFS) (cluster : Nat) : Prop where
  value : extractFatEntry drive fs cluster = packedEntry drive fs cluster
  inside : (computeFatForCluster fs 0 cluster).2 + fs.type.entryBytes ≤ 512

/-! ## Extraction -/

theorem fatfsInit_bytsPerSec {drive : Drive} {fs : FATFS} (h : fatfsInit drive = some fs) :
    fs.bpb.bytsPerSec = 512 := by
  obtain ⟨hok, hfs⟩ := Option.ite_none_right_eq_some.mp h
  rw [← Option.some.inj hfs]
  exact hok.1

theorem computeFat_eq {fs : FATFS} (h : fs.bpb.bytsPerSec = 512) (cluster : Nat) :
    computeFatForCluster fs 0 cluster
      = ((fs.firstFATSec + fs.type.entryOffset cluster % 2 ^ 32 / 512) % 2 ^ 32,
        fs.type.entryOffset cluster % 512) := by
  have hmod : ∀ x : Nat, x % 2 ^ 32 % 512 = x % 512 := fun x => by omega
  rw [computeFatForCluster, h, Nat.zero_mul, Nat.add_zero]
  cases fs.type <;> simp only [FatType.entryOffset, hmod]

/-- Inside the buffer are the bytes of the table. -/
theorem buffer_load (drive : Drive) (fs : FATFS) (offset n : Nat) (h : offset % 512 + n ≤ 512) :
    (pioReadSector drive 0 ((fs.firstFATSec + offset / 512) % 2 ^ 32 + fs.lbaStart)
      drive.behind).load (offset % 512) n = (fatBytes drive fs).load offset n := by
  have hsector : ((fs.firstFATSec + offset / 512) % 2 ^ 32 + fs.lbaStart) % 2 ^ 32
      = (fs.lbaStart + fs.firstFATSec + offset / 512) % 2 ^ 32 := by omega
  -- byte `i` of the one word is byte `i` of the other
  have hbyte : ∀ i < n, (pioReadSector drive 0 ((fs.firstFATSec + offset / 512) % 2 ^ 32
      + fs.lbaStart) drive.behind) (offset % 512 + i) = fatBytes drive fs (offset + i) := by
    intro i hi
    rw [pioReadSector, if_pos (by omega), hsector, fatBytes, Nat.sub_zero]
    have hdiv : (offset + i) / 512 = offset / 512 := by omega
    have hrem : (offset + i) % 512 = offset % 512 + i := by omega
    rw [hdiv, hrem]
  exact Mem.load_shift hbyte

/-- What is extracted is the entry at the offset that fits `uint32_t`. -/
theorem extractFatEntry_eq {drive : Drive} {fs : FATFS} (h : fs.bpb.bytsPerSec = 512)
    {cluster : Nat} (hin : fs.type.entryOffset cluster % 512 + fs.type.entryBytes ≤ 512) :
    extractFatEntry drive fs cluster = fs.type.entryAt (fatBytes drive fs) cluster
      (fs.type.entryOffset cluster % 2 ^ 32) := by
  have hmod : fs.type.entryOffset cluster % 2 ^ 32 % 512 = fs.type.entryOffset cluster % 512 := by
    omega
  have hload := buffer_load drive fs (fs.type.entryOffset cluster % 2 ^ 32) fs.type.entryBytes
    (by rw [hmod]; exact hin)
  rw [hmod] at hload
  rw [extractFatEntry, computeFat_eq h]
  cases ht : fs.type with
  | FAT12 =>
    simp only [ht, FatType.entryBytes] at hload
    simp only [FatType.entryAt]
    rw [hload, Nat.and_one_is_mod, Nat.shiftRight_eq_div_pow, show 0x0fff = 2 ^ 12 - 1 from rfl,
      and_mask]
    by_cases hodd : cluster % 2 = 1
    · rw [if_pos (by omega), if_pos hodd]
    · rw [if_neg (by omega), if_neg hodd]
  | FAT16 =>
    rw [ht] at hload
    exact hload
  | FAT32 =>
    simp only [ht, FatType.entryBytes] at hload
    simp only [FatType.entryAt]
    rw [hload, show 0x0FFFFFFF = 2 ^ 28 - 1 from rfl, and_mask]

/-- Only an entry of 12 bits can cross the end of a sector. -/
theorem entry_inside_iff (type : FatType) (cluster : Nat) :
    type.entryOffset cluster % 512 + type.entryBytes ≤ 512
      ↔ ¬ (type = .FAT12 ∧ (cluster + cluster / 2) % 512 = 511) := by
  cases type <;> simp only [FatType.entryOffset, FatType.entryBytes] <;> simp <;> omega

/--
On a volume of 512-byte sectors the entry of a cluster is extracted as it is packed, from
inside the buffer, exactly if it is not one of 12 bits in two sectors and its offset fits
`uint32_t`, or the table has the same entry where the offset wraps to.
-/
theorem extractOk_iff {drive : Drive} {fs : FATFS} (h : fatfsInit drive = some fs)
    (cluster : Nat) : ExtractOk drive fs cluster ↔
      ¬ (fs.type = .FAT12 ∧ (cluster + cluster / 2) % 512 = 511) ∧
        (fs.type.entryOffset cluster < 2 ^ 32 ∨
          fs.type.entryAt (fatBytes drive fs) cluster (fs.type.entryOffset cluster % 2 ^ 32)
            = packedEntry drive fs cluster) := by
  have h512 := fatfsInit_bytsPerSec h
  rw [← entry_inside_iff]
  constructor
  · rintro ⟨hvalue, hinside⟩
    rw [computeFat_eq h512] at hinside
    refine ⟨hinside, .inr ?_⟩
    rw [← extractFatEntry_eq h512 hinside]
    exact hvalue
  · rintro ⟨hinside, hfits⟩
    refine ⟨?_, by rw [computeFat_eq h512]; exact hinside⟩
    rw [extractFatEntry_eq h512 hinside]
    rcases hfits with hlt | heq
    · rw [Nat.mod_eq_of_lt hlt, packedEntry]
    · exact heq

/-! ## A volume -/

/-- A boot sector of a volume with two sectors of table behind it. -/
def smallBoot : Mem
  | 12 | 22 => 2
  | 13 | 14 | 16 => 1
  | 19 => 100
  | _ => 0

/-- A small volume whose tables are all ones. -/
def smallDrive : Drive where
  sector lba := if lba = 2048 then smallBoot else fun _ => 0xff
  behind _ := 0

theorem smallDrive_init : ∃ fs, fatfsInit smallDrive = some fs ∧ fs.type = .FAT12 ∧
    fs.fatSecs = 2 :=
  ⟨FATFS.ofBPB 2048 (BPB.ofSector (smallDrive.sector 2048)),
    by rw [fatfsInit]; exact if_pos (by decide), by decide, by decide⟩

/-- The entry of cluster 2 ends the file. -/
theorem extractOk_iff_two : ∃ fs, fatfsInit smallDrive = some fs ∧ ExtractOk smallDrive fs 2 := by
  obtain ⟨fs, hfs, htype, -⟩ := smallDrive_init
  refine ⟨fs, hfs, (extractOk_iff hfs 2).mpr ⟨by omega, .inl ?_⟩⟩
  rw [htype]
  decide

/-- The entry of cluster 341 has its second byte in the next sector, behind the buffer. -/
theorem extract_crossing : ∃ fs, fatfsInit smallDrive = some fs ∧ EntryInside fs 341 ∧
    ¬ ExtractOk smallDrive fs 341 := by
  obtain ⟨fs, hfs, htype, hsecs⟩ := smallDrive_init
  refine ⟨fs, hfs, ?_, fun hok => ?_⟩
  · rw [EntryInside, htype, hsecs]
    decide
  · have hinside := hok.inside
    rw [computeFat_eq (fatfsInit_bytsPerSec hfs), htype] at hinside
    exact (entry_inside_iff .FAT12 341).mp hinside ⟨rfl, rfl⟩

end Raincloud
