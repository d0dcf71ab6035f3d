import Raincloud.Fs.Geometry

/-!
# The arithmetic of mounting

`fatfs_init` checks the sector size and nothing else of a boot sector. Here its divisions and
subtractions are checked, while sums and products stay those of `uint32_t`.
-/

set_option linter.style.nameCheck false

namespace Raincloud

variable {drive : Drive} {fs : FATFS}

inductive MountFault where
  /-- The assertion on the sector size fails. -/
  | assertion
  | divisionByZero
  | wrapsBelowZero
  deriving DecidableEq

def checkedDiv (a b : Nat) : Except MountFault Nat :=
  if b = 0 then .error .divisionByZero else .ok (a / b)

def checkedSub (a b : Nat) : Except MountFault Nat :=
  if a < b then .error .wrapsBelowZero else .ok (a - b)

/-- `fatfs_init`, with what goes wrong in it. -/
def fatfsInitChecked (drive : Drive) : Except MountFault FATFS := do
  let lbaStart := 2048
  let bpb := BPB.ofSector (drive.sector lbaStart)
  if bpb.bytsPerSec ≠ 512 then .error .assertion
  let roundUp ← checkedSub bpb.bytsPerSec 1
  let rootDirSecs ← checkedDiv (bpb.rootEntCnt * 32 + roundUp) bpb.bytsPerSec
  let fatSecs := if bpb.fatSz16 ≠ 0 then bpb.fatSz16 else bpb.fatSz32
  let totSecs := if bpb.totSec16 ≠ 0 then bpb.totSec16 else bpb.totSec32
  let dataSecs ← checkedSub totSecs
    ((bpb.rsvdSecCnt + bpb.numFATs * fatSecs + rootDirSecs) % 2 ^ 32)
  let countOfClus ← checkedDiv dataSecs bpb.secPerClus
  let firstFATSec := bpb.rsvdSecCnt
  let firstDataSec := (bpb.rsvdSecCnt + (bpb.numFATs * fatSecs + rootDirSecs)) % 2 ^ 32
  let type :=
    if countOfClus < 4085 then .FAT12 else if countOfClus < 65525 then .FAT16 else .FAT32
  let firstRootSec := match type with
    | .FAT12 | .FAT16 => (bpb.rsvdSecCnt + bpb.numFATs * bpb.fatSz16) % 2 ^ 32
    | .FAT32 => (firstDataSec + bpb.rootClus * bpb.secPerClus) % 2 ^ 32
  return { lbaStart, bpb, type, rootDirSecs, fatSecs, dataSecs, totSecs, countOfClus
           firstRootSec, firstFATSec, firstDataSec }

/-! ## What the boot sector says -/

/-- The sectors of a table. -/
def BPB.fatSecs (bpb : BPB) : Nat := if bpb.fatSz16 ≠ 0 then bpb.fatSz16 else bpb.fatSz32

/-- All sectors of the volume. -/
def BPB.totSecs (bpb : BPB) : Nat := if bpb.totSec16 ≠ 0 then bpb.totSec16 else bpb.totSec32

/-- The sectors of the root directory, in sectors of 512 bytes. -/
def BPB.rootDirSecs (bpb : BPB) : Nat := (bpb.rootEntCnt * 32 + 511) / 512

/-- The sectors in front of the clusters, as `uint32_t` has them. -/
def BPB.overhead (bpb : BPB) : Nat :=
  (bpb.rsvdSecCnt + bpb.numFATs * bpb.fatSecs + bpb.rootDirSecs) % 2 ^ 32

/-- A cluster has sectors, and there are not too many sectors in front of the first one. -/
structure BPB.Mountable (bpb : BPB) : Prop where
  cluster : bpb.secPerClus ≠ 0
  overhead : bpb.overhead ≤ bpb.totSecs

/-- The volume is mounted without a fault, and has its clusters inside. -/
def MountsSafely (drive : Drive) : Prop :=
  ∃ fs, fatfsInitChecked drive = .ok fs ∧ fs.dataSecs ≤ fs.totSecs ∧
    fs.countOfClus * fs.bpb.secPerClus ≤ fs.totSecs

/-! ## The checks -/

theorem ofBPB_overhead {bpb : BPB} (h : bpb.bytsPerSec = 512) (lbaStart : Nat) :
    (FATFS.ofBPB lbaStart bpb).firstDataSec = bpb.overhead := by
  simp only [FATFS.ofBPB, BPB.overhead, BPB.fatSecs, BPB.rootDirSecs, h, Nat.add_assoc]

theorem ofBPB_dataSecs {bpb : BPB} (h : bpb.bytsPerSec = 512) (lbaStart : Nat) :
    (FATFS.ofBPB lbaStart bpb).dataSecs = (bpb.totSecs + (2 ^ 32 - bpb.overhead)) % 2 ^ 32 := by
  rw [← ofBPB_overhead h lbaStart]
  rfl

/-- A sum of numbers below `2 ^ 32` that does not wrap. -/
theorem sub_of_le {a b : Nat} (ha : a < 2 ^ 32) (h : b ≤ a) :
    (a + (2 ^ 32 - b)) % 2 ^ 32 = a - b := by
  omega

theorem ofSector_totSecs_lt (m : Infra.Mem) : (BPB.ofSector m).totSecs < 2 ^ 32 := by
  have h16 : (BPB.ofSector m).totSec16 < 2 ^ 32 :=
    (Infra.Mem.load_lt m 19 2).trans (by decide)
  have h32 : (BPB.ofSector m).totSec32 < 2 ^ 32 := Infra.Mem.load_lt m 32 4
  unfold BPB.totSecs
  split <;> assumption

/-- The checks one after another. -/
theorem fatfsInitChecked_eq {bpb : BPB} (hbpb : BPB.ofSector (drive.sector 2048) = bpb)
    (h512 : bpb.bytsPerSec = 512) : fatfsInitChecked drive =
      if bpb.totSecs < bpb.overhead then .error .wrapsBelowZero
      else if bpb.secPerClus = 0 then .error .divisionByZero
      else .ok (FATFS.ofBPB 2048 bpb) := by
  have hlt : bpb.totSecs < 2 ^ 32 := hbpb ▸ ofSector_totSecs_lt _
  have hround : checkedSub bpb.bytsPerSec 1 = .ok 511 := by rw [h512]; rfl
  have hroot : checkedDiv (bpb.rootEntCnt * 32 + 511) bpb.bytsPerSec = .ok bpb.rootDirSecs := by
    rw [h512]
    rfl
  unfold fatfsInitChecked
  dsimp only
  rw [hbpb, if_neg (not_not_intro h512), hround]
  change (checkedDiv (bpb.rootEntCnt * 32 + 511) bpb.bytsPerSec >>= _) = _
  rw [hroot]
  change (checkedSub bpb.totSecs bpb.overhead >>= _) = _
  unfold checkedSub
  split
  · rfl
  change (checkedDiv (bpb.totSecs - bpb.overhead) bpb.secPerClus >>= _) = _
  rw [← sub_of_le hlt (Nat.le_of_not_lt ‹_›)]
  unfold checkedDiv
  split
  · rfl
  have hassoc : bpb.overhead
      = (bpb.rsvdSecCnt + (bpb.numFATs * bpb.fatSecs + bpb.rootDirSecs)) % 2 ^ 32 := by
    rw [BPB.overhead, Nat.add_assoc]
  rw [hassoc]
  simp only [FATFS.ofBPB, h512]
  rfl

/-- Without a fault the volume is the one of `fatfsInit`. -/
theorem fatfsInitChecked_ok (h : fatfsInitChecked drive = .ok fs) : fatfsInit drive = some fs := by
  by_cases h512 : (BPB.ofSector (drive.sector 2048)).bytsPerSec = 512
  · rw [fatfsInitChecked_eq rfl h512] at h
    split at h
    · cases h
    split at h
    · cases h
    cases h
    rw [fatfsInit, if_pos ⟨h512, ‹_›⟩]
  · unfold fatfsInitChecked at h
    dsimp only at h
    rw [if_pos h512] at h
    cases h

/-- A subtraction is the first to fail, then the division by the sectors of a cluster. -/
theorem fatfsInitChecked_fails {bpb : BPB} (hbpb : BPB.ofSector (drive.sector 2048) = bpb)
    (h512 : bpb.bytsPerSec = 512) (h : ¬ bpb.Mountable) : ¬ MountsSafely drive := by
  rintro ⟨fs, hfs, -⟩
  rw [fatfsInitChecked_eq hbpb h512] at hfs
  split at hfs
  · cases hfs
  split at hfs
  · cases hfs
  exact h ⟨‹_›, Nat.le_of_not_lt ‹_›⟩

/--
A boot sector with sectors of 512 bytes is mounted without a division by zero and without a
subtraction that wraps exactly if a cluster has sectors and those in front of the clusters,
counted as `uint32_t`, are not more than there are.
-/
theorem mountsSafely_iff (drive : Drive) {bpb : BPB}
    (hbpb : BPB.ofSector (drive.sector 2048) = bpb) (h512 : bpb.bytsPerSec = 512) :
    MountsSafely drive ↔ bpb.Mountable := by
  constructor
  · intro h
    by_contra hnot
    exact fatfsInitChecked_fails hbpb h512 hnot h
  · rintro ⟨hclus, hover⟩
    have hlt : bpb.totSecs < 2 ^ 32 := hbpb ▸ ofSector_totSecs_lt _
    have hdata : (FATFS.ofBPB 2048 bpb).dataSecs ≤ bpb.totSecs := by
      rw [ofBPB_dataSecs h512, sub_of_le hlt hover]
      exact Nat.sub_le _ _
    refine ⟨FATFS.ofBPB 2048 bpb, ?_, hdata, ?_⟩
    · rw [fatfsInitChecked_eq hbpb h512, if_neg (Nat.not_lt.mpr hover), if_neg hclus]
    · exact (Nat.div_mul_le_self _ _).trans hdata

theorem mountsSafely_small : MountsSafely smallDrive :=
  (mountsSafely_iff smallDrive rfl (by decide)).mpr ⟨by decide, by decide⟩

/-- A boot sector with the sector size and `n` sectors in a cluster, and nothing else. -/
def bareBoot (n : UInt8) : Infra.Mem
  | 12 => 2
  | 13 => n
  | 14 => n
  | _ => 0

/-- Without sectors in a cluster there is a division by zero. With one, and one reserved sector,
there are fewer sectors than come before the clusters. -/
theorem bareBoot_faults :
    fatfsInitChecked ⟨fun _ => bareBoot 0, fun _ => 0⟩ = .error .divisionByZero ∧
      ¬ MountsSafely ⟨fun _ => bareBoot 0, fun _ => 0⟩ ∧
      fatfsInitChecked ⟨fun _ => bareBoot 1, fun _ => 0⟩ = .error .wrapsBelowZero ∧
      ¬ MountsSafely ⟨fun _ => bareBoot 1, fun _ => 0⟩ := by
  refine ⟨?_, ?_, ?_, ?_⟩
  · rw [fatfsInitChecked_eq rfl (by decide), if_neg (by decide), if_pos (by decide)]
  · exact fatfsInitChecked_fails rfl (by decide) fun h => absurd h.cluster (by decide)
  · rw [fatfsInitChecked_eq rfl (by decide), if_pos (by decide)]
  · exact fatfsInitChecked_fails rfl (by decide) fun h => absurd h.overhead (by decide)

end Raincloud
