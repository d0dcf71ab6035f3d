import Raincloud.Mm.Layout

/-!
# Volumes and cluster chains of `fat.c`

A volume is read sector by sector. The fields of the boot sector are the ones the code uses;
all arithmetic on them is that of `uint32_t`.
-/

set_option linter.style.nameCheck false

namespace Raincloud

open Infra

/-- What the code reads from: the sectors of the disk, and what the heap holds behind a block. -/
structure Drive where
  sector : Nat → Mem
  behind : Mem

/-- `pio_read_sector`. -/
def pioReadSector (drive : Drive) (buf lba : Nat) (mem : Mem) : Mem := fun x =>
  if buf ≤ x ∧ x < buf + 512 then drive.sector (lba % 2 ^ 32) (x - buf) else mem x

/-! ## The boot sector -/

/-- The fields of `BPB_Type` that are used. -/
structure BPB where
  bytsPerSec : Nat
  secPerClus : Nat
  rsvdSecCnt : Nat
  numFATs : Nat
  rootEntCnt : Nat
  totSec16 : Nat
  fatSz16 : Nat
  totSec32 : Nat
  fatSz32 : Nat
  rootClus : Nat

/-- The fields at their places in a sector. -/
def BPB.ofSector (m : Mem) : BPB where
  bytsPerSec := m.load 11 2
  secPerClus := m.load 13 1
  rsvdSecCnt := m.load 14 2
  numFATs := m.load 16 1
  rootEntCnt := m.load 17 2
  totSec16 := m.load 19 2
  fatSz16 := m.load 22 2
  totSec32 := m.load 32 4
  fatSz32 := m.load 36 4
  rootClus := m.load 44 4

inductive FatType where
  | FAT12
  | FAT16
  | FAT32
  deriving DecidableEq

/-- `FAT12_ENTRY_END_OF_FILE` and its siblings. -/
def FatType.entryEndOfFile : FatType → Nat
  | FAT12 => 0xFFF
  | FAT16 => 0xFFFF
  | FAT32 => 0xFFFFFFF

/-- `FATFS_Type`. -/
structure FATFS where
  lbaStart : Nat
  bpb : BPB
  type : FatType
  rootDirSecs : Nat
  fatSecs : Nat
  dataSecs : Nat
  totSecs : Nat
  countOfClus : Nat
  firstRootSec : Nat
  firstFATSec : Nat
  firstDataSec : Nat

/-- The fields that `fatfs_init` computes from the boot sector. -/
def FATFS.ofBPB (lbaStart : Nat) (bpb : BPB) : FATFS :=
  let rootDirSecs := (bpb.rootEntCnt * 32 + (bpb.bytsPerSec - 1)) / bpb.bytsPerSec
  let fatSecs := if bpb.fatSz16 ≠ 0 then bpb.fatSz16 else bpb.fatSz32
  let totSecs := if bpb.totSec16 ≠ 0 then bpb.totSec16 else bpb.totSec32
  let firstDataSec := (bpb.rsvdSecCnt + (bpb.numFATs * fatSecs + rootDirSecs)) % 2 ^ 32
  let dataSecs := (totSecs + (2 ^ 32 - firstDataSec)) % 2 ^ 32
  let countOfClus := dataSecs / bpb.secPerClus
  let type :=
    if countOfClus < 4085 then .FAT12 else if countOfClus < 65525 then .FAT16 else .FAT32
  let firstRootSec := match type with
    | .FAT12 | .FAT16 => (bpb.rsvdSecCnt + bpb.numFATs * bpb.fatSz16) % 2 ^ 32
    | .FAT32 => (firstDataSec + bpb.rootClus * bpb.secPerClus) % 2 ^ 32
  { lbaStart, bpb, type, rootDirSecs, fatSecs, dataSecs, totSecs, countOfClus, firstRootSec
    firstFATSec := bpb.rsvdSecCnt
    firstDataSec }

/-- `none` if the assertion on the sector size fails or a cluster has no sectors. -/
def fatfsInit (drive : Drive) : Option FATFS :=
  let lbaStart := 2048
  let bpb := BPB.ofSector (drive.sector lbaStart)
  if bpb.bytsPerSec = 512 ∧ bpb.secPerClus ≠ 0 then some (FATFS.ofBPB lbaStart bpb) else none

/-! ## The table -/

/-- The sector and the offset of the entry of a cluster. -/
def computeFatForCluster (fs : FATFS) (fatIndex cluster : Nat) : Nat × Nat :=
  let fatOffset := match fs.type with
    | .FAT12 => (cluster + cluster / 2) % 2 ^ 32
    | .FAT16 => cluster * 2 % 2 ^ 32
    | .FAT32 => cluster * 4 % 2 ^ 32
  ((fs.firstFATSec + fatOffset / fs.bpb.bytsPerSec + fatIndex * fs.fatSecs) % 2 ^ 32,
    fatOffset % fs.bpb.bytsPerSec)

/-- The bytes that `extract_fat_entry` reads of its buffer, from the offset on. -/
def FatType.entryBytes : FatType → Nat
  | FAT12 | FAT16 => 2
  | FAT32 => 4

def extractFatEntry (drive : Drive) (fs : FATFS) (cluster : Nat) : Nat :=
  let (secOff, entryOff) := computeFatForCluster fs 0 cluster
  let buf := pioReadSector drive 0 (secOff + fs.lbaStart) drive.behind
  match fs.type with
  | .FAT12 =>
    let entry := buf.load entryOff 2
    if cluster &&& 1 ≠ 0 then entry >>> 4 else entry &&& 0x0fff
  | .FAT16 => buf.load entryOff 2
  | .FAT32 => buf.load entryOff 4 &&& 0x0FFFFFFF

/-! ## Clusters -/

/-- The loop of `read_cluster`, for `n` more sectors from `i` on. -/
def readClusterLoop (drive : Drive) (buf start : Nat) : Nat → Nat → Mem → Mem
  | 0, _, mem => mem
  | n + 1, i, mem =>
    readClusterLoop drive buf start n (i + 1) (pioReadSector drive (buf + i * 512) (start + i) mem)

/-- The first sector of a cluster. -/
def clusterStart (fs : FATFS) (cluster : Nat) : Nat :=
  (fs.lbaStart + fs.firstDataSec + (cluster + (2 ^ 32 - 2)) * fs.bpb.secPerClus) % 2 ^ 32

def readCluster (drive : Drive) (fs : FATFS) (buf cluster : Nat) (mem : Mem) : Mem :=
  readClusterLoop drive buf (clusterStart fs cluster) fs.bpb.secPerClus 0 mem

/-- The loop of `compute_cluster_chain_length`; `none` if it runs out of rounds. -/
def chainLengthLoop (drive : Drive) (fs : FATFS) : Nat → Nat → Nat → Option Nat
  | 0, _, _ => none
  | fuel + 1, chainLength, cluster =>
    let chainLength := (chainLength + 1) % 2 ^ 32
    let cluster := extractFatEntry drive fs cluster
    if cluster = fs.type.entryEndOfFile then some chainLength
    else chainLengthLoop drive fs fuel chainLength cluster

def computeClusterChainLength (drive : Drive) (fs : FATFS) (fuel cluster : Nat) : Option Nat :=
  chainLengthLoop drive fs fuel 0 cluster

/-- The loop of `read_cluster_chain`; `none` if it runs out of rounds. -/
def readChainLoop (drive : Drive) (fs : FATFS) (buf bufsize : Nat) :
    Nat → Nat → Nat → Nat → Mem → Option (Nat × Mem)
  | 0, _, _, _, _ => none
  | fuel + 1, readSize, cluster, clusterOffset, mem =>
    -- avoid overflow
    if bufsize < (readSize + fs.bpb.secPerClus * 512) % 2 ^ 32 then some (readSize, mem)
    else
      let (readSize, clusterOffset, mem) :=
        if clusterOffset = 0 then
          ((readSize + fs.bpb.secPerClus * 512) % 2 ^ 32, clusterOffset,
            readCluster drive fs (buf + readSize) cluster mem)
        else (readSize, clusterOffset - 1, mem)
      let cluster := extractFatEntry drive fs cluster
      if cluster = fs.type.entryEndOfFile then some (readSize, mem)
      else readChainLoop drive fs buf bufsize fuel readSize cluster clusterOffset mem

/-- What `read_cluster_chain` returns, and the memory after it. -/
def readClusterChain (drive : Drive) (fs : FATFS) (fuel buf bufsize cluster clusterOffset : Nat)
    (mem : Mem) : Option (Nat × Mem) :=
  readChainLoop drive fs buf bufsize fuel 0 cluster clusterOffset mem

end Raincloud
