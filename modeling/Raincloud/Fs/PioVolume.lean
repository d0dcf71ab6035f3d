import Raincloud.Arch.PioRuns
import Raincloud.Fs.ClusterChain

/-!
# Volumes through the ports

`fat.c` reads a volume with `pio_read_sector`. Here its functions are run on the ports, with the
block that `malloc` finds for one sector of the table, and they read what the volume has.
-/

set_option linter.style.nameCheck false

namespace Raincloud

open Infra

namespace Isa

/-! ## `fat.c` on the ports -/

/-- The switch at the end of `extract_fat_entry`, for an entry at `a`. -/
def entryAt (type : FatType) (mem : Mem) (cluster a : Nat) : Nat :=
  match type with
  | .FAT12 => if cluster &&& 1 ≠ 0 then mem.load a 2 >>> 4 else mem.load a 2 &&& 0x0fff
  | .FAT16 => mem.load a 2
  | .FAT32 => mem.load a 4 &&& 0x0FFFFFFF

/-- The sector of the disk that an entry of the table is in. -/
def entrySector (fs : FATFS) (cluster : Nat) : Nat :=
  ((computeFatForCluster fs 0 cluster).1 + fs.lbaStart) % 2 ^ 32

/-- `extract_fat_entry`, whose `malloc` finds `block`. -/
def extractFatEntry (fs : FATFS) (block fuel cluster : Nat) : PioM Nat := do
  Program.check ((computeFatForCluster fs 0 cluster).2 < 512) .halted
  let _ ← pioReadSector fuel block (entrySector fs cluster)
  Program.gets fun s =>
    entryAt fs.type s.mem cluster (block + (computeFatForCluster fs 0 cluster).2)

/-- The loop of `read_cluster`, for `n` more sectors from `i` on. -/
def readClusterLoop (fuel buf start : Nat) : Nat → Nat → PioM Unit
  | 0, _ => return ()
  | n + 1, i => do
    let _ ← pioReadSector fuel (buf + i * 512) ((start + i) % 2 ^ 32)
    readClusterLoop fuel buf start n (i + 1)

def readCluster (fs : FATFS) (fuel buf cluster : Nat) : PioM Unit :=
  readClusterLoop fuel buf (clusterStart fs cluster) fs.bpb.secPerClus 0

/-- The loop of `read_cluster_chain`, for at most so many rounds. -/
def readChainLoop (fs : FATFS) (block buf bufsize fuel : Nat) : Nat → Nat → Nat → Nat → PioM Nat
  | 0, _, _, _ => Program.fault .endless
  | rounds + 1, readSize, cluster, clusterOffset => do
    -- avoid overflow
    if bufsize < (readSize + fs.bpb.secPerClus * 512) % 2 ^ 32 then return readSize
    else
      if clusterOffset = 0 then readCluster fs fuel (buf + readSize) cluster
      let readSize :=
        if clusterOffset = 0 then (readSize + fs.bpb.secPerClus * 512) % 2 ^ 32 else readSize
      let next ← extractFatEntry fs block fuel cluster
      if next = fs.type.entryEndOfFile then return readSize
      else readChainLoop fs block buf bufsize fuel rounds readSize next (clusterOffset - 1)

def readClusterChain (fs : FATFS) (block fuel rounds buf bufsize cluster clusterOffset : Nat) :
    PioM Nat :=
  readChainLoop fs block buf bufsize fuel rounds 0 cluster clusterOffset

/-! ## What they read -/

/-- The volume as the functions see it, with the block for a sector. -/
def PioState.drive (s : PioState) (block : Nat) : Drive where
  sector := s.disk.sectors
  behind x := s.mem (block + x)

variable {e : DiskEnv} {s : PioState} {fs : FATFS}

/-- Where the block for a sector of the table lies. -/
def sectorBlock (block : Nat) : Set Nat := Set.Ico block (block + 512)

/-- The machine is at a volume: its disk has the sectors, and what is behind the block. -/
structure At (drive : Drive) (block : Nat) (s : PioState) : Prop where
  sectors : s.disk.sectors = drive.sector
  behind : ∀ x, 512 ≤ x → x < 516 → s.mem (block + x) = drive.behind x

variable {drive : Drive} {block cluster buf bufsize : Nat} {mem : Mem}

theorem At.congr {s' : PioState} (h : At drive block s)
    (hsectors : s'.disk.sectors = s.disk.sectors)
    (hmem : ∀ x, 512 ≤ x → x < 516 → s'.mem (block + x) = s.mem (block + x)) :
    At drive block s' :=
  ⟨hsectors.trans h.sectors, fun x h1 h2 => (hmem x h1 h2).trans (h.behind x h1 h2)⟩

end Isa

end Raincloud
