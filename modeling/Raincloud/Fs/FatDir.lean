import Raincloud.Fs.Fat
import Raincloud.Klibc.CString

/-!
# Directories of `fat.c`

A directory is read into a block of the heap. Here the block begins at 32, so that the entry
before its first one is the heap's. `malloc` sets a block to 0; what is around it is a parameter.
-/

set_option linter.style.nameCheck false

namespace Raincloud

open Infra

inductive FatFault where
  /-- A name or its characters run over the end of their buffer. -/
  | overflow
  /-- A directory that is `NULL` is closed. -/
  | nullPointer
  /-- A loop that does not end in the given number of rounds. -/
  | endless
  deriving DecidableEq

/-- What `malloc` does not set. -/
structure Fresh where
  /-- The heap around the block of a directory. -/
  dir : Mem

def orEndless {α : Type} : Option α → Except FatFault α
  | some a => .ok a
  | none => .error .endless

theorem ok_bind {ε α β : Type} (a : α) (f : α → Except ε β) : (.ok a >>= f) = f a := rfl

/-! ## Entries -/

def attrLongName : UInt8 := 0x0F

/-- `ATTR_VOLUMN_ID` and `ATTR_DIRECTORY`. -/
def attrVolumnId : Nat := 0x08

def attrDirectory : Nat := 0x10

/-- `Dir_Struc_Type`, the fields that are used. -/
structure DirStruc where
  attr : Nat
  ctrTimeTenth : Nat
  ctrTime : Nat
  ctrDate : Nat
  lstAccDate : Nat
  fstClusHI : Nat
  wriTime : Nat
  writDate : Nat
  fstClusLO : Nat
  fileSize : Nat

def DirStruc.ofMem (m : Mem) (entry : Nat) : DirStruc where
  attr := m.load (entry + 11) 1
  ctrTimeTenth := m.load (entry + 13) 1
  ctrTime := m.load (entry + 14) 2
  ctrDate := m.load (entry + 16) 2
  lstAccDate := m.load (entry + 18) 2
  fstClusHI := m.load (entry + 20) 2
  wriTime := m.load (entry + 22) 2
  writDate := m.load (entry + 24) 2
  fstClusLO := m.load (entry + 26) 2
  fileSize := m.load (entry + 28) 4

/-- `dir_struct->DIR_FstClusHI << 16 | dir_struct->DIR_FstClusLO`. -/
def DirStruc.firstCluster (d : DirStruc) : Nat := d.fstClusHI <<< 16 ||| d.fstClusLO

/-! ## `coding.c` -/

/-- `unicode_into_utf8` of a unit of 16 bits. -/
def unicodeIntoUtf8 (unicode : Nat) : List UInt8 :=
  if unicode ≤ 0x7f then [UInt8.ofNat (unicode &&& 0x7f)]
  else if unicode ≤ 0x7ff then
    [UInt8.ofNat (unicode >>> 6 &&& 0x1f ||| 0xc0), UInt8.ofNat (unicode &&& 0x3f ||| 0x80)]
  else
    [UInt8.ofNat (unicode >>> 12 &&& 0x0f ||| 0xe0), UInt8.ofNat (unicode >>> 6 &&& 0x3f ||| 0x80),
      UInt8.ofNat (unicode &&& 0x3f ||| 0x80)]

/-- `str_unicode_to_utf8` from the unit `i` on; `none` if there are too many. -/
def strUnicodeToUtf8 (unit : Nat → Nat) : Nat → Nat → Option (List UInt8)
  | 0, _ => none
  | room + 1, i =>
    if unit i = 0x0000 then some []
    else (strUnicodeToUtf8 unit room (i + 1)).map (unicodeIntoUtf8 (unit i) ++ ·)

/-! ## `read_name` -/

/-- A string up to the first space. -/
def upToSpace (s : List UInt8) : List UInt8 := s.takeWhile fun c => c ≠ 0x20 ∧ c ≠ 0

/-- The name in the entry itself. -/
def shortName (dir : Mem) (entry : Nat) : List UInt8 :=
  let base := upToSpace (dir.bytes entry 8)
  if strcmp base [0x2e] = 0 ∨ strcmp base [0x2e, 0x2e] = 0 ∨ dir (entry + 8) = 0x20 then base
  else upToSpace (base ++ 0x2e :: dir.bytes (entry + 8) 3)

/-- The number of entries of a long name, or `none` if they are too many. -/
def countLong (dir : Mem) (dirEntry max : Nat) : Nat → Nat → Option Nat
  | 0, _ => none
  | fuel + 1, n =>
    if dir (dirEntry + 32 * n + 11) = attrLongName then
      if max < n + 1 then none else countLong dir dirEntry max fuel (n + 1)
    else some n

/-- The units that `wstrncpy` copies from `src`, with the terminator. -/
def wstrncpy (m : Mem) (src : Nat) : Nat → List Nat
  | 0 => []
  | n + 1 => m.load src 2 :: if m.load src 2 = 0x0000 then [] else wstrncpy m (src + 2) n

/-- Units copied behind the others. -/
def appendUnits (units more : List Nat) : Except FatFault (List Nat) :=
  if 256 < units.length + more.length then .error .overflow else .ok (units ++ more)

/-- The loop that copies the units, from the entry before `dirEntry + 32 * k` back. -/
def longNameLoop (dir : Mem) (dirEntry : Nat) :
    Nat → List Nat → Except FatFault (Option (List Nat))
  | k, units => do
    let entry := dirEntry + 32 * k - 32
    if dir.load (entry + 1) 2 = 0xffff then return some units
    let units ← appendUnits units (wstrncpy dir (entry + 1) 5)
    if dir.load (entry + 14) 2 = 0xffff then return some units
    let units ← appendUnits units (wstrncpy dir (entry + 14) 6)
    if dir.load (entry + 28) 2 = 0xffff then return some units
    let units ← appendUnits units (wstrncpy dir (entry + 28) 2)
    match k with
    | 0 => return none
    | k + 1 =>
      if dir entry &&& 0x40 ≠ 0 then return some units
      longNameLoop dir dirEntry k units

/-- The units copied, then the zeros of the block. -/
def unitAt (units : List Nat) (i : Nat) : Nat := units.getD i 0

/-- What `read_name` returns, `none` for -1, and the name it leaves in a buffer of `cap` bytes. -/
def readName (dir : Mem) (dirEntry max cap : Nat) :
    Except FatFault (Option (Nat × List UInt8)) := do
  -- empty directory
  if dir dirEntry = 0x00 then return none
  -- short name
  if dir (dirEntry + 11) ≠ attrLongName then return some (0, shortName dir dirEntry)
  -- long name
  match countLong dir dirEntry max (max + 2) 0 with
  | none => return none
  | some offset =>
    match ← longNameLoop dir dirEntry offset [] with
    | none => return none
    | some units =>
      match strUnicodeToUtf8 (unitAt units) cap 0 with
      | none => .error .overflow
      | some name => if name.length < cap then return some (offset, name) else .error .overflow

/-! ## `read_file` -/

/-- The loop over the root directory: the number of entries passed. -/
def readFileLoop (rootdir : Mem) (rootdirSize : Nat) (name : List UInt8) :
    Nat → Nat → Except FatFault Nat
  | 0, _ => .error .endless
  | fuel + 1, pos => do
    let max := (rootdirSize >>> 5 + (2 ^ 32 - pos)) % 2 ^ 32
    match ← readName rootdir (32 + 32 * pos) max 512 with
    | none => return pos
    | some (ret, nameBuf) =>
      let pos := (pos + (ret + 1)) % 2 ^ 32
      if strcmp nameBuf name = 0 then return pos
      readFileLoop rootdir rootdirSize name fuel pos

/-- The entry before the last one passed is read after its block is freed. -/
def readFile (drive : Drive) (fs : FATFS) (fresh : Fresh) (fuel : Nat) (name : List UInt8)
    (buf bufsize : Nat) (mem : Mem) : Except FatFault (Nat × Mem) := do
  let length ← orEndless (computeClusterChainLength drive fs fuel fs.bpb.rootClus)
  let rootdirSize := ((length * fs.bpb.secPerClus) <<< 9) % 2 ^ 32
  let (_, rootdir) ← orEndless
    (readClusterChain drive fs fuel 32 rootdirSize fs.bpb.rootClus 0 fresh.dir)
  let pos ← readFileLoop rootdir rootdirSize name fuel 0
  let dirStruct := DirStruc.ofMem rootdir (32 + 32 * pos - 32)
  if bufsize < dirStruct.fileSize then return (0, mem)
  orEndless (readClusterChain drive fs fuel buf (bufsize % 2 ^ 32) dirStruct.firstCluster 0 mem)

/-! ## Open directories -/

/-- `FATFile_Type`. -/
structure FATFile where
  name : List UInt8
  type : Nat
  firstCluster : Nat
  creationTime : Nat
  creationDate : Nat
  writeTime : Nat
  writeDate : Nat
  accessDate : Nat
  fileSize : Nat

/-- `FATDir_Type`. -/
structure FATDir where
  buf : Mem
  size : Nat
  offset : Nat

/-- The loop of `fatfs_opendir` over a directory: the offset behind the entry of that name. -/
def findEntryLoop (dir : FATDir) (dirName : List UInt8) :
    Nat → Nat → Except FatFault (Option Nat)
  | 0, _ => .error .endless
  | fuel + 1, pos => do
    let max := ((dir.size + (2 ^ 32 - pos)) % 2 ^ 32) >>> 5
    match ← readName dir.buf (32 + pos) max 512 with
    | none => return none
    | some (ret, nameBuf) =>
      let pos := (pos + (ret + 1) <<< 5) % 2 ^ 32
      if dir.size ≤ pos then return none
      if strcmp nameBuf dirName = 0 then return some pos
      findEntryLoop dir dirName fuel pos

/-- The loop of `fatfs_opendir` over the path; `bufSize` is the size of the block in use. -/
def openLoop (drive : Drive) (fs : FATFS) (fresh : Fresh) :
    Nat → FATDir → Nat → List UInt8 → Except FatFault (Option FATDir)
  | 0, _, _, _ => .error .endless
  | fuel + 1, dir, bufSize, save =>
    match strtokR save [slash] with
    | none => return some dir
    | some (dirName, save) => do
      match ← findEntryLoop dir dirName fuel 0 with
      | none => return none
      | some pos =>
        let firstCluster := (DirStruc.ofMem dir.buf (32 + (pos - 32))).firstCluster
        let length ← orEndless (computeClusterChainLength drive fs fuel firstCluster)
        let size := length * fs.bpb.secPerClus * fs.bpb.bytsPerSec % 2 ^ 32
        let (buf, bufSize) := if bufSize < size then (fresh.dir, size) else (dir.buf, bufSize)
        let (_, buf) ← orEndless
          (readClusterChain drive fs fuel 32 bufSize firstCluster 0 buf)
        openLoop drive fs fresh fuel { dir with buf := buf, size := size } bufSize save

/-- `none` for `NULL`. -/
def fatfsOpendir (drive : Drive) (fs : FATFS) (fresh : Fresh) (fuel : Nat) (path : List UInt8) :
    Except FatFault (Option FATDir) := do
  let length ← orEndless (computeClusterChainLength drive fs fuel fs.bpb.rootClus)
  let size := length * fs.bpb.secPerClus * fs.bpb.bytsPerSec % 2 ^ 32
  let (_, buf) ← orEndless
    (readClusterChain drive fs fuel 32 size fs.bpb.rootClus 0 fresh.dir)
  openLoop drive fs fresh fuel ⟨buf, size, 0⟩ size path

/-- What an entry says about a file. -/
def FATFile.ofDirStruc (name : List UInt8) (d : DirStruc) : FATFile where
  name
  type := d.attr
  firstCluster := d.firstCluster
  creationTime := d.ctrTime + d.ctrTimeTenth / 10
  creationDate := d.ctrDate
  writeTime := d.wriTime
  writeDate := d.writDate
  accessDate := d.lstAccDate
  fileSize := d.fileSize

/-- The next file, or `none` for `NULL`. -/
def fatfsReaddir (dir : FATDir) : Except FatFault (Option (FATFile × FATDir)) := do
  if dir.size ≤ dir.offset then return none
  let max := ((dir.size + (2 ^ 32 - dir.offset)) % 2 ^ 32) >>> 5
  match ← readName dir.buf (32 + dir.offset) max 256 with
  | none => return none
  | some (ret, name) =>
    let offset := (dir.offset + (ret + 1) <<< 5) % 2 ^ 32
    return some (.ofDirStruc name (DirStruc.ofMem dir.buf (32 + offset - 32)),
      { dir with offset := offset })

/-! ## Files -/

/-- The loop of `fatfs_searchfile`. -/
def searchLoop (fileName : List UInt8) :
    Nat → FATDir → Except FatFault (Option FATFile)
  | 0, _ => .error .endless
  | fuel + 1, dir => do
    match ← fatfsReaddir dir with
    | none => return none
    | some (file, dir) =>
      if strcmp file.name fileName ≠ 0 then searchLoop fileName fuel dir
      else return some file

/-- The file that is found, `none` for -1; the path has a slash. -/
def fatfsSearchfile (drive : Drive) (fs : FATFS) (fresh : Fresh) (fuel : Nat) (path : List UInt8) :
    Except FatFault (Option FATFile) := do
  let fileName := ((strrchr path slash).getD path).tail
  let dirPath := path.take (path.length - fileName.length)
  match ← fatfsOpendir drive fs fresh fuel dirPath with
  | none => .error .nullPointer
  | some dir => searchLoop fileName fuel dir

def fatfsReadfile (drive : Drive) (fs : FATFS) (fuel : Nat) (file : FATFile) (buf bufsize : Nat)
    (mem : Mem) : Except FatFault (Nat × Mem) :=
  if bufsize < file.fileSize then .ok (0, mem)
  else orEndless (readClusterChain drive fs fuel buf bufsize file.firstCluster 0 mem)

end Raincloud
