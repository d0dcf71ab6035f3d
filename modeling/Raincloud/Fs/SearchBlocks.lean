import Raincloud.Fs.LiveSearch
import Raincloud.Infra.Program
import Raincloud.Kernel.Objects

/-!
# The blocks of a search

`fatfs_searchfile` and the functions below it take blocks from the heap. Here they are modelled
with the set of live blocks, and with the file that the caller wants to be filled in. A block
can always be had.
-/

set_option linter.style.nameCheck false

namespace Raincloud

open Infra

namespace Search

/-- Where new blocks are, and what they hold. -/
structure Env where
  malloc : List Ptr → Ptr
  new : ∀ live, malloc live ≠ NULL ∧ malloc live ∉ live
  fresh : Fresh

/-- The live blocks, and `*buf` of the caller. -/
structure State where
  live : List Ptr
  buf : FATFile

end Search

abbrev SearchM := Program Search.Env FatFault Search.State

namespace Search

def malloc : SearchM Ptr := do
  let p ← Program.ask fun e s => e.malloc s.live
  Program.modify fun s => { s with live := p :: s.live }
  return p

def free (p : Ptr) : SearchM Unit := Program.modify fun s => { s with live := s.live.erase p }

/-- Code that takes no blocks. -/
def onFat {α : Type} (x : Except FatFault α) : SearchM α := fun _ s =>
  match x with
  | .ok a => .ok (a, s)
  | .error err => .error err

/-- The blocks of a `FATDir_Type`. -/
structure Blocks where
  dir : Ptr
  buf : Ptr
  fileInfo : Ptr

/-- `read_name`, with the block for the units of a long name. -/
def readName (dir : Mem) (dirEntry max cap : Nat) : SearchM (Option (Nat × List UInt8)) := do
  if dir dirEntry = 0x00 ∨ dir (dirEntry + 11) ≠ attrLongName then
    onFat (Raincloud.readName dir dirEntry max cap)
  else
    let buf ← malloc
    let ret ← onFat (Raincloud.readName dir dirEntry max cap)
    free buf
    return ret

/-- The loop of `fatfs_opendir` over a directory. -/
def findEntryLoop (blocks : Blocks) (nameBuf : Ptr) (dir : FATDir) (dirName : List UInt8) :
    Nat → Nat → SearchM (Option Nat)
  | 0, _ => Program.fault .endless
  | fuel + 1, pos => do
    let max := ((dir.size + (2 ^ 32 - pos)) % 2 ^ 32) >>> 5
    match ← readName dir.buf (32 + pos) max 512 with
    | none =>
      free nameBuf
      return none
    | some (ret, name) =>
      let pos := (pos + (ret + 1) <<< 5) % 2 ^ 32
      if dir.size ≤ pos then
        free blocks.buf
        free blocks.dir
        free nameBuf
        return none
      if strcmp name dirName = 0 then return some pos
      findEntryLoop blocks nameBuf dir dirName fuel pos

/-- A larger block for the directory. -/
def growBuf (blocks : Blocks) : SearchM (Blocks × Mem) := do
  free blocks.buf
  let buf ← malloc
  let heap ← Program.ask fun e _ => e.fresh.dir
  return ({ blocks with buf := buf }, heap)

/-- The loop of `fatfs_opendir` over the path. -/
def openLoop (drive : Drive) (fs : FATFS) (nameBuf : Ptr) :
    Nat → Blocks → FATDir → Nat → List UInt8 → SearchM (Option (Blocks × FATDir))
  | 0, _, _, _, _ => Program.fault .endless
  | fuel + 1, blocks, dir, bufSize, save =>
    match strtokR save [slash] with
    | none => return some (blocks, dir)
    | some (dirName, save) => do
      match ← findEntryLoop blocks nameBuf dir dirName fuel 0 with
      | none => return none
      | some pos =>
        let firstCluster := (DirStruc.ofMem dir.buf (32 + (pos - 32))).firstCluster
        let length ← onFat (orEndless (computeClusterChainLength drive fs fuel firstCluster))
        let size := length * fs.bpb.secPerClus * fs.bpb.bytsPerSec % 2 ^ 32
        let (blocks, buf) ← if bufSize < size then growBuf blocks else pure (blocks, dir.buf)
        let bufSize := if bufSize < size then size else bufSize
        let (_, buf) ← onFat (orEndless
          (readClusterChain drive fs fuel 32 bufSize firstCluster 0 buf))
        openLoop drive fs nameBuf fuel blocks { dir with buf := buf, size := size } bufSize save

def fatfsOpendir (drive : Drive) (fs : FATFS) (fuel : Nat) (path : List UInt8) :
    SearchM (Option (Blocks × FATDir)) := do
  let nameBuf ← malloc
  let fatdir ← malloc
  let length ← onFat (orEndless (computeClusterChainLength drive fs fuel fs.bpb.rootClus))
  let size := length * fs.bpb.secPerClus * fs.bpb.bytsPerSec % 2 ^ 32
  let buf ← malloc
  let heap ← Program.ask fun e _ => e.fresh.dir
  let (_, data) ← onFat (orEndless
    (readClusterChain drive fs fuel 32 size fs.bpb.rootClus 0 heap))
  let fileInfo ← malloc
  let pathBuf ← malloc
  match ← openLoop drive fs nameBuf fuel ⟨fatdir, buf, fileInfo⟩ ⟨data, size, 0⟩ size path with
  | none => return none
  | some opened =>
    free pathBuf
    free nameBuf
    return some opened

def fatfsReaddir (dir : FATDir) : SearchM (Option (FATFile × FATDir)) := do
  if dir.size ≤ dir.offset then return none
  let max := ((dir.size + (2 ^ 32 - dir.offset)) % 2 ^ 32) >>> 5
  match ← readName dir.buf (32 + dir.offset) max 256 with
  | none => return none
  | some (ret, name) =>
    let offset := (dir.offset + (ret + 1) <<< 5) % 2 ^ 32
    return some (.ofDirStruc name (DirStruc.ofMem dir.buf (32 + offset - 32)),
      { dir with offset := offset })

/-- The first field of a directory that is `NULL` cannot be read. -/
def fatfsClosedir : Option Blocks → SearchM Unit
  | none => Program.fault .nullPointer
  | some blocks => do
    free blocks.fileInfo
    free blocks.buf
    free blocks.dir

/-- The loop of `fatfs_searchfile`. -/
def searchLoop (fileName : List UInt8) : Nat → FATDir → SearchM (Option FATFile)
  | 0, _ => Program.fault .endless
  | fuel + 1, dir => do
    match ← fatfsReaddir dir with
    | none => return none
    | some (file, dir) =>
      if strcmp file.name fileName ≠ 0 then searchLoop fileName fuel dir
      else return some file

def fatfsSearchfile (drive : Drive) (fs : FATFS) (fuel : Nat) (path : List UInt8) : SearchM Int := do
  let fileName := ((strrchr path slash).getD path).tail
  let _dirPath ← malloc
  match ← fatfsOpendir drive fs fuel (path.take (path.length - fileName.length)) with
  | none =>
    fatfsClosedir none
    return -1
  | some (blocks, dir) =>
    match ← searchLoop fileName fuel dir with
    | none =>
      fatfsClosedir (some blocks)
      return -1
    | some file =>
      Program.modify fun s => { s with buf := file }
      fatfsClosedir (some blocks)
      return 0

/-! ## Code that leaves the blocks as they were -/

section Quiet

variable {α β : Type} {e : Env} {s : State}

theorem malloc_apply : malloc e s
    = .ok (e.malloc s.live, { s with live := e.malloc s.live :: s.live }) := rfl

theorem free_apply {p : Ptr} : free p e s = .ok ((), { s with live := s.live.erase p }) := rfl

theorem onFat_bind {x : Except FatFault α} {f : α → SearchM β} : (onFat x >>= f) e s =
    match x with
    | .ok a => f a e s
    | .error err => .error err := by
  cases x <;> rfl

/-- The block for the units is freed again. -/
theorem readName_eq (dir : Mem) (dirEntry max cap : Nat) :
    readName dir dirEntry max cap = onFat (Raincloud.readName dir dirEntry max cap) := by
  funext e s
  unfold readName
  split
  · rfl
  · rw [Program.bind_of_ok malloc_apply, onFat_bind]
    cases hread : Raincloud.readName dir dirEntry max cap with
    | error err => rfl
    | ok ret =>
      dsimp only
      rw [Program.bind_of_ok free_apply, List.erase_cons_head]
      rfl

theorem fatfsReaddir_eq (dir : FATDir) :
    fatfsReaddir dir = onFat (Raincloud.fatfsReaddir dir) := by
  funext e s
  unfold fatfsReaddir Raincloud.fatfsReaddir
  by_cases hend : dir.size ≤ dir.offset
  · rw [if_pos hend, if_pos hend]
    rfl
  · rw [if_neg hend, if_neg hend]
    dsimp only
    rw [readName_eq, onFat_bind]
    cases Raincloud.readName dir.buf (32 + dir.offset) _ 256 with
    | error err => rfl
    | ok ret => cases ret <;> rfl

theorem searchLoop_eq (fileName : List UInt8) : ∀ fuel dir,
    searchLoop fileName fuel dir = onFat (Raincloud.searchLoop fileName fuel dir)
  | 0, _ => rfl
  | fuel + 1, dir => by
    funext e s
    rw [searchLoop, Raincloud.searchLoop, fatfsReaddir_eq, onFat_bind]
    cases Raincloud.fatfsReaddir dir with
    | error err => rfl
    | ok found =>
      cases found with
      | none => rfl
      | some p =>
        obtain ⟨file, dir⟩ := p
        rw [ok_bind]
        dsimp only
        by_cases hname : strcmp file.name fileName ≠ 0
        · rw [if_pos hname, if_pos hname, searchLoop_eq fileName fuel dir]
        · rw [if_neg hname, if_neg hname]
          rfl

end Quiet

/-! ## Opening a directory -/

/-- A run ends as the code without blocks does. -/
def Tracks {α β : Type} (x : Except FatFault (Option α)) (run : Except FatFault (Option β × State))
    (Q : α → β → State → Prop) : Prop :=
  match x with
  | .error err => run = .error err
  | .ok none => ∃ t, run = .ok (none, t)
  | .ok (some a) => ∃ b t, run = .ok (some b, t) ∧ Q a b t

/-- Code behind a run that ends so. -/
theorem Tracks.bind {α β γ : Type} {x : Except FatFault (Option α)} {y : SearchM (Option β)}
    {f : Option β → SearchM (Option γ)} {e : Env} {s : State} {Q : α → β → State → Prop}
    {R : α → γ → State → Prop} (h : Tracks x (y e s) Q)
    (hnone : ∀ t, ∃ t', f none e t = .ok (none, t'))
    (hsome : ∀ a b t, Q a b t → ∃ c t', f (some b) e t = .ok (some c, t') ∧ R a c t') :
    Tracks x ((y >>= f) e s) R := by
  cases x with
  | error err => exact (Program.bind_apply ..).trans (by rw [show y e s = .error err from h])
  | ok found =>
    cases found with
    | none =>
      obtain ⟨t, hrun⟩ := h
      obtain ⟨t', hf⟩ := hnone t
      exact ⟨t', (Program.bind_of_ok hrun).trans hf⟩
    | some a =>
      obtain ⟨b, t, hrun, hQ⟩ := h
      obtain ⟨c, t', hf, hR⟩ := hsome a b t hQ
      exact ⟨c, t', (Program.bind_of_ok hrun).trans hf, hR⟩

section Open

variable {e : Env} {s : State} {drive : Drive} {fs : FATFS} {nameBuf : Ptr} {dirName : List UInt8}

theorem findEntryLoop_tracks (blocks : Blocks) (dir : FATDir) : ∀ fuel pos,
    Tracks (Raincloud.findEntryLoop dir dirName fuel pos)
      (findEntryLoop blocks nameBuf dir dirName fuel pos e s) fun p q t => q = p ∧ t = s
  | 0, _ => rfl
  | fuel + 1, pos => by
    rw [findEntryLoop, Raincloud.findEntryLoop]
    dsimp only
    rw [readName_eq, onFat_bind]
    cases Raincloud.readName dir.buf (32 + pos) _ 512 with
    | error err => rfl
    | ok ret =>
      cases ret with
      | none => exact ⟨_, rfl⟩
      | some r =>
        obtain ⟨ret, name⟩ := r
        rw [ok_bind]
        dsimp only
        by_cases hend : dir.size ≤ (pos + (ret + 1) <<< 5) % 2 ^ 32
        · rw [if_pos hend, if_pos hend]
          exact ⟨_, rfl⟩
        · rw [if_neg hend, if_neg hend]
          by_cases hname : strcmp name dirName = 0
          · rw [if_pos hname, if_pos hname]
            exact ⟨_, _, rfl, rfl, rfl⟩
          · rw [if_neg hname, if_neg hname]
            exact findEntryLoop_tracks blocks dir fuel _

theorem growBuf_apply (blocks : Blocks) : growBuf blocks e s =
    .ok (({ blocks with buf := e.malloc (s.live.erase blocks.buf) }, e.fresh.dir),
      { s with live := e.malloc (s.live.erase blocks.buf) :: s.live.erase blocks.buf }) := rfl

theorem erase_perm {l rest : List Ptr} {p : Ptr} (h : l.Perm (p :: rest)) :
    (l.erase p).Perm rest := by
  have herase := h.erase p
  rwa [List.erase_cons_head] at herase

/-- Of the blocks that are live, only the one for the directory is another one in the end. -/
theorem openLoop_tracks {rest : List Ptr} : ∀ fuel (blocks : Blocks) dir bufSize save (s : State),
    s.live.Perm (blocks.buf :: rest) →
      Tracks (Raincloud.openLoop drive fs e.fresh fuel dir bufSize save)
        (openLoop drive fs nameBuf fuel blocks dir bufSize save e s) fun dir' r t =>
          r.2 = dir' ∧ t.buf = s.buf ∧ t.live.Perm (r.1.buf :: rest) ∧
            r.1.dir = blocks.dir ∧ r.1.fileInfo = blocks.fileInfo
  | 0, _, _, _, _, _, _ => rfl
  | fuel + 1, blocks, dir, bufSize, save, s, hperm => by
    rw [openLoop, Raincloud.openLoop]
    cases strtokR save [slash] with
    | none => exact ⟨_, _, rfl, rfl, rfl, hperm, rfl, rfl⟩
    | some p =>
      obtain ⟨dirName, save⟩ := p
      dsimp only
      have hfind : Tracks _ (findEntryLoop blocks nameBuf dir dirName fuel 0 e s) _ :=
        findEntryLoop_tracks blocks dir fuel 0
      cases hx : Raincloud.findEntryLoop dir dirName fuel 0 with
      | error err =>
        rw [hx] at hfind
        rw [Program.bind_apply, hfind]
        rfl
      | ok found =>
        cases found with
        | none =>
          rw [hx] at hfind
          obtain ⟨t, hrun⟩ := hfind
          rw [Program.bind_of_ok hrun]
          exact ⟨t, rfl⟩
        | some pos =>
          rw [hx] at hfind
          obtain ⟨q, t, hrun, rfl, rfl⟩ := hfind
          rw [Program.bind_of_ok hrun, ok_bind]
          dsimp only
          rw [onFat_bind]
          cases computeClusterChainLength drive fs fuel
            (DirStruc.ofMem dir.buf (32 + (q - 32))).firstCluster with
          | none => rfl
          | some length =>
            simp only [orEndless, ok_bind]
            by_cases hnew : bufSize < length * fs.bpb.secPerClus * fs.bpb.bytsPerSec % 2 ^ 32
            · simp only [if_pos hnew]
              rw [Program.bind_of_ok (growBuf_apply blocks), onFat_bind]
              cases readClusterChain drive fs fuel 32 _ _ 0 e.fresh.dir with
              | none => rfl
              | some r => exact openLoop_tracks fuel _ _ _ save _ (.cons _ (erase_perm hperm))
            · simp only [if_neg hnew]
              rw [Program.bind_of_ok rfl, onFat_bind]
              cases readClusterChain drive fs fuel 32 bufSize _ 0 dir.buf with
              | none => rfl
              | some r => exact openLoop_tracks fuel blocks _ _ save t hperm

/-- An open directory has three blocks more. -/
theorem fatfsOpendir_tracks (fuel : Nat) (path : List UInt8) :
    Tracks (Raincloud.fatfsOpendir drive fs e.fresh fuel path) (fatfsOpendir drive fs fuel path e s)
      fun dir' r t => r.2 = dir' ∧ t.buf = s.buf ∧
        t.live.Perm (r.1.fileInfo :: r.1.buf :: r.1.dir :: s.live) := by
  unfold fatfsOpendir Raincloud.fatfsOpendir
  rw [Program.bind_of_ok malloc_apply, Program.bind_of_ok malloc_apply, onFat_bind]
  cases computeClusterChainLength drive fs fuel fs.bpb.rootClus with
  | none => rfl
  | some length =>
    simp only [orEndless, ok_bind]
    rw [Program.bind_of_ok malloc_apply, Program.bind_of_ok rfl, onFat_bind]
    cases readClusterChain drive fs fuel 32 _ _ 0 e.fresh.dir with
    | none => rfl
    | some r =>
      dsimp only
      rw [Program.bind_of_ok malloc_apply, Program.bind_of_ok malloc_apply, ok_bind]
      dsimp only
      generalize e.malloc s.live = nameBuf
      generalize e.malloc (nameBuf :: s.live) = fatdir
      generalize e.malloc (fatdir :: nameBuf :: s.live) = buf
      generalize e.malloc (buf :: fatdir :: nameBuf :: s.live) = fileInfo
      generalize e.malloc (fileInfo :: buf :: fatdir :: nameBuf :: s.live) = pathBuf
      have hperm : ([pathBuf, fileInfo] ++ buf :: fatdir :: nameBuf :: s.live).Perm
          (buf :: ([pathBuf, fileInfo] ++ fatdir :: nameBuf :: s.live)) := List.perm_middle
      refine (openLoop_tracks fuel ⟨fatdir, buf, fileInfo⟩ ⟨r.2, _, 0⟩ _ path ⟨_, s.buf⟩ hperm).bind
        (fun t => ⟨t, rfl⟩) ?_
      rintro dir' ⟨blocks, dir⟩ t ⟨rfl, hsame, hlive, rfl, rfl⟩
      have hpath : t.live.Perm
          (pathBuf :: blocks.buf :: blocks.fileInfo :: blocks.dir :: nameBuf :: s.live) :=
        hlive.trans (.swap ..)
      have hlast : ([blocks.buf, blocks.fileInfo, blocks.dir] ++ nameBuf :: s.live).Perm
          (nameBuf :: ([blocks.buf, blocks.fileInfo, blocks.dir] ++ s.live)) := List.perm_middle
      refine ⟨_, _, rfl, rfl, hsame, (erase_perm ((erase_perm hpath).trans hlast)).trans (.swap ..)⟩

end Open

/-! ## The search -/

section Run

variable (drive : Drive) (fs : FATFS) (e : Env) (s : State) (fuel : Nat) (path : List UInt8)

/-- A search that returns has taken one block and has not freed it. -/
theorem fatfsSearchfile_run :
    match Raincloud.fatfsSearchfile drive fs e.fresh fuel path with
    | .error err => fatfsSearchfile drive fs fuel path e s = .error err
    | .ok found => ∃ t, fatfsSearchfile drive fs fuel path e s
        = .ok (if found.isSome then 0 else -1, t) ∧ t.buf = found.getD s.buf ∧
          t.live.Perm (e.malloc s.live :: s.live) := by
  unfold Raincloud.fatfsSearchfile fatfsSearchfile
  dsimp only
  rw [Program.bind_of_ok malloc_apply]
  generalize ((strrchr path slash).getD path).tail = fileName
  generalize path.take (path.length - fileName.length) = dirPath
  have hopen : Tracks (Raincloud.fatfsOpendir drive fs e.fresh fuel dirPath)
      (fatfsOpendir drive fs fuel dirPath e { s with live := e.malloc s.live :: s.live }) _ :=
    fatfsOpendir_tracks fuel dirPath
  cases hx : Raincloud.fatfsOpendir drive fs e.fresh fuel dirPath with
  | error err =>
    rw [hx] at hopen
    exact (Program.bind_apply ..).trans (by rw [show fatfsOpendir .. = _ from hopen])
  | ok found =>
    cases found with
    | none =>
      rw [hx] at hopen
      obtain ⟨t, hrun⟩ := hopen
      rw [Program.bind_of_ok hrun]
      rfl
    | some dir =>
      rw [hx] at hopen
      obtain ⟨⟨blocks, dir⟩, t, hrun, rfl, hsame, hlive⟩ := hopen
      rw [Program.bind_of_ok hrun, ok_bind]
      dsimp only
      rw [searchLoop_eq, onFat_bind]
      have hfreed := erase_perm (erase_perm (erase_perm hlive))
      cases Raincloud.searchLoop fileName fuel dir with
      | error err => rfl
      | ok found =>
        cases found with
        | none => exact ⟨_, rfl, hsame, hfreed⟩
        | some file => exact ⟨_, rfl, rfl, hfreed⟩

end Run

end Search

/-- A search returns -1 and leaves `*buf` and the set of the live blocks as they were. -/
def FailsCleanly (drive : Drive) (fs : FATFS) (e : Search.Env) (path : List UInt8)
    (s : Search.State) : Prop :=
  ∃ rounds, ∀ fuel ≥ rounds, ∃ t, Search.fatfsSearchfile drive fs fuel path e s = .ok (-1, t) ∧
    t.buf = s.buf ∧ ∀ p, p ∈ t.live ↔ p ∈ s.live

section Clean

variable {drive : Drive} {fs : FATFS} {e : Search.Env} {s t : Search.State} {fuel : Nat}
  {path : List UInt8} {ret : Int}

/-- The block of the path of the directory stays live. -/
theorem dirPath_live (h : Search.fatfsSearchfile drive fs fuel path e s = .ok (ret, t)) :
    e.malloc s.live ∈ t.live ∧ e.malloc s.live ∉ s.live := by
  have hrun := Search.fatfsSearchfile_run drive fs e s fuel path
  cases hx : fatfsSearchfile drive fs e.fresh fuel path with
  | error err =>
    rw [hx, h] at hrun
    cases hrun
  | ok found =>
    rw [hx] at hrun
    obtain ⟨t', hret, -, hlive⟩ := hrun
    rw [hret] at h
    cases h
    exact ⟨hlive.mem_iff.mpr List.mem_cons_self, (e.new s.live).2⟩

/-- A directory that is not found is closed all the same. -/
theorem closes_null (h : fatfsOpendir drive fs e.fresh fuel
      (path.take (path.length - ((strrchr path slash).getD path).tail.length)) = .ok none) :
    Search.fatfsSearchfile drive fs fuel path e s = .error .nullPointer := by
  have hrun := Search.fatfsSearchfile_run drive fs e s fuel path
  rw [fatfsSearchfile, h] at hrun
  exact hrun

theorem FailsCleanly.elim (h : FailsCleanly drive fs e path s) : False := by
  obtain ⟨rounds, hclean⟩ := h
  obtain ⟨t, hrun, -, hsame⟩ := hclean rounds le_rfl
  obtain ⟨hin, hout⟩ := dirPath_live hrun
  exact hout ((hsame _).mp hin)

end Clean

/-- No search fails cleanly, on any volume and for any path. -/
theorem search_never_clean (drive : Drive) (fs : FATFS) (e : Search.Env) (path : List UInt8)
    (s : Search.State) : ¬ FailsCleanly drive fs e path s := fun h => h.elim

/-! ## A name that is not there -/

/-- A heap that gives blocks one behind the other. -/
def bumpHeap : Search.Env where
  malloc live := live.sum + 1
  new _ := ⟨Nat.succ_ne_zero _, fun h => Nat.not_succ_le_self _ (List.le_sum_of_mem h)⟩
  fresh := ⟨fun _ => 0⟩

/-- The file that is to be filled in. -/
def blankFile : FATFile := .ofDirStruc [] (.ofMem (fun _ => 0) 0)

/-- In a root directory with the file `A` only, the search for `B` returns -1 and leaves a block. -/
theorem absent_leaks : fatfsInit (sectorDrive rootSector) = some rootFs ∧ rootFs.type = .FAT32 ∧
    OpensDir (sectorDrive rootSector) rootFs ⟨fun _ => 0⟩ (slash :: [0x42]) (sectorBlock rootSector)
      16 [⟨0, 0, [0x41]⟩] [0x42] ∧ firstNamed [0x42] [⟨0, 0, [0x41]⟩] = none ∧
    (∃ rounds, ∀ fuel ≥ rounds, ∃ t, Search.fatfsSearchfile (sectorDrive rootSector) rootFs fuel
      (slash :: [0x42]) bumpHeap ⟨[], blankFile⟩ = .ok (-1, t) ∧ t.live = [1]) ∧
    ¬ FailsCleanly (sectorDrive rootSector) rootFs bumpHeap (slash :: [0x42]) ⟨[], blankFile⟩ := by
  have hopens : OpensDir _ _ _ (slash :: [0x42]) _ _ _ [0x42] :=
    sectorDrive_opens rootSector (by decide) rootSector_items
  refine ⟨sectorDrive_init _, by decide, hopens, rfl, ?_, FailsCleanly.elim⟩
  obtain ⟨rounds, heq⟩ := hopens.selectFile_eq
  refine ⟨rounds + 2, fun fuel hfuel => ?_⟩
  have hrun := Search.fatfsSearchfile_run (sectorDrive rootSector) rootFs bumpHeap
    ⟨[], blankFile⟩ fuel (slash :: [0x42])
  have hfits : ∀ r ∈ scanned [0x42] [⟨0, 0, [0x41]⟩], r.name.length < 256 := by decide
  have hrounds : [(⟨0, 0, [0x41]⟩ : DirRecord)].length < fuel := by
    rw [List.length_singleton]
    omega
  have hloop := selectLoop_scan hopens.items hopens.size hfits fuel hrounds
  rw [show bumpHeap.fresh = ⟨fun _ => 0⟩ from rfl, fatfsSearchfile_eq, heq fuel (by omega)] at hrun
  rw [Nat.mul_zero] at hloop
  rw [hloop] at hrun
  obtain ⟨t, hret, -, hlive⟩ := hrun
  exact ⟨t, hret, List.perm_singleton.mp hlive⟩

end Raincloud
