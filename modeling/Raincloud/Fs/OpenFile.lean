import Raincloud.Fs.FatDir
import Raincloud.Fs.FatFile
import Raincloud.Fs.MountPath
import Raincloud.Fs.Pipe

/-!
# Open files

`fs_open` and the wrappers of the hooks of `fs.c`, with the hooks of `fs_special.c` and
`fs_generic.c`. The blocks of the heap are typed; their bytes, where they have any, are in the
memory. Buffers that a call allocates and frees again are left out.
-/

set_option linter.style.nameCheck false

namespace Raincloud

open Infra

/-! ## The heap -/

/-- What a block of the heap is. -/
inductive FileBlock where
  /-- `fs_context_t`. -/
  | fsContext (node context : Ptr)
  /-- `fat_context_t`. -/
  | fatContext (fs file buf : Ptr) (offset oflag : Int)
  /-- `FATFS_Type`, with the block of its boot sector. -/
  | fatfs (bpb : Ptr) (fs : Option FATFS)
  /-- `FATFile_Type`. -/
  | fatFile (file : Option FATFile)
  /-- `pipe_context_t`. -/
  | pipeContext (buf : Ptr) (writeOffset readOffset length : Nat)
  | bytes

/-- What is wrong with a use of the heap that does not stop the kernel. -/
inductive Misuse where
  /-- `__free` reports a block that is free, and changes nothing. -/
  | freedTwice (ptr : Ptr)
  /-- A block read after it is freed; its bytes are still there. -/
  | readFreed (ptr : Ptr)

structure OpenState where
  fs : FsState
  /-- The blocks in use. -/
  blocks : Ptr → Option FileBlock
  mem : Mem
  /-- `fd_table` of each process. -/
  fdTable : Ptr → Nat → Ptr
  currentProc : Ptr
  /-- The hooks called so far, by node and index. -/
  calls : List (Ptr × Nat)
  misuse : List Misuse

structure OpenEnv where
  /-- What the next `malloc` returns. -/
  malloc : OpenState → Ptr
  /-- The volume, what the heap holds and how many rounds the loops of `fat.c` get. -/
  drive : Drive
  fresh : Fresh
  fuel : Nat
  /-- What a caller finds when a function returns no value. -/
  unreturned : OpenState → Int

inductive OpenFault where
  /-- A fault in the tree of nodes. -/
  | node (err : FsFault)
  /-- A fault in `fat.c`. -/
  | fat (err : FatFault)
  /-- An assertion. -/
  | halted
  /-- `NULL` used as a block, or called. -/
  | nullPointer
  /-- A block used after it is freed. -/
  | useAfterFree
  /-- A block used as what it is not. -/
  | wrongBlock
  /-- A function called as a hook that it is not. -/
  | wrongHook
  /-- Not a fault of the code: the environment gave a block that was in use. -/
  | environment

abbrev OpenM := Program OpenEnv OpenFault OpenState

def OpenState.setBlock (p : Ptr) (b : Option FileBlock) (s : OpenState) : OpenState :=
  { s with blocks := Function.update s.blocks p b }

def OpenState.report (m : Misuse) (s : OpenState) : OpenState :=
  { s with misuse := m :: s.misuse }

/-- `NULL`, or a new block. -/
def mallocFileBlock (b : FileBlock) : OpenM Ptr := do
  let p ← Program.ask OpenEnv.malloc
  if p = NULL then return NULL
  Program.check ((← Program.gets fun s => s.blocks p).isNone ∧ p < 2 ^ 64) .environment
  Program.modify (OpenState.setBlock p (some b))
  return p

/-- `malloc(0)` is `NULL`. -/
def mallocBytes (size : Nat) : OpenM Ptr :=
  if size = 0 then pure NULL else mallocFileBlock .bytes

/-- The header of a block at `NULL` is not there. -/
def freeBlock (p : Ptr) : OpenM Unit := do
  Program.check (p ≠ NULL) .nullPointer
  match ← Program.gets fun s => s.blocks p with
  | some _ => Program.modify (OpenState.setBlock p none)
  | none => Program.modify (OpenState.report (.freedTwice p))

def readBlock (p : Ptr) : OpenM FileBlock := do
  Program.check (p ≠ NULL) .nullPointer
  match ← Program.gets fun s => s.blocks p with
  | some b => return b
  | none => Program.fault .useAfterFree

def writeBlock (p : Ptr) (b : FileBlock) : OpenM Unit := do
  let _ ← readBlock p
  Program.modify (OpenState.setBlock p (some b))

def setMem (mem : Mem) : OpenM Unit := Program.modify fun s => { s with mem := mem }

/-- Code of the tree of nodes that makes no nodes. -/
def onNodes {α : Type} (x : Fs α) : OpenM α := fun _ s =>
  match x ⟨fun _ => NULL⟩ s.fs with
  | .ok (a, fs) => .ok (a, { s with fs := fs })
  | .error err => .error (.node err)

/-- Code of `fat.c`. -/
def onFat {α : Type} (x : Except FatFault α) : OpenM α := fun _ s =>
  match x with
  | .ok a => .ok (a, s)
  | .error err => .error (.fat err)

/-! ## `stdio` -/

def stdioOpen : OpenM Ptr := return NULL

def stdioClose : OpenM Int := return 0

def stdioRead : OpenM Int := return 0

/-- The text goes to the console. -/
def stdioWrite (size : Nat) : OpenM Int := do
  let temp ← mallocBytes (add64 size 1)
  Program.check (temp ≠ NULL) .nullPointer
  freeBlock temp
  return toOff size

/-! ## Pipes -/

def openPipe : OpenM Ptr := do
  let context ← mallocFileBlock (.pipeContext NULL 0 0 0)
  let buf ← mallocFileBlock .bytes
  writeBlock context (.pipeContext buf 0 0 0)
  return context

/-- There is no `return`. -/
def closePipe (context : Ptr) : OpenM Int := do
  match ← readBlock context with
  | .pipeContext buf _ _ _ =>
    freeBlock buf
    freeBlock context
    Program.ask OpenEnv.unreturned
  | _ => Program.fault .wrongBlock

/-- The block of a pipe, if any byte of it is used. -/
def pipeBlock (buf size : Nat) : OpenM (Nat → UInt8) := do
  if size ≠ 0 then let _ ← readBlock buf
  Program.gets fun s i => s.mem (buf + i)

def readPipe (context : Ptr) (buf size : Nat) : OpenM Int := do
  match ← readBlock context with
  | .pipeContext block writeOffset readOffset length =>
    let bytes ← pipeBlock block (min size length)
    let (n, c, mem) := pipeRead ⟨bytes, writeOffset, readOffset, length⟩ buf size
      (← Program.gets OpenState.mem)
    setMem mem
    writeBlock context (.pipeContext block c.writeOffset c.readOffset c.length)
    return toOff n
  | _ => Program.fault .wrongBlock

def writePipe (context : Ptr) (buf size : Nat) : OpenM Int := do
  match ← readBlock context with
  | .pipeContext block writeOffset readOffset length =>
    let bytes ← pipeBlock block (min size (sub64 pipeBufferSize length))
    let mem ← Program.gets OpenState.mem
    let (n, c) := pipeWrite ⟨bytes, writeOffset, readOffset, length⟩ buf size mem
    setMem (mem.put block pipeBufferSize c.buf)
    writeBlock context (.pipeContext block c.writeOffset c.readOffset c.length)
    return toOff n
  | _ => Program.fault .wrongBlock

/-! ## FAT files -/

/-- `fatfs_init` of a block. -/
def initFatfs (fs : Ptr) : OpenM (FATFS × Ptr) := do
  Program.check (fs ≠ NULL) .nullPointer
  let bpb ← mallocFileBlock .bytes
  Program.check (bpb ≠ NULL) .halted
  match ← Program.ask fun e _ => fatfsInit e.drive with
  | some volume =>
    writeBlock fs (.fatfs bpb volume)
    return (volume, bpb)
  | none => Program.fault .halted

/-- `fatfs_destroy`. -/
def destroyFatfs (fs : Ptr) : OpenM Unit := do
  match ← readBlock fs with
  | .fatfs bpb _ => if bpb ≠ NULL then freeBlock bpb
  | _ => Program.fault .wrongBlock

/-- What `fat_open` does when the file is not found or not read. -/
def failFatOpen (context fs file : Ptr) : OpenM Ptr := do
  destroyFatfs fs
  freeBlock fs
  freeBlock context
  -- `context->file` is read from the block just freed
  Program.modify (OpenState.report (.readFreed context))
  freeBlock file
  return NULL

/-- `fatfs_searchfile` keeps the copy of the path of the directory. -/
def searchFat (volume : FATFS) (realPath : List UInt8) : OpenM (Option FATFile) := do
  let dirPath ← mallocFileBlock .bytes
  Program.check (dirPath ≠ NULL) .nullPointer
  onFat (← Program.ask fun e _ => fatfsSearchfile e.drive volume e.fresh e.fuel realPath)

/-- `computer_needed_buf_size`. -/
def computerNeededBufSize (drive : Drive) (volume : FATFS) (fuel : Nat) (file : FATFile) :
    Except FatFault Nat := do
  let length ← orEndless (computeClusterChainLength drive volume fuel file.firstCluster)
  return length * volume.bpb.secPerClus * volume.bpb.bytsPerSec % 2 ^ 32

/-- The file read to a new block: the block, its size and the number of bytes read. -/
def loadFat (volume : FATFS) (file : FATFile) : OpenM (Ptr × Nat × Nat) := do
  let bufsize ← onFat (← Program.ask fun e _ =>
    computerNeededBufSize e.drive volume e.fuel file)
  let buf ← mallocBytes bufsize
  Program.check (buf ≠ NULL ∨ bufsize = 0) .nullPointer
  let mem ← Program.gets OpenState.mem
  let (ret, mem) ← onFat (← Program.ask fun e _ =>
    fatfsReadfile e.drive volume e.fuel file buf bufsize mem)
  setMem mem
  return (buf, bufsize, ret)

def openFat (node : Ptr) (path : List UInt8) (oflag : Int) : OpenM Ptr := do
  let context ← mallocFileBlock (.fatContext NULL NULL NULL 0 0)
  let fs ← mallocFileBlock (.fatfs NULL none)
  writeBlock context (.fatContext fs NULL NULL 0 0)
  let (volume, _) ← initFatfs fs
  match realPath (← Program.gets fun s => (s.fs.nodes node).name) path with
  | none => Program.fault .nullPointer
  | some realPath =>
    let file ← mallocFileBlock (.fatFile none)
    match ← searchFat volume realPath with
    | none => failFatOpen context fs file
    | some found =>
      writeBlock file (.fatFile found)
      let (buf, bufsize, ret) ← loadFat volume found
      if ret ≠ bufsize then failFatOpen context fs file
      else
        writeBlock context (.fatContext fs file buf 0 oflag)
        return context

/-- `buf` stays. -/
def closeFat (context : Ptr) : OpenM Int := do
  match ← readBlock context with
  | .fatContext fs file _ _ _ =>
    destroyFatfs fs
    freeBlock file
    freeBlock fs
    freeBlock context
    return 0
  | _ => Program.fault .wrongBlock

/-- The cursor of an open file put to use. -/
def withFatContext (context : Ptr) (x : FatContext → Mem → Int × FatContext × Mem) :
    OpenM Int := do
  match ← readBlock context with
  | .fatContext fs file buf offset oflag =>
    match ← readBlock file with
    | .fatFile (some found) =>
      let (ret, c, mem) := x ⟨buf, found.fileSize, offset⟩ (← Program.gets OpenState.mem)
      setMem mem
      writeBlock context (.fatContext fs file buf c.offset oflag)
      return ret
    | _ => Program.fault .wrongBlock
  | _ => Program.fault .wrongBlock

def readFat (context : Ptr) (buf size : Nat) : OpenM Int :=
  withFatContext context fun c mem => fatRead c buf size mem

def lseekFat (context : Ptr) (offset whence : Int) : OpenM Int :=
  withFatContext context fun c mem =>
    let (ret, c) := fatLseek c offset whence
    (ret, c, mem)

/-! ## The wrappers of `fs.c` -/

/-- The loop of `find_node`, and whether it ran to its end. -/
def findNodeEnd : Nat → List UInt8 → Ptr → Fs (Ptr × Bool)
  | 0, _, _ => Program.fault .endless
  | fuel + 1, save, node =>
    match strtokR save [slash] with
    | none => return (node, true)
    | some (dirName, save) => do
      match ← findStep dirName node with
      | .inl node => findNodeEnd fuel save node
      | .inr result => return (result, false)

/-- `find_node` keeps the copy of the path if it returns from inside its loop. -/
def findNodeOpen (path : List UInt8) : OpenM Ptr := do
  let pathBuf ← mallocFileBlock .bytes
  Program.check (pathBuf ≠ NULL) .nullPointer
  let (node, ended) ← onNodes do
    let root ← Program.gets FsState.root
    Program.check (root ∈ (← Program.gets FsState.live)) .useAfterFree
    findNodeEnd (path.length + 1) path root
  if ended then freeBlock pathBuf
  return node

/-- `node->hook`, at an index. -/
def hookOf (node : Ptr) (hookIndex : Nat) : OpenM (Option Hook) := do
  Program.check (node ≠ NULL) .nullPointer
  Program.check (node ∈ (← Program.gets fun s => s.fs.live)) .useAfterFree
  Program.gets fun s => (s.fs.nodes node).hook hookIndex

/-- A hook is called. -/
def callHook (node : Ptr) (hookIndex : Nat) : OpenM Unit :=
  Program.modify fun s => { s with calls := (node, hookIndex) :: s.calls }

/-- `node->hook->open(node, path, oflag)`. -/
def openHook (node : Ptr) (path : List UInt8) (oflag : Int) : OpenM Ptr := do
  let hook ← hookOf node fileHookIndexOpen
  callHook node fileHookIndexOpen
  match hook with
  | some .stdioOpen => stdioOpen
  | some .fatOpen => openFat node path oflag
  | some .pipeOpen => openPipe
  | some _ => Program.fault .wrongHook
  | none => Program.fault .nullPointer

def fsOpen (path : List UInt8) (oflag : Int) : OpenM Ptr := do
  let context ← mallocFileBlock (.fsContext NULL NULL)
  let node ← findNodeOpen path
  let opened ← openHook node path oflag
  writeBlock context (.fsContext node opened)
  return context

/-- The node and the context of the file behind an `fs_context_t`. -/
def readFsContext (context : Ptr) : OpenM (Ptr × Ptr) := do
  match ← readBlock context with
  | .fsContext node opened => return (node, opened)
  | _ => Program.fault .wrongBlock

/-- A hook of the node of a context is called, if there is one. -/
def withHook (context : Ptr) (hookIndex : Nat) (call : Hook → Ptr → OpenM Int) : OpenM Int := do
  let (node, opened) ← readFsContext context
  match ← hookOf node hookIndex with
  | none => return -1
  | some hook =>
    callHook node hookIndex
    call hook opened

def closeHook (hook : Hook) (opened : Ptr) : OpenM Int :=
  match hook with
  | .stdioClose => stdioClose
  | .fatClose => closeFat opened
  | .pipeClose => closePipe opened
  | _ => Program.fault .wrongHook

def fsClose (context : Ptr) : OpenM Int :=
  withHook context fileHookIndexClose fun hook opened => do
    let ret ← closeHook hook opened
    freeBlock opened
    return ret

def fsRead (context : Ptr) (buf size : Nat) : OpenM Int :=
  withHook context fileHookIndexRead fun hook opened =>
    match hook with
    | .stdioRead => stdioRead
    | .fatRead => readFat opened buf size
    | .pipeRead => readPipe opened buf size
    | _ => Program.fault .wrongHook

def fsWrite (context : Ptr) (buf size : Nat) : OpenM Int :=
  withHook context fileHookIndexWrite fun hook opened =>
    match hook with
    | .stdioWrite => stdioWrite size
    | .pipeWrite => writePipe opened buf size
    | _ => Program.fault .wrongHook

def fsLseek (context : Ptr) (offset whence : Int) : OpenM Int :=
  withHook context fileHookIndexLseek fun hook opened =>
    match hook with
    | .fatLseek => lseekFat opened offset whence
    | _ => Program.fault .wrongHook

end Raincloud
