import Raincloud.Infra.Program
import Raincloud.Kernel.Objects
import Raincloud.Klibc.CString
import Raincloud.Klibc.ListHead

/-!
# `fs.c`: the tree of file nodes

A file node hangs on the list of children of its parent and has a list of its own. The buffers
the paths are copied to are left out.
-/

set_option linter.style.nameCheck false

namespace Raincloud

open Infra Infra.LinkStore

/-! ## Nodes -/

def fileTypeRoot : Nat := 0x00

def fileTypeDirctory : Nat := 0x01

def fileTypeMountPoint : Nat := 0x10

def fileTypeSpecial : Nat := 0x20

/-- A `list_head_t` of a file node. -/
inductive NodeRef where
  | null
  | list (node : Ptr)
  | children (node : Ptr)
  deriving DecidableEq

/-- `list_entry(it, file_node_t, list)`. -/
def NodeRef.node? : NodeRef → Option Ptr
  | list n => some n
  | _ => none

def hookMax : Nat := 7

def fileHookIndexOpen : Nat := 0

def fileHookIndexClose : Nat := 1

def fileHookIndexRead : Nat := 2

def fileHookIndexWrite : Nat := 3

def fileHookIndexLseek : Nat := 4

/-- The functions that are registered as hooks. -/
inductive Hook where
  | stdioOpen
  | stdioClose
  | stdioRead
  | stdioWrite
  | fatOpen
  | fatClose
  | fatRead
  | fatLseek
  | pipeOpen
  | pipeClose
  | pipeRead
  | pipeWrite

/-- `file_node_t`, with its `file_hook_t`. -/
structure FileNode where
  name : List UInt8
  type : Nat
  parent : Ptr
  hook : Nat → Option Hook

/-- `memset(node, 0, sizeof(file_node_t))`, and the same for the hooks. -/
def FileNode.zero : FileNode := ⟨[], 0, NULL, fun _ => none⟩

structure FsState where
  next : NodeRef → NodeRef
  prev : NodeRef → NodeRef
  nodes : Ptr → FileNode
  /-- The nodes allocated and not freed. -/
  live : List Ptr
  root : Ptr

instance : LinkStore FsState NodeRef where
  next s := s.next
  prev s := s.prev
  setNext s x v := { s with next := Function.update s.next x v }
  setPrev s x v := { s with prev := Function.update s.prev x v }

theorem fsState_lawful : LawfulOn FsState (Set.univ : Set NodeRef) where
  next_setNext s x v y _ _ _ := Function.update_apply s.next x v y
  prev_setNext _ _ _ _ _ _ _ := rfl
  next_setPrev _ _ _ _ _ _ _ := rfl
  prev_setPrev s x v y _ _ _ := Function.update_apply s.prev x v y

def FsState.setNode (n : Ptr) (f : FileNode → FileNode) (s : FsState) : FsState :=
  { s with nodes := Function.update s.nodes n (f (s.nodes n)) }

structure FsEnv where
  /-- What the next `malloc` of a node returns. -/
  malloc : FsState → Ptr

/-- `malloc` finds a block that is not in use. -/
def FsEnv.MallocSucceeds (e : FsEnv) (s : FsState) : Prop :=
  e.malloc s ≠ NULL ∧ e.malloc s ∉ s.live ∧ e.malloc s < 2 ^ 64

inductive FsFault where
  /-- An assertion. -/
  | halted
  /-- A list head taken for a node that it is not part of, or `NULL + 1`. -/
  | wildPointer
  /-- A node used after it is freed. -/
  | useAfterFree
  /-- A walk that does not come back to the list head. -/
  | endless
  /-- Not a fault of the code: the environment gave a block that was in use. -/
  | environment
  deriving DecidableEq

abbrev Fs := Program FsEnv FsFault FsState

/-! ## Allocation -/

def mallocNode : Fs Ptr := do
  let p ← Program.ask FsEnv.malloc
  if p = NULL then return NULL
  let live ← Program.gets FsState.live
  Program.check (p ∉ live ∧ p < 2 ^ 64) .environment
  Program.modify fun s => { s with live := p :: s.live }
  return p

/-- `alloc_node` after its assertion. -/
def initNode (node : Ptr) (s : FsState) : FsState :=
  let s := s.setNode node fun _ => FileNode.zero
  listInit (listInit s (.list node)) (.children node)

def allocNode : Fs Ptr := do
  let node ← mallocNode
  Program.check (node ≠ NULL) .halted
  Program.modify (initNode node)
  return node

def freeNode (node : Ptr) : Fs Unit :=
  Program.modify fun s => { s with live := s.live.erase node }

/-! ## Lookup -/

/-- The loop over the children of `node`, from the list head `it` on. -/
def findChildFrom (dirName : List UInt8) (node : Ptr) : Nat → NodeRef → Fs (Option Ptr)
  | 0, _ => Program.fault .endless
  | fuel + 1, it => do
    if it = .children node then return none
    match it.node? with
    | none => Program.fault .wildPointer
    | some entry =>
      Program.check (entry ∈ (← Program.gets FsState.live)) .useAfterFree
      if strcmp (← Program.gets fun s => (s.nodes entry).name) dirName = 0 then return some entry
      findChildFrom dirName node fuel (← Program.gets fun s => s.next it)

/-- One round of the loop over the path: the node to go on from, or the result. -/
def findStep (dirName : List UInt8) (node : Ptr) : Fs (Ptr ⊕ Ptr) := do
  Program.check (node ∈ (← Program.gets FsState.live)) .useAfterFree
  let found ← findChildFrom dirName node walkFuel (← Program.gets fun s => s.next (.children node))
  let node := found.getD node
  if strcmp (← Program.gets fun s => (s.nodes node).name) dirName ≠ 0 then
    if (← Program.gets fun s => (s.nodes node).type) = fileTypeMountPoint then return .inr node
    else return .inr NULL
  return .inl node

/-- The loop over the path. -/
def findNodeLoop : Nat → List UInt8 → Ptr → Fs Ptr
  | 0, _, _ => Program.fault .endless
  | fuel + 1, save, node =>
    match strtokR save [slash] with
    | none => return node
    | some (dirName, save) => do
      match ← findStep dirName node with
      | .inl node => findNodeLoop fuel save node
      | .inr result => return result

/-- Reading `root` needs the root to be there. A token takes at least one byte of the path. -/
def findNode (path : List UInt8) : Fs Ptr := do
  let root ← Program.gets FsState.root
  Program.check (root ∈ (← Program.gets FsState.live)) .useAfterFree
  findNodeLoop (path.length + 1) path root

/-- `strrchr(path, '/') + 1`. -/
def afterSlash (path : List UInt8) : Fs (List UInt8) :=
  match strrchr path slash with
  | some t => return t.tail
  | none => Program.fault .wildPointer

def fsGetnode (path : List UInt8) : Fs Ptr := do
  let node ← findNode path
  let nodeName ← afterSlash path
  if node = NULL then return NULL
  if strcmp nodeName (← Program.gets fun s => (s.nodes node).name) = 0 then return node
  return NULL

/-! ## Creation and removal -/

def stripTailSlash (src : List UInt8) : Fs (List UInt8) := do
  let tail ← afterSlash src
  if tail = [] then return src.dropLast
  return src

/-- A new node made a child of `parent_dir`. -/
def linkNode (node : Ptr) (name : List UInt8) (type : Nat) (parentDir : Ptr) (s : FsState) :
    FsState :=
  let s := s.setNode node fun n => { n with name := name, type := type, parent := parentDir }
  listAddBefore s (.children parentDir) (.list node)

def fsMknode (path : List UInt8) (type : Nat) : Fs Int := do
  if strcmp path [slash] = 0 then return -1
  let strippedPath ← stripTailSlash path
  let newNodeName ← afterSlash strippedPath
  let dirPath := strippedPath.take (strippedPath.length - newNodeName.length)
  let parentDir ← findNode dirPath
  if parentDir = NULL then return -1
  let newNode ← allocNode
  Program.modify (linkNode newNode newNodeName type parentDir)
  return 0

def fsRmnode (path : List UInt8) : Fs Int := do
  if strcmp path [slash] = 0 then return -1
  let target ← findNode path
  if target = NULL then return -1
  if !(← Program.gets fun s => listEmpty s (.children target)) then return -1
  Program.modify fun s => listDel s (.list target)
  freeNode target
  return 0

/-! ## Hooks -/

def fsReghook (path : List UInt8) (hookIndex : Nat) (hook : Hook) : Fs Int := do
  if strcmp path [slash] = 0 then return -1
  let target ← findNode path
  if target = NULL then return -1
  Program.check (hookIndex < hookMax) .halted
  Program.modify fun s => s.setNode target fun n =>
    { n with hook := Function.update n.hook hookIndex (some hook) }
  return 0

/-- The hooks of a node registered one after the other. -/
def fsReghooks (path : List UInt8) : List (Nat × Hook) → Fs Int
  | [] => return 0
  | (hookIndex, hook) :: hooks => do
    let ret ← fsReghook path hookIndex hook
    if ret ≠ 0 then return ret
    fsReghooks path hooks

/-- A node made and its hooks registered. -/
def mknodeHooked (path : List UInt8) (type : Nat) (hooks : List (Nat × Hook)) : Fs Int := do
  let ret ← fsMknode path type
  if ret ≠ 0 then return ret
  fsReghooks path hooks

def stdioMknode (path : List UInt8) : Fs Int :=
  mknodeHooked path fileTypeSpecial [(fileHookIndexOpen, .stdioOpen),
    (fileHookIndexClose, .stdioClose), (fileHookIndexRead, .stdioRead),
    (fileHookIndexWrite, .stdioWrite)]

def fatMknode (path : List UInt8) : Fs Int :=
  mknodeHooked path fileTypeMountPoint [(fileHookIndexOpen, .fatOpen),
    (fileHookIndexClose, .fatClose), (fileHookIndexRead, .fatRead),
    (fileHookIndexLseek, .fatLseek)]

def pipeMknode (path : List UInt8) : Fs Int :=
  mknodeHooked path fileTypeSpecial [(fileHookIndexOpen, .pipeOpen),
    (fileHookIndexClose, .pipeClose), (fileHookIndexRead, .pipeRead),
    (fileHookIndexWrite, .pipeWrite)]

/-! ## The start -/

/-- The bytes of an ASCII string. -/
def ascii (text : String) : List UInt8 := text.toList.map fun c => c.toNat.toUInt8

def fsInit : Fs Unit := do
  let root ← allocNode
  Program.modify fun s => { s with root := root }
  Program.modify fun s => s.setNode root fun n => { n with name := [slash], type := fileTypeRoot }
  let _ ← stdioMknode (ascii "/stdio")
  let _ ← fatMknode (ascii "/disk")
  let _ ← pipeMknode (ascii "/pipe")

end Raincloud
