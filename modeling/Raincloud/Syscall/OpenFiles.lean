import Raincloud.Fs.OpenFile
import Raincloud.Fs.ReadFile

/-!
# Descriptors and failed opens

The system calls on open files. `fs_open` allocates its context before it looks for the node, and
no path frees it: an open that fails leaves at least this block behind, or does not return.
-/

set_option linter.style.nameCheck false

namespace Raincloud

open Infra Infra.Frame

variable {e : OpenEnv} {s s' : OpenState} {p q c : Ptr} {b : FileBlock} {α : Type}
  {path : List UInt8} {oflag : Int}

/-! ## Descriptors -/

/-- `proc->fd_table[i]` of the current process. -/
def OpenState.setSlot (i : Nat) (ptr : Ptr) (s : OpenState) : OpenState :=
  { s with
    fdTable := Function.update s.fdTable s.currentProc
      (Function.update (s.fdTable s.currentProc) i ptr) }

/-- The loop of `fd_alloc`, for `n` more slots from `i` on. -/
def fdAllocFrom (ptr : Ptr) : Nat → Nat → OpenM Int
  | 0, _ => return -1
  | n + 1, i => do
    if (← Program.gets fun s => s.fdTable s.currentProc i) = NULL then
      Program.modify (OpenState.setSlot i ptr)
      return i
    fdAllocFrom ptr n (i + 1)

def fdAlloc (ptr : Ptr) : OpenM Int := do
  Program.check (ptr ≠ NULL) .halted
  fdAllocFrom ptr fdTableSize 0

def getFdPtr (fd : Int) : OpenM Ptr := do
  Program.check (0 ≤ fd ∧ fd < fdTableSize) .halted
  Program.gets fun s => s.fdTable s.currentProc fd.toNat

/-! ## System calls -/

def sysOpen (path : List UInt8) (oflag : Int) : OpenM Int := do
  let fsContext ← fsOpen path oflag
  if fsContext = NULL then return -1
  fdAlloc fsContext

/-- A call on the file of a descriptor; an empty slot is refused. -/
def onFd (fd : Int) (call : Ptr → OpenM Int) : OpenM Int := do
  let fsContext ← getFdPtr fd
  if fsContext = NULL then return -1
  call fsContext

def sysClose (fd : Int) : OpenM Int := onFd fd fsClose

def sysRead (fd : Int) (buf count : Nat) : OpenM Int := onFd fd fun c => fsRead c buf count

def sysWrite (fd : Int) (buf count : Nat) : OpenM Int := onFd fd fun c => fsWrite c buf count

def sysLseek (fd : Int) (offset whence : Int) : OpenM Int :=
  onFd fd fun c => fsLseek c offset whence

/-! ## The heap -/

theorem mallocFileBlock_ok (hrun : mallocFileBlock b e s = .ok (p, s')) :
    (p = NULL ∧ s' = s) ∨ (p ≠ NULL ∧ s.blocks p = none ∧ s' = s.setBlock p (some b)) := by
  rw [mallocFileBlock, Program.bind_of_ok Program.ask_apply] at hrun
  split at hrun
  · cases hrun
    exact .inl ⟨rfl, rfl⟩
  · next hne =>
    rw [Program.bind_of_ok Program.gets_apply] at hrun
    obtain ⟨⟨hnone, -⟩, hrun⟩ := Program.check_bind_ok.mp hrun
    cases hrun
    exact .inr ⟨hne, Option.isNone_iff_eq_none.mp hnone, rfl⟩

theorem readBlock_ok (hrun : readBlock p e s = .ok (b, s')) :
    p ≠ NULL ∧ s.blocks p = some b ∧ s' = s := by
  obtain ⟨hne, hrun⟩ := Program.check_bind_ok.mp hrun
  rw [Program.bind_of_ok Program.gets_apply] at hrun
  cases hb : s.blocks p with
  | none =>
    rw [hb] at hrun
    cases hrun
  | some b' =>
    rw [hb] at hrun
    cases hrun
    exact ⟨hne, rfl, rfl⟩

theorem readBlock_bind_ok {f : FileBlock → OpenM α} {a : α} :
    (readBlock p >>= f) e s = .ok (a, s') ↔
      p ≠ NULL ∧ ∃ b, s.blocks p = some b ∧ f b e s = .ok (a, s') := by
  rw [Program.bind_ok]
  constructor
  · rintro ⟨b, t, hread, hrun⟩
    obtain ⟨hne, hb, rfl⟩ := readBlock_ok hread
    exact ⟨hne, b, hb, hrun⟩
  · rintro ⟨hne, b, hb, hrun⟩
    refine ⟨b, s, ?_, hrun⟩
    rw [readBlock, Program.bind_of_ok (Program.check_of hne),
      Program.bind_of_ok Program.gets_apply, hb]
    rfl

theorem writeBlock_ok {u : Unit} (hrun : writeBlock p b e s = .ok (u, s')) :
    p ≠ NULL ∧ (s.blocks p).isSome ∧ s' = s.setBlock p (some b) := by
  obtain ⟨hne, b', hb, hrun⟩ := readBlock_bind_ok.mp hrun
  cases hrun
  exact ⟨hne, by rw [hb]; rfl, rfl⟩

theorem freeBlock_ok {u : Unit} (hrun : freeBlock p e s = .ok (u, s')) :
    p ≠ NULL ∧ (s' = s.setBlock p none ∨ s' = s.report (.freedTwice p)) := by
  obtain ⟨hne, hrun⟩ := Program.check_bind_ok.mp hrun
  rw [Program.bind_of_ok Program.gets_apply] at hrun
  cases hb : s.blocks p with
  | none =>
    rw [hb] at hrun
    cases hrun
    exact ⟨hne, .inr rfl⟩
  | some b =>
    rw [hb] at hrun
    cases hrun
    exact ⟨hne, .inl rfl⟩

/-- An `fs_open` that returns leaves a new block in use. -/
theorem fsOpen_leaves (hrun : fsOpen path oflag e s = .ok (c, s')) :
    c ≠ NULL ∧ s.blocks c = none ∧ (s'.blocks c).isSome := by
  obtain ⟨context, s₁, hmalloc, hrun⟩ := Program.bind_ok.mp hrun
  obtain ⟨node, s₂, -, hrun⟩ := Program.bind_ok.mp hrun
  obtain ⟨opened, s₃, -, hrun⟩ := Program.bind_ok.mp hrun
  obtain ⟨_, s₄, hwrite, hrun⟩ := Program.bind_ok.mp hrun
  obtain ⟨hne, -, rfl⟩ := writeBlock_ok hwrite
  cases hrun
  obtain ⟨hnull, -⟩ | ⟨-, hnone, -⟩ := mallocFileBlock_ok hmalloc
  · exact absurd hnull hne
  · refine ⟨hne, hnone, ?_⟩
    show (Function.update s₃.blocks c _ c).isSome
    rw [Function.update_self]
    rfl

/-! ## The node that is opened -/

/-- The loop that tells whether it ran to its end is the loop of `find_node`. -/
theorem findNodeEnd_loop {fe : FsEnv} : ∀ {fuel : Nat} {save : List UInt8} {node : Ptr}
    {t t' : FsState} {r : Ptr × Bool}, findNodeEnd fuel save node fe t = .ok (r, t') →
    findNodeLoop fuel save node fe t = .ok (r.1, t')
  | 0, _, _, _, _, _, h => by cases h
  | fuel + 1, save, node, t, t', r, h => by
    rw [findNodeEnd] at h
    rw [findNodeLoop]
    cases htok : strtokR save [slash] with
    | none =>
      rw [htok] at h
      cases h
      rfl
    | some token =>
      rw [htok] at h
      obtain ⟨step, t₁, hstep, h⟩ := Program.bind_ok.mp h
      refine Program.bind_ok.mpr ⟨step, t₁, hstep, ?_⟩
      cases step with
      | inl next => exact findNodeEnd_loop h
      | inr result =>
        cases h
        rfl

theorem onNodes_ok {x : Fs α} {a : α} (hrun : onNodes x e s = .ok (a, s')) :
    ∃ fs, x ⟨fun _ => NULL⟩ s.fs = .ok (a, fs) ∧ s' = { s with fs := fs } := by
  unfold onNodes at hrun
  cases hx : x ⟨fun _ => NULL⟩ s.fs with
  | error err =>
    rw [hx] at hrun
    cases hrun
  | ok r =>
    rw [hx] at hrun
    cases hrun
    exact ⟨r.2, rfl, rfl⟩

/-- With a buffer for the path, `find_node` finds what it finds in the tree alone. -/
theorem findNodeOpen_ok (hrun : findNodeOpen path e s = .ok (p, s')) :
    ∃ fs, findNode path ⟨fun _ => NULL⟩ s.fs = .ok (p, fs) ∧ s'.fs = fs := by
  obtain ⟨pathBuf, s₁, hmalloc, hrun⟩ := Program.bind_ok.mp hrun
  have hfs : s₁.fs = s.fs := by
    rcases mallocFileBlock_ok hmalloc with ⟨-, rfl⟩ | ⟨-, -, rfl⟩ <;> rfl
  obtain ⟨-, hrun⟩ := Program.check_bind_ok.mp hrun
  obtain ⟨⟨node, ended⟩, s₂, hnodes, hrun⟩ := Program.bind_ok.mp hrun
  obtain ⟨fs, hloop, rfl⟩ := onNodes_ok hnodes
  rw [hfs, Program.bind_of_ok Program.gets_apply, Program.bind_of_ok Program.gets_apply] at hloop
  obtain ⟨hroot, hloop⟩ := Program.check_bind_ok.mp hloop
  have hfound : findNode path ⟨fun _ => NULL⟩ s.fs = .ok (node, fs) := by
    rw [findNode, Program.bind_of_ok Program.gets_apply, Program.bind_of_ok Program.gets_apply]
    exact Program.check_bind_ok.mpr ⟨hroot, findNodeEnd_loop hloop⟩
  dsimp only at hrun
  split at hrun
  · obtain ⟨_, s₃, hfree, hrun⟩ := Program.bind_ok.mp hrun
    cases hrun
    exact ⟨fs, hfound, by obtain ⟨-, rfl | rfl⟩ := freeBlock_ok hfree <;> rfl⟩
  · cases hrun
    exact ⟨fs, hfound, rfl⟩

/-! ## Opens that fail -/

/-- `fat_open` finds the file and reads all of it. -/
def FatOpens (e : OpenEnv) (nodeName path : List UInt8) : Prop :=
  ∃ real volume file bufsize, realPath nodeName path = some real ∧
    fatfsInit e.drive = some volume ∧
    fatfsSearchfile e.drive volume e.fresh e.fuel real = .ok (some file) ∧
    computerNeededBufSize e.drive volume e.fuel file = .ok bufsize ∧
    ∀ buf mem, ∃ mem', fatfsReadfile e.drive volume e.fuel file buf bufsize mem = .ok (bufsize, mem')

/-- The path names a node whose open hook opens the file. -/
def Opens (e : OpenEnv) (s : OpenState) (path : List UInt8) : Prop :=
  ∃ node fs, findNode path ⟨fun _ => NULL⟩ s.fs = .ok (node, fs) ∧ node ≠ NULL ∧
    match (s.fs.nodes node).hook fileHookIndexOpen with
    | some .fatOpen => FatOpens e (s.fs.nodes node).name path
    | some _ => True
    | none => False

/-- The file is not opened, or there is no slot for it. -/
def OpenFails (e : OpenEnv) (s : OpenState) (path : List UInt8) : Prop :=
  ¬Opens e s path ∨ ∀ i < fdTableSize, s.fdTable s.currentProc i ≠ NULL

/-- The descriptors and the blocks in use are the same. -/
structure SameFiles (s s' : OpenState) : Prop where
  fdTable : s'.fdTable = s.fdTable
  blocks : ∀ p, (s'.blocks p).isSome ↔ (s.blocks p).isSome

/-- An open that fails returns -1 and changes nothing; a descriptor means that a file is open. -/
structure FailsClean (e : OpenEnv) (s : OpenState) (path : List UInt8) (oflag : Int) : Prop where
  clean : OpenFails e s path → ∃ s', sysOpen path oflag e s = .ok (-1, s') ∧ SameFiles s s'
  opened : ∀ fd s', sysOpen path oflag e s = .ok (fd, s') → fd ≠ -1 → Opens e s path

theorem fdAllocFrom_blocks {ptr : Ptr} {n i : Nat} {fd : Int}
    (hrun : fdAllocFrom ptr n i e s = .ok (fd, s')) : s'.blocks = s.blocks := by
  induction n generalizing i with
  | zero =>
    cases hrun
    rfl
  | succ n ih =>
    rw [fdAllocFrom, Program.bind_of_ok Program.gets_apply] at hrun
    split at hrun
    · cases hrun
      rfl
    · exact ih hrun

/-- An open that returns leaves the context of the file, with a descriptor or without one. -/
theorem sysOpen_leaves {fd : Int} (hrun : sysOpen path oflag e s = .ok (fd, s')) :
    ∃ c, s.blocks c = none ∧ (s'.blocks c).isSome := by
  obtain ⟨c, s₁, hopen, hrun⟩ := Program.bind_ok.mp hrun
  obtain ⟨hne, hnone, hsome⟩ := fsOpen_leaves hopen
  rw [if_neg hne] at hrun
  obtain ⟨-, hrun⟩ := Program.check_bind_ok.mp hrun
  exact ⟨c, hnone, by rw [fdAllocFrom_blocks hrun]; exact hsome⟩

theorem not_failsClean (hfails : OpenFails e s path) : ¬FailsClean e s path oflag := by
  intro h
  obtain ⟨s', hrun, hsame⟩ := h.clean hfails
  obtain ⟨c, hnone, hsome⟩ := sysOpen_leaves hrun
  rw [hsame.blocks, hnone] at hsome
  cases hsome

/--
No open that fails is clean: `fs_open` has allocated the context when it fails, and its hooks
report a failure to nobody. So the property holds just where no open fails.
-/
theorem failsClean_iff (e : OpenEnv) (s : OpenState) (path : List UInt8) (oflag : Int) :
    FailsClean e s path oflag ↔ ¬OpenFails e s path := by
  constructor
  · intro h hfails
    exact not_failsClean hfails h
  · intro hopens
    refine ⟨fun hfails => absurd hfails hopens, fun _ _ _ _ => ?_⟩
    by_contra hnot
    exact hopens (.inl hnot)

/-! ## A file that is not there -/

/-- `malloc` takes the first free one of the blocks 1 to 99. -/
def volumeEnv : OpenEnv where
  malloc s := ((List.range 100).tail.find? fun p => (s.blocks p).isNone).getD NULL
  drive := rootDrive
  fresh := ⟨fun _ => 0⟩
  fuel := 20
  unreturned _ := 0

/-- No file is open. -/
def noFiles (fs : FsState) : OpenState where
  fs := fs
  blocks _ := none
  mem _ := 0
  fdTable _ _ := NULL
  currentProc := 1
  calls := []
  misuse := []

/-- What a call returns. -/
def returned (r : Except OpenFault (α × OpenState)) : Option α := r.toOption.map Prod.fst

/-- The file `B` is not on the volume mounted at `/mnt/disk`. -/
theorem openFails_absent : OpenFails volumeEnv (noFiles (mountTree (ascii "mnt")))
    (ascii "/mnt/disk/B") := by
  refine .inl ?_
  rintro ⟨node, fs, hfind, -, hook⟩
  have hmount : MountedAt ⟨fun _ => NULL⟩ (mountTree (ascii "mnt")) (ascii "/mnt/disk/B")
      [ascii "mnt", ascii "disk"] [ascii "B"] 3 :=
    mountTree_mounted (ascii "mnt") (by decide) (by decide) _
  have hnode : node = 3 := congrArg Prod.fst (Except.ok.inj (hfind.symm.trans hmount.found))
  rw [hnode] at hook
  obtain ⟨real, volume, file, -, hreal, hinit, hsearch, -⟩ := hook
  have hsearched : realPath (ascii "disk") (ascii "/mnt/disk/B") = some (ascii "/B") := by decide
  obtain rfl : ascii "/B" = real := Option.some.inj (hsearched.symm.trans hreal)
  have habsent : ((fatfsInit volumeEnv.drive).bind fun volume =>
      (fatfsSearchfile volumeEnv.drive volume volumeEnv.fresh volumeEnv.fuel
        (ascii "/B")).toOption).map Option.isNone = some true := by decide +kernel
  rw [hinit, Option.bind_some, hsearch] at habsent
  cases habsent

/-- The process gets a descriptor for it. -/
theorem absent_file_opened : ∃ s',
    sysOpen (ascii "/mnt/disk/B") 0 volumeEnv (noFiles (mountTree (ascii "mnt"))) = .ok (0, s') ∧
    OpenFails volumeEnv (noFiles (mountTree (ascii "mnt"))) (ascii "/mnt/disk/B") ∧
    ¬FailsClean volumeEnv (noFiles (mountTree (ascii "mnt"))) (ascii "/mnt/disk/B") 0 := by
  have hret : returned (sysOpen (ascii "/mnt/disk/B") 0 volumeEnv
      (noFiles (mountTree (ascii "mnt")))) = some 0 := by decide +kernel
  cases hrun : sysOpen (ascii "/mnt/disk/B") 0 volumeEnv (noFiles (mountTree (ascii "mnt"))) with
  | error err =>
    rw [hrun] at hret
    cases hret
  | ok r =>
    rw [hrun] at hret
    obtain ⟨fd, s'⟩ := r
    obtain rfl : fd = 0 := Option.some.inj hret
    exact ⟨s', rfl, openFails_absent, not_failsClean openFails_absent⟩

end Raincloud
