import Raincloud.Syscall.BadFd

/-!
# The lifetime of open files

A file is open as long as a slot of some process points to its context. `fork` copies the slots,
so several processes may have the same file. `sys_close` neither clears the slot nor frees the
context, and `fs_close` frees what the close hook has freed. Without it, and with opens of the
console and of pipes only, the blocks in use are those of the open files.
-/

set_option linter.style.nameCheck false

namespace Raincloud

open Infra

/-! ## Open files -/

/-- The pointers in a block to other blocks of the file. -/
def FileBlock.links : FileBlock → List Ptr
  | .fsContext _ context => [context]
  | .fatContext fs file buf _ _ => [fs, file, buf]
  | .fatfs bpb _ => [bpb]
  | .fatFile _ => []
  | .pipeContext buf _ _ _ => [buf]
  | .bytes => []

namespace OpenState

def links (s : OpenState) (p : Ptr) : List Ptr :=
  match s.blocks p with
  | some b => b.links.filter (· ≠ NULL)
  | none => []

/-- What is reached from a block in fewer than `n` steps. -/
def reached (s : OpenState) : Nat → Ptr → List Ptr
  | 0, _ => []
  | n + 1, p => p :: (s.links p).flatMap (s.reached n)

end OpenState

/-- A descriptor of some process refers to the context. -/
def Referred (s : OpenState) (c : Ptr) : Prop :=
  c ≠ NULL ∧ ∃ proc, ∃ i < fdTableSize, s.fdTable proc i = c

inductive FileCall where
  | sysOpen (path : List UInt8) (oflag : Int)
  | sysRead (fd : Int) (buf count : Nat)
  | sysWrite (fd : Int) (buf count : Nat)
  | sysLseek (fd offset whence : Int)
  | sysClose (fd : Int)
  | fork (child : Ptr)
  | sched (proc : Ptr)

/-- What `proc_init` does to the descriptors of a child of the current process. -/
def forkTable (child : Ptr) (s : OpenState) : OpenState :=
  { s with fdTable := Function.update s.fdTable child (s.fdTable s.currentProc) }

def FileCall.run : FileCall → OpenM Int
  | sysOpen path oflag => Raincloud.sysOpen path oflag
  | sysRead fd buf count => Raincloud.sysRead fd buf count
  | sysWrite fd buf count => Raincloud.sysWrite fd buf count
  | sysLseek fd offset whence => Raincloud.sysLseek fd offset whence
  | sysClose fd => Raincloud.sysClose fd
  | fork child => do
    Program.modify (forkTable child)
    return 0
  | sched proc => do
    Program.modify fun s => { s with currentProc := proc }
    return 0

/-- The hooks that a function like `stdio_mknode` registers. -/
structure HasHooks (f : FileNode) (opens closes reads : Hook) (writes lseeks : Option Hook) :
    Prop where
  opens : f.hook fileHookIndexOpen = some opens
  closes : f.hook fileHookIndexClose = some closes
  reads : f.hook fileHookIndexRead = some reads
  writes : f.hook fileHookIndexWrite = writes
  lseeks : f.hook fileHookIndexLseek = lseeks

def FileNode.IsStdio (f : FileNode) : Prop :=
  f.type = fileTypeSpecial ∧ HasHooks f .stdioOpen .stdioClose .stdioRead (some .stdioWrite) none

def FileNode.IsPipe (f : FileNode) : Prop :=
  f.type = fileTypeSpecial ∧ HasHooks f .pipeOpen .pipeClose .pipeRead (some .pipeWrite) none

def FileNode.IsFat (f : FileNode) : Prop :=
  f.type = fileTypeMountPoint ∧ HasHooks f .fatOpen .fatClose .fatRead none (some .fatLseek)

/-- Before the first open. -/
structure FilesStart (s : OpenState) : Prop where
  tree : NodeTree s.fs
  nodes : ∀ n ∈ s.fs.live, (∀ i, (s.fs.nodes n).hook i = none) ∨ (s.fs.nodes n).IsStdio ∨
    (s.fs.nodes n).IsPipe ∨ (s.fs.nodes n).IsFat
  blocks : ∀ p, s.blocks p = none
  slots : ∀ proc i, s.fdTable proc i = NULL
  misuse : s.misuse = []

/-- The path names the console or a pipe. -/
structure NamesSpecial (s : OpenState) (path : List UInt8) (n : Ptr) : Prop where
  found : findNode path ⟨fun _ => NULL⟩ s.fs = .ok (n, s.fs)
  node : n ≠ NULL
  kind : (s.fs.nodes n).IsStdio ∨ (s.fs.nodes n).IsPipe

/-- There is no buffer for a text that is to be written: `memcpy` faults. -/
def NoBuffer (a : OpenEnv × FileCall) : Prop :=
  match a.2 with
  | .sysWrite _ _ count => add64 count 1 = 0 ∨ ∃ t, a.1.malloc t = NULL
  | _ => False

/-- A file that is open, and its blocks. -/
inductive FileAt (s : OpenState) : Ptr → List Ptr → Prop
  | stdio {c n : Ptr} (context : s.blocks c = some (.fsContext n NULL)) (node : n ∈ s.fs.live)
      (kind : (s.fs.nodes n).IsStdio) : FileAt s c [c]
  | pipe {c n o buf writeOffset readOffset length : Nat}
      (context : s.blocks c = some (.fsContext n o)) (node : n ∈ s.fs.live)
      (kind : (s.fs.nodes n).IsPipe) (ho : o ≠ NULL) (hbuf : buf ≠ NULL)
      (pipe : s.blocks o = some (.pipeContext buf writeOffset readOffset length))
      (bytes : s.blocks buf = some .bytes) : FileAt s c [c, o, buf]

variable {e : OpenEnv} {s t : OpenState} {c n o p : Ptr} {bs : List Ptr} {b : FileBlock}
  {allowed : OpenFault → Prop}

theorem FileAt.alive (h : FileAt s c bs) : ∀ p ∈ bs, (s.blocks p).isSome := by
  cases h with
  | stdio context => simp [context]
  | pipe context _ _ _ _ pipe bytes => simp [context, pipe, bytes]

/-- A block that stays as it is, or that of a pipe that is used. -/
def SameBlock (b b' : Option FileBlock) : Prop :=
  b' = b ∨ ∃ buf i j k i' j' k', b = some (.pipeContext buf i j k) ∧
    b' = some (.pipeContext buf i' j' k')

theorem SameBlock.isSome {b b' : Option FileBlock} (h : SameBlock b b') :
    b'.isSome = b.isSome := by
  obtain rfl | ⟨buf, i, j, k, i', j', k', rfl, rfl⟩ := h <;> rfl

theorem FileAt.keep (h : FileAt s c bs) (hfs : t.fs = s.fs)
    (hb : ∀ p ∈ bs, SameBlock (s.blocks p) (t.blocks p)) : FileAt t c bs := by
  -- what is no pipe stays as it is
  have hsame : ∀ p ∈ bs, ∀ b, s.blocks p = some b → (∀ buf i j k, b ≠ .pipeContext buf i j k) →
      t.blocks p = some b := by
    intro p hp b hs hne
    obtain heq | ⟨buf, i, j, k, i', j', k', hpipe, -⟩ := hb p hp
    · rw [heq, hs]
    · exact absurd (Option.some.inj (hs.symm.trans hpipe)) (hne buf i j k)
  cases h with
  | stdio context node kind =>
    exact .stdio (hsame _ (by simp) _ context (by simp)) (by rwa [hfs]) (by rwa [hfs])
  | @pipe n o buf _ _ _ context node kind ho hbuf pipe bytes =>
    obtain ⟨i, j, k, hpipe'⟩ : ∃ i j k, t.blocks o = some (.pipeContext buf i j k) := by
      have hpipe := hb o (by simp)
      rw [pipe] at hpipe
      obtain heq | ⟨buf', i, j, k, i', j', k', hold, hnew⟩ := hpipe
      · exact ⟨_, _, _, heq⟩
      · cases hold
        exact ⟨_, _, _, hnew⟩
    exact .pipe (hsame _ (by simp) _ context (by simp)) (by rwa [hfs]) (by rwa [hfs]) ho hbuf
      hpipe' (hsame _ (by simp) _ bytes (by simp))

/-! ## The invariant -/

structure FilesOk (s : OpenState) : Prop where
  tree : NodeTree s.fs
  null : s.blocks NULL = none
  files : ∀ c, Referred s c → ∃ bs, FileAt s c bs
  owned : ∀ p, (s.blocks p).isSome → ∃ c bs, Referred s c ∧ FileAt s c bs ∧ p ∈ bs
  misuse : s.misuse = []

theorem FilesStart.ok (h : FilesStart s) : FilesOk s where
  tree := h.tree
  null := h.blocks NULL
  files c hc := by
    obtain ⟨hne, proc, i, -, hslot⟩ := hc
    exact absurd ((h.slots proc i).symm.trans hslot).symm hne
  owned p hp := by
    rw [h.blocks p] at hp
    cases hp
  misuse := h.misuse

/-- The same files, with the same descriptors for them. -/
theorem FilesOk.keep (h : FilesOk s) (hfs : t.fs = s.fs)
    (hblocks : ∀ p, SameBlock (s.blocks p) (t.blocks p)) (href : ∀ c, Referred t c ↔ Referred s c)
    (hmisuse : t.misuse = s.misuse) : FilesOk t where
  tree := by rw [hfs]; exact h.tree
  null := by
    have hnull := (hblocks NULL).isSome
    rw [h.null] at hnull
    exact Option.not_isSome_iff_eq_none.mp (by rw [hnull]; decide)
  files c hc := by
    obtain ⟨bs, hfile⟩ := h.files c ((href c).mp hc)
    exact ⟨bs, hfile.keep hfs fun p _ => hblocks p⟩
  owned p hp := by
    rw [(hblocks p).isSome] at hp
    obtain ⟨c, bs, hc, hfile, hmem⟩ := h.owned p hp
    exact ⟨c, bs, (href c).mpr hc, hfile.keep hfs fun p _ => hblocks p, hmem⟩
  misuse := hmisuse.trans h.misuse

/-- One more file, of new blocks. -/
structure NewFile (s t : OpenState) (c : Ptr) (bs : List Ptr) : Prop where
  fs : t.fs = s.fs
  fdTable : t.fdTable = s.fdTable
  currentProc : t.currentProc = s.currentProc
  misuse : t.misuse = s.misuse
  file : FileAt t c bs
  context : c ≠ NULL
  fresh : ∀ p ∈ bs, s.blocks p = none ∧ p ≠ NULL
  others : ∀ p ∉ bs, t.blocks p = s.blocks p

/-- A file with its descriptor. -/
theorem FilesOk.add {u : OpenState} (h : FilesOk s) (hnew : NewFile s t c bs) (hfs : u.fs = t.fs)
    (hblocks : u.blocks = t.blocks) (href : ∀ x, Referred u x ↔ Referred s x ∨ x = c)
    (hmisuse : u.misuse = t.misuse) : FilesOk u := by
  have hold : ∀ {x xs}, FileAt s x xs → FileAt u x xs := fun {x xs} hfile =>
    hfile.keep (hfs.trans hnew.fs) fun p hp => .inl <| by
      rw [hblocks]
      refine hnew.others p fun hmem => ?_
      have halive := hfile.alive p hp
      rw [(hnew.fresh p hmem).1] at halive
      cases halive
  have hfile : FileAt u c bs := hnew.file.keep hfs fun p _ => .inl (by rw [hblocks])
  constructor
  · rw [hfs, hnew.fs]
    exact h.tree
  · rw [hblocks, hnew.others NULL fun hmem => (hnew.fresh _ hmem).2 rfl]
    exact h.null
  · intro x hx
    rcases (href x).mp hx with hx | rfl
    · obtain ⟨xs, hxs⟩ := h.files x hx
      exact ⟨xs, hold hxs⟩
    · exact ⟨bs, hfile⟩
  · intro p hp
    by_cases hmem : p ∈ bs
    · exact ⟨c, bs, (href c).mpr (.inr rfl), hfile, hmem⟩
    · rw [hblocks, hnew.others p hmem] at hp
      obtain ⟨x, xs, hx, hxs, hpx⟩ := h.owned p hp
      exact ⟨x, xs, (href x).mpr (.inl hx), hold hxs, hpx⟩
  · rw [hmisuse, hnew.misuse]
    exact h.misuse

end Raincloud
