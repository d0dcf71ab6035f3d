import Raincloud.Syscall.FileLifetime

/-!
# Runs without a close

The calls of a run in which only the console and pipes are opened, and no file is closed. Reads,
writes and seeks use the blocks of open files only and leave them in use, an open adds those of
one file, and a process that is forked has the files of its parent.
-/

set_option linter.style.nameCheck false

namespace Raincloud

open Infra Program

variable {e : OpenEnv} {s t : OpenState} {c n o p : Ptr} {bs : List Ptr} {b : FileBlock}
  {allowed : OpenFault → Prop}

/-! ## Blocks -/

/-- The same files with the same descriptors. -/
structure Kept (s t : OpenState) : Prop where
  fs : t.fs = s.fs
  blocks : ∀ p, SameBlock (s.blocks p) (t.blocks p)
  fdTable : t.fdTable = s.fdTable
  misuse : t.misuse = s.misuse

theorem FilesOk.kept (h : FilesOk s) (hk : Kept s t) : FilesOk t :=
  h.keep hk.fs hk.blocks (fun c => by rw [Referred, Referred, hk.fdTable]) hk.misuse

section Pipe

variable {buf i j k a size : Nat}

variable (ho : o ≠ NULL) (hbuf : buf ≠ NULL) (hpipe : s.blocks o = some (.pipeContext buf i j k))
  (hbytes : (s.blocks buf).isSome) {calls : List (Ptr × Nat)}

include ho hbuf hpipe hbytes

end Pipe

/-- The node of an open file. -/
theorem NodeTree.ne_null {fs : FsState} (h : NodeTree fs) (hn : n ∈ fs.live) : n ≠ NULL :=
  fun h0 => h.null (h0 ▸ hn)

section File

variable (htree : NodeTree s.fs) (hc : c ≠ NULL) (hfile : FileAt s c bs) {a size : Nat}
  {offset whence : Int}

include htree hc hfile

end File

section Open

variable {path : List UInt8} {oflag : Int}

theorem NamesSpecial.live (hname : NamesSpecial s path n) (h : NodeTree s.fs) : n ∈ s.fs.live := by
  have hfound := findNode_eq (e := ⟨fun _ => NULL⟩) h path
  rw [hname.found, Except.ok.injEq, Prod.mk.injEq] at hfound
  rw [hfound.1]
  exact h.resolve_live h.root (hfound.1 ▸ hname.node)

end Open

/-! ## Runs -/

variable {a : OpenEnv × FileCall}

/-- How a call may stop without a misuse of the heap. -/
def Harmless (a : OpenEnv × FileCall) (err : OpenFault) : Prop :=
  err = .environment ∨ err = .halted ∨ (err = .nullPointer ∧ NoBuffer a)

/-- A new process has the descriptors of its parent. -/
theorem FilesOk.fork {child : Ptr} (h : FilesOk s) (hchild : ∀ i, s.fdTable child i = NULL) :
    FilesOk (forkTable child s) := by
  have hself : (forkTable child s).fdTable child = s.fdTable s.currentProc :=
    Function.update_self ..
  have hother : ∀ proc, proc ≠ child → (forkTable child s).fdTable proc = s.fdTable proc :=
    fun proc hne => Function.update_of_ne hne ..
  refine h.keep rfl (fun _ => .inl rfl) (fun c => ?_) rfl
  constructor
  · rintro ⟨hc, proc, i, hi, hslot⟩
    by_cases hproc : proc = child
    · rw [hproc, hself] at hslot
      exact ⟨hc, s.currentProc, i, hi, hslot⟩
    · rw [hother proc hproc] at hslot
      exact ⟨hc, proc, i, hi, hslot⟩
  · rintro ⟨hc, proc, i, hi, hslot⟩
    have hproc : proc ≠ child := fun he => hc (hslot.symm.trans (he ▸ hchild i))
    exact ⟨hc, proc, i, hi, by rw [hother proc hproc, hslot]⟩

end Raincloud
