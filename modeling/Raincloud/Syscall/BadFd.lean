import Raincloud.Syscall.OpenFiles

/-!
# Bad descriptors

A call with a descriptor outside the table halts the kernel. Inside the table the slot decides,
and `sys_close` does not clear it: of the descriptors that are not open only those are refused
that the process never had.
-/

set_option linter.style.nameCheck false

namespace Raincloud

open Infra Infra.Frame

variable {e : OpenEnv} {s s' : OpenState} {p c n o : Ptr} {b : FileBlock} {α : Type}
  {path : List UInt8} {oflag fd : Int}

/-! ## What opening and closing leaves alone -/

/-- The node has an open hook. -/
def HasOpen (s : OpenState) (n : Ptr) : Prop := (s.fs.nodes n).hook fileHookIndexOpen ≠ none

/-- The nodes and the descriptors stay; a new context is that of a node with an open hook. -/
structure KeepsFiles (s s' : OpenState) : Prop where
  fs : s'.fs = s.fs
  fdTable : s'.fdTable = s.fdTable
  currentProc : s'.currentProc = s.currentProc
  calls : s.calls.length ≤ s'.calls.length
  contexts : ∀ p n o, s'.blocks p = some (.fsContext n o) →
    s.blocks p = some (.fsContext n o) ∨ (n ≠ NULL → HasOpen s n)

def keepsFiles : Frame OpenState where
  rel := KeepsFiles
  refl _ := ⟨rfl, rfl, rfl, Nat.le_refl _, fun _ _ _ => .inl⟩
  trans h1 h2 := by
    refine ⟨h2.fs.trans h1.fs, h2.fdTable.trans h1.fdTable, h2.currentProc.trans h1.currentProc,
      h1.calls.trans h2.calls, fun p n o hb => ?_⟩
    rcases h2.contexts p n o hb with h | h
    · exact h1.contexts p n o h
    · refine .inr fun hne => ?_
      have hopen := h hne
      rw [HasOpen, h1.fs] at hopen
      exact hopen

/-- No context of a node. -/
def NoContext (b : FileBlock) : Prop := ∀ n o, b = .fsContext n o → n = NULL

/-- A block set to something that is no context of a node without an open hook. -/
theorem KeepsFiles.setBlock {b : Option FileBlock}
    (hb : ∀ n o, b = some (.fsContext n o) → n ≠ NULL → HasOpen s n) :
    KeepsFiles s (s.setBlock p b) := by
  refine ⟨rfl, rfl, rfl, Nat.le_refl _, fun q n o hq => ?_⟩
  have hq' : (if q = p then b else s.blocks q) = some (.fsContext n o) :=
    (Function.update_apply s.blocks p b q).symm.trans hq
  split at hq'
  · exact .inr (hb n o hq')
  · exact .inl hq'

theorem keepsFiles_mallocFileBlock (h : NoContext b) : keepsFiles.Keeps (mallocFileBlock b) := by
  intro e s p s' hrun
  rcases mallocFileBlock_ok hrun with ⟨-, rfl⟩ | ⟨-, -, rfl⟩
  · exact keepsFiles.refl _
  · exact .setBlock fun n o hb hne => absurd (h n o (Option.some.inj hb)) hne

theorem keepsFiles_writeBlock (h : NoContext b) : keepsFiles.Keeps (writeBlock p b) := by
  intro e s u s' hrun
  obtain ⟨-, -, rfl⟩ := writeBlock_ok hrun
  exact .setBlock fun n o hb hne => absurd (h n o (Option.some.inj hb)) hne

theorem keepsFiles_freeBlock (p : Ptr) : keepsFiles.Keeps (freeBlock p) := by
  intro e s u s' hrun
  obtain ⟨-, rfl | rfl⟩ := freeBlock_ok hrun
  · exact .setBlock fun n o hb => by cases hb
  · exact ⟨rfl, rfl, rfl, Nat.le_refl _, fun _ _ _ => .inl⟩

theorem keepsFiles_readBlock (p : Ptr) : keepsFiles.Keeps (readBlock p) := by
  intro e s b s' hrun
  obtain ⟨-, -, rfl⟩ := readBlock_ok hrun
  exact keepsFiles.refl _

theorem keepsFiles_onFat (x : Except FatFault α) : keepsFiles.Keeps (onFat x) := by
  intro e s a s' hrun
  unfold onFat at hrun
  split at hrun
  · cases hrun
    exact keepsFiles.refl _
  · cases hrun

theorem keepsFiles_mallocBytes (size : Nat) : keepsFiles.Keeps (mallocBytes size) := by
  unfold mallocBytes
  split
  · exact keeps_pure _
  · exact keepsFiles_mallocFileBlock fun _ _ h => by cases h

theorem keepsFiles_report (m : Misuse) : keepsFiles.Keeps (Program.modify (.report m) : OpenM Unit) :=
  keeps_modify fun _ => ⟨rfl, rfl, rfl, Nat.le_refl _, fun _ _ _ => .inl⟩

theorem keepsFiles_setMem (mem : Mem) : keepsFiles.Keeps (setMem mem) :=
  keeps_modify fun _ => ⟨rfl, rfl, rfl, Nat.le_refl _, fun _ _ _ => .inl⟩

theorem keepsFiles_callHook (node : Ptr) (i : Nat) : keepsFiles.Keeps (callHook node i) :=
  keeps_modify fun _ => ⟨rfl, rfl, rfl, Nat.le_succ _, fun _ _ _ => .inl⟩

/-! ### The hooks -/

theorem keepsFiles_openPipe : keepsFiles.Keeps openPipe :=
  keeps_bind (keepsFiles_mallocFileBlock fun _ _ h => by cases h) fun _ =>
    keeps_bind (keepsFiles_mallocFileBlock fun _ _ h => by cases h) fun _ =>
    keeps_bind (keepsFiles_writeBlock fun _ _ h => by cases h) fun _ => keeps_pure _

theorem keepsFiles_closePipe (context : Ptr) : keepsFiles.Keeps (closePipe context) := by
  refine keeps_bind (keepsFiles_readBlock _) fun b => ?_
  cases b with
  | pipeContext =>
    exact keeps_bind (keepsFiles_freeBlock _) fun _ =>
      keeps_bind (keepsFiles_freeBlock _) fun _ => keeps_ask _
  | _ => exact keeps_fault _

theorem keepsFiles_initFatfs (fs : Ptr) : keepsFiles.Keeps (initFatfs fs) := by
  refine keeps_bind (keeps_check _ _) fun _ =>
    keeps_bind (keepsFiles_mallocFileBlock fun _ _ h => by cases h) fun _ =>
    keeps_bind (keeps_check _ _) fun _ => keeps_bind (keeps_ask _) fun volume => ?_
  cases volume with
  | some => exact keeps_bind (keepsFiles_writeBlock fun _ _ h => by cases h) fun _ => keeps_pure _
  | none => exact keeps_fault _

theorem keepsFiles_destroyFatfs (fs : Ptr) : keepsFiles.Keeps (destroyFatfs fs) := by
  refine keeps_bind (keepsFiles_readBlock _) fun b => ?_
  cases b with
  | fatfs bpb =>
    dsimp only
    split
    · exact keepsFiles_freeBlock _
    · exact keeps_pure _
  | _ => exact keeps_fault _

theorem keepsFiles_failFatOpen (context fs file : Ptr) :
    keepsFiles.Keeps (failFatOpen context fs file) :=
  keeps_bind (keepsFiles_destroyFatfs _) fun _ => keeps_bind (keepsFiles_freeBlock _) fun _ =>
    keeps_bind (keepsFiles_freeBlock _) fun _ => keeps_bind (keepsFiles_report _) fun _ =>
    keeps_bind (keepsFiles_freeBlock _) fun _ => keeps_pure _

theorem keepsFiles_searchFat (volume : FATFS) (realPath : List UInt8) :
    keepsFiles.Keeps (searchFat volume realPath) :=
  keeps_bind (keepsFiles_mallocFileBlock fun _ _ h => by cases h) fun _ =>
    keeps_bind (keeps_check _ _) fun _ => keeps_bind (keeps_ask _) fun _ => keepsFiles_onFat _

theorem keepsFiles_loadFat (volume : FATFS) (file : FATFile) :
    keepsFiles.Keeps (loadFat volume file) :=
  keeps_bind (keeps_ask _) fun _ => keeps_bind (keepsFiles_onFat _) fun _ =>
    keeps_bind (keepsFiles_mallocBytes _) fun _ => keeps_bind (keeps_check _ _) fun _ =>
    keeps_bind (keeps_gets _) fun _ => keeps_bind (keeps_ask _) fun _ =>
    keeps_bind (keepsFiles_onFat _) fun (_, _) => keeps_bind (keepsFiles_setMem _) fun _ =>
    keeps_pure _

theorem keepsFiles_openFat (node : Ptr) (path : List UInt8) (oflag : Int) :
    keepsFiles.Keeps (openFat node path oflag) := by
  refine keeps_bind (keepsFiles_mallocFileBlock fun _ _ h => by cases h) fun context =>
    keeps_bind (keepsFiles_mallocFileBlock fun _ _ h => by cases h) fun fs =>
    keeps_bind (keepsFiles_writeBlock fun _ _ h => by cases h) fun _ =>
    keeps_bind (keepsFiles_initFatfs _) fun (volume, _) => keeps_bind (keeps_gets _) fun name => ?_
  dsimp only
  cases realPath name path with
  | none => exact keeps_fault _
  | some real =>
    refine keeps_bind (keepsFiles_mallocFileBlock fun _ _ h => by cases h) fun file =>
      keeps_bind (keepsFiles_searchFat _ _) fun found => ?_
    cases found with
    | none => exact keepsFiles_failFatOpen _ _ _
    | some found =>
      refine keeps_bind (keepsFiles_writeBlock fun _ _ h => by cases h) fun _ =>
        keeps_bind (keepsFiles_loadFat _ _) fun (buf, bufsize, ret) => ?_
      dsimp only
      split
      · exact keepsFiles_failFatOpen _ _ _
      · exact keeps_bind (keepsFiles_writeBlock fun _ _ h => by cases h) fun _ => keeps_pure _

theorem keepsFiles_closeFat (context : Ptr) : keepsFiles.Keeps (closeFat context) := by
  refine keeps_bind (keepsFiles_readBlock _) fun b => ?_
  cases b with
  | fatContext =>
    exact keeps_bind (keepsFiles_destroyFatfs _) fun _ =>
      keeps_bind (keepsFiles_freeBlock _) fun _ => keeps_bind (keepsFiles_freeBlock _) fun _ =>
      keeps_bind (keepsFiles_freeBlock _) fun _ => keeps_pure _
  | _ => exact keeps_fault _

theorem keepsFiles_closeHook (hook : Hook) (opened : Ptr) :
    keepsFiles.Keeps (closeHook hook opened) := by
  cases hook with
  | stdioClose => exact keeps_pure _
  | fatClose => exact keepsFiles_closeFat _
  | pipeClose => exact keepsFiles_closePipe _
  | _ => exact keeps_fault _

/-! ### The tree -/

/-- Looking for a node changes none. -/
def sameNodes : Frame FsState where
  rel s s' := s' = s
  refl _ := rfl
  trans h1 h2 := h2.trans h1

theorem sameNodes_findChildFrom (dirName : List UInt8) (node : Ptr) : ∀ fuel it,
    sameNodes.Keeps (findChildFrom dirName node fuel it)
  | 0, _ => keeps_fault _
  | fuel + 1, it => by
    rw [findChildFrom]
    split
    · exact keeps_pure _
    · cases it.node? with
      | none => exact keeps_fault _
      | some entry =>
        refine keeps_bind (keeps_gets _) fun _ => keeps_bind (keeps_check _ _) fun _ =>
          keeps_bind (keeps_gets _) fun _ => ?_
        split
        · exact keeps_pure _
        · exact keeps_bind (keeps_gets _) fun _ => sameNodes_findChildFrom dirName node fuel _

theorem sameNodes_findStep (dirName : List UInt8) (node : Ptr) :
    sameNodes.Keeps (findStep dirName node) := by
  refine keeps_bind (keeps_gets _) fun _ => keeps_bind (keeps_check _ _) fun _ =>
    keeps_bind (keeps_gets _) fun _ => keeps_bind (sameNodes_findChildFrom _ _ _ _) fun _ =>
    keeps_bind (keeps_gets _) fun _ => ?_
  split
  · refine keeps_bind (keeps_gets _) fun _ => ?_
    split <;> exact keeps_pure _
  · exact keeps_pure _

theorem sameNodes_findNodeEnd : ∀ fuel save node, sameNodes.Keeps (findNodeEnd fuel save node)
  | 0, _, _ => keeps_fault _
  | fuel + 1, save, node => by
    rw [findNodeEnd]
    cases strtokR save [slash] with
    | none => exact keeps_pure _
    | some token =>
      refine keeps_bind (sameNodes_findStep _ _) fun step => ?_
      cases step with
      | inl next => exact sameNodes_findNodeEnd fuel _ next
      | inr result => exact keeps_pure _

theorem keepsFiles_onNodes {x : Fs α} (h : sameNodes.Keeps x) : keepsFiles.Keeps (onNodes x) := by
  intro e s a s' hrun
  obtain ⟨fs, hx, rfl⟩ := onNodes_ok hrun
  obtain rfl : fs = s.fs := h _ _ _ _ hx
  exact keepsFiles.refl _

theorem keepsFiles_findNodeOpen (path : List UInt8) : keepsFiles.Keeps (findNodeOpen path) := by
  refine keeps_bind (keepsFiles_mallocFileBlock fun _ _ h => by cases h) fun _ =>
    keeps_bind (keeps_check _ _) fun _ => keeps_bind (keepsFiles_onNodes ?_) fun (_, ended) => ?_
  · exact keeps_bind (keeps_gets _) fun _ => keeps_bind (keeps_gets _) fun _ =>
      keeps_bind (keeps_check _ _) fun _ => sameNodes_findNodeEnd _ _ _
  · dsimp only
    split
    · exact keeps_bind (keepsFiles_freeBlock _) fun _ => keeps_pure _
    · exact keeps_pure _

/-! ## The wrappers -/

theorem hookOf_bind_ok {i : Nat} {f : Option Hook → OpenM α} {a : α}
    (hrun : (hookOf n i >>= f) e s = .ok (a, s')) :
    n ≠ NULL ∧ f ((s.fs.nodes n).hook i) e s = .ok (a, s') := by
  obtain ⟨hook, s₁, hhook, hrun⟩ := Program.bind_ok.mp hrun
  obtain ⟨hne, hhook⟩ := Program.check_bind_ok.mp hhook
  rw [Program.bind_of_ok Program.gets_apply] at hhook
  obtain ⟨-, hhook⟩ := Program.check_bind_ok.mp hhook
  cases hhook
  exact ⟨hne, hrun⟩

theorem openHook_ok (hrun : openHook n path oflag e s = .ok (o, s')) :
    HasOpen s n ∧ KeepsFiles s s' := by
  obtain ⟨-, hrun⟩ := hookOf_bind_ok hrun
  obtain ⟨_, s₁, hcall, hrun⟩ := Program.bind_ok.mp hrun
  have hkeep := keepsFiles_callHook n fileHookIndexOpen _ _ _ _ hcall
  unfold HasOpen
  cases hhook : (s.fs.nodes n).hook fileHookIndexOpen with
  | none =>
    rw [hhook] at hrun
    cases hrun
  | some hook =>
    rw [hhook] at hrun
    refine ⟨by simp, keepsFiles.trans hkeep ?_⟩
    cases hook with
    | stdioOpen =>
      cases hrun
      exact keepsFiles.refl _
    | fatOpen => exact keepsFiles_openFat _ _ _ _ _ _ _ hrun
    | pipeOpen => exact keepsFiles_openPipe _ _ _ _ hrun
    | _ => cases hrun

theorem fsOpen_ok (hrun : fsOpen path oflag e s = .ok (c, s')) : c ≠ NULL ∧ KeepsFiles s s' := by
  refine ⟨(fsOpen_leaves hrun).1, ?_⟩
  obtain ⟨context, s₁, hmalloc, hrun⟩ := Program.bind_ok.mp hrun
  have h₁ : KeepsFiles s s₁ :=
    keepsFiles_mallocFileBlock (fun _ _ h => by cases h; rfl) _ _ _ _ hmalloc
  obtain ⟨node, s₂, hnode, hrun⟩ := Program.bind_ok.mp hrun
  have h₂ := keepsFiles.trans h₁ (keepsFiles_findNodeOpen _ _ _ _ _ hnode)
  obtain ⟨opened, s₃, hopen, hrun⟩ := Program.bind_ok.mp hrun
  obtain ⟨hhas, hopen⟩ := openHook_ok hopen
  have h₃ := keepsFiles.trans h₂ hopen
  obtain ⟨_, s₄, hwrite, hrun⟩ := Program.bind_ok.mp hrun
  obtain ⟨-, -, rfl⟩ := writeBlock_ok hwrite
  cases hrun
  refine keepsFiles.trans h₃ (.setBlock fun n o hb _ => ?_)
  cases hb
  rw [HasOpen, hopen.fs]
  exact hhas

/-- A close of a context calls the close hook of its node, if there is one. -/
theorem fsClose_ok {ret : Int} (hrun : fsClose p e s = .ok (ret, s')) :
    KeepsFiles s s' ∧ ∃ n o, s.blocks p = some (.fsContext n o) ∧ n ≠ NULL ∧
      ((s.fs.nodes n).hook fileHookIndexClose ≠ none → s.calls.length < s'.calls.length) := by
  obtain ⟨⟨node, opened⟩, s₁, hread, hrun⟩ := Program.bind_ok.mp hrun
  obtain ⟨-, b, hb, hread⟩ := readBlock_bind_ok.mp hread
  cases b with
  | fsContext =>
    cases hread
    obtain ⟨hne, hrun⟩ := hookOf_bind_ok hrun
    cases hhook : (s.fs.nodes node).hook fileHookIndexClose with
    | none =>
      rw [hhook] at hrun
      cases hrun
      exact ⟨keepsFiles.refl _, node, opened, hb, hne, fun h => absurd hhook h⟩
    | some hook =>
      rw [hhook] at hrun
      obtain ⟨_, s₃, hcall, hrun⟩ := Program.bind_ok.mp hrun
      have h₃ := keepsFiles_callHook _ _ _ _ _ _ hcall
      cases hcall
      obtain ⟨_, s₄, hclose, hrun⟩ := Program.bind_ok.mp hrun
      have h₄ := keepsFiles_closeHook _ _ _ _ _ _ hclose
      obtain ⟨_, s₅, hfree, hrun⟩ := Program.bind_ok.mp hrun
      have h₅ := keepsFiles_freeBlock _ _ _ _ _ hfree
      cases hrun
      have hcalls := h₄.calls.trans h₅.calls
      exact ⟨keepsFiles.trans h₃ (keepsFiles.trans h₄ h₅), node, opened, hb, hne,
        fun _ => Nat.lt_of_succ_le hcalls⟩
  | _ => cases hread

/-! ## Descriptors -/

theorem fdAllocFrom_ok {ptr : Ptr} {k i : Nat} (hrun : fdAllocFrom ptr k i e s = .ok (fd, s')) :
    (fd = -1 ∧ s' = s) ∨ ∃ j < i + k, fd = j ∧ s.fdTable s.currentProc j = NULL ∧
      s' = s.setSlot j ptr := by
  induction k generalizing i with
  | zero =>
    cases hrun
    exact .inl ⟨rfl, rfl⟩
  | succ k ih =>
    rw [fdAllocFrom, Program.bind_of_ok Program.gets_apply] at hrun
    split at hrun
    · next hnull =>
      cases hrun
      exact .inr ⟨i, by omega, rfl, hnull, rfl⟩
    · rcases ih hrun with h | ⟨j, hj, h⟩
      · exact .inl h
      · exact .inr ⟨j, by omega, h⟩

/-- The pointer in the slot of a descriptor. -/
def slotOf (s : OpenState) (i : Nat) : Ptr := s.fdTable s.currentProc i

/-- `sys_open` fills a slot that is empty, or none. -/
theorem sysOpen_ok (hrun : sysOpen path oflag e s = .ok (fd, s')) :
    s'.fs = s.fs ∧ (∀ p n o, s'.blocks p = some (.fsContext n o) →
      s.blocks p = some (.fsContext n o) ∨ (n ≠ NULL → HasOpen s n)) ∧
    ((fd = -1 ∧ ∀ i, slotOf s' i = slotOf s i) ∨
      ∃ j < fdTableSize, fd = j ∧ ∃ c ≠ NULL, ∀ i, slotOf s' i = if i = j then c else slotOf s i) := by
  obtain ⟨c, s₁, hopen, hrun⟩ := Program.bind_ok.mp hrun
  obtain ⟨hne, h₁⟩ := fsOpen_ok hopen
  have hslot : ∀ i, slotOf s₁ i = slotOf s i := fun i => by
    rw [slotOf, slotOf, h₁.fdTable, h₁.currentProc]
  rw [if_neg hne] at hrun
  obtain ⟨-, hrun⟩ := Program.check_bind_ok.mp hrun
  rcases fdAllocFrom_ok hrun with ⟨hfd, rfl⟩ | ⟨j, hj, hfd, -, rfl⟩
  · exact ⟨h₁.fs, h₁.contexts, .inl ⟨hfd, hslot⟩⟩
  · refine ⟨h₁.fs, h₁.contexts, .inr ⟨j, by omega, hfd, c, hne, fun i => ?_⟩⟩
    rw [← hslot i]
    show Function.update s₁.fdTable s₁.currentProc _ s₁.currentProc i = _
    rw [Function.update_self]
    exact Function.update_apply ..

/-- A call on a slot that is not empty goes to the file behind it. -/
theorem onFd_ok {call : Ptr → OpenM Int} {ret : Int} (hrun : onFd fd call e s = .ok (ret, s')) :
    (0 ≤ fd ∧ fd < fdTableSize) ∧ ((slotOf s fd.toNat = NULL ∧ ret = -1 ∧ s' = s) ∨
      (slotOf s fd.toNat ≠ NULL ∧ call (slotOf s fd.toNat) e s = .ok (ret, s'))) := by
  obtain ⟨ptr, s₁, hget, hrun⟩ := Program.bind_ok.mp hrun
  obtain ⟨hrange, hget⟩ := Program.check_bind_ok.mp hget
  cases hget
  refine ⟨hrange, ?_⟩
  split at hrun
  · next hnull =>
    cases hrun
    exact .inl ⟨hnull, rfl, rfl⟩
  · next hne => exact .inr ⟨hne, hrun⟩

theorem onFd_empty {call : Ptr → OpenM Int} (hrange : 0 ≤ fd ∧ fd < fdTableSize)
    (hslot : slotOf s fd.toNat = NULL) : onFd fd call e s = .ok (-1, s) := by
  have hget : getFdPtr fd e s = .ok (NULL, s) := by
    rw [getFdPtr, Program.bind_of_ok (Program.check_of hrange), ← hslot]
    rfl
  rw [onFd, Program.bind_of_ok hget, if_pos rfl]
  rfl

/-! ## Runs of `sys_open` and `sys_close` -/

/-- A process, the descriptors it was given, and those of them whose file is open. -/
structure Descriptors where
  state : OpenState
  opened : List Int
  current : List Int

inductive FdCall where
  | sysOpen (path : List UInt8) (oflag : Int)
  | sysClose (fd : Int)

/-- Contexts of nodes with an open hook, each of which has a close hook. -/
structure HookedFiles (s : OpenState) : Prop where
  close : ∀ n, HasOpen s n → (s.fs.nodes n).hook fileHookIndexClose ≠ none
  contexts : ∀ p n o, s.blocks p = some (.fsContext n o) → n ≠ NULL → HasOpen s n

/-- The slots that are not empty are those of the descriptors. -/
structure SlotsOpened (s : OpenState) (opened : List Int) : Prop where
  range : ∀ fd ∈ opened, 0 ≤ fd ∧ fd < fdTableSize
  slots : ∀ i < fdTableSize, slotOf s i ≠ NULL ↔ (i : Int) ∈ opened

/--
Runs from a process whose files are all open. A close that returns has closed the file if it
called the close hook.
-/
def fdMachine (e : OpenEnv) : Machine Descriptors FdCall where
  start d := d.current = d.opened ∧ HookedFiles d.state ∧ SlotsOpened d.state d.opened
  step d call d' :=
    match call with
    | .sysOpen path oflag => ∃ fd s', sysOpen path oflag e d.state = .ok (fd, s') ∧
      d' = if fd = -1 then ⟨s', d.opened, d.current⟩ else ⟨s', fd :: d.opened, fd :: d.current⟩
    | .sysClose fd => ∃ ret s', sysClose fd e d.state = .ok (ret, s') ∧
      d' = ⟨s', d.opened, if s'.calls = d.state.calls then d.current else d.current.erase fd⟩

theorem HookedFiles.keep (h : HookedFiles s) (hfs : s'.fs = s.fs)
    (hc : ∀ p n o, s'.blocks p = some (.fsContext n o) →
      s.blocks p = some (.fsContext n o) ∨ (n ≠ NULL → HasOpen s n)) : HookedFiles s' := by
  constructor
  · unfold HasOpen
    rw [hfs]
    exact h.close
  · intro p n o hb hne
    unfold HasOpen
    rw [hfs]
    rcases hc p n o hb with hb | hopen
    · exact h.contexts p n o hb hne
    · exact hopen hne

theorem SlotsOpened.keep {opened : List Int} (h : SlotsOpened s opened)
    (hslot : ∀ i, slotOf s' i = slotOf s i) : SlotsOpened s' opened :=
  ⟨h.range, fun i hi => by rw [hslot]; exact h.slots i hi⟩

theorem SlotsOpened.fill {opened : List Int} {j : Nat} (h : SlotsOpened s opened)
    (hj : j < fdTableSize) (hc : c ≠ NULL)
    (hslot : ∀ i, slotOf s' i = if i = j then c else slotOf s i) :
    SlotsOpened s' ((j : Int) :: opened) := by
  constructor
  · intro fd hfd
    rcases List.mem_cons.mp hfd with rfl | hfd
    · exact ⟨Int.natCast_nonneg j, Int.ofNat_lt.mpr hj⟩
    · exact h.range fd hfd
  · intro i hi
    rw [hslot, List.mem_cons, Int.natCast_inj]
    by_cases hij : i = j
    · simp [hij, hc]
    · rw [if_neg hij, h.slots i hi]
      simp [hij]

theorem sysClose_keeps {ret : Int} (hrun : sysClose fd e s = .ok (ret, s')) : KeepsFiles s s' := by
  obtain ⟨-, ⟨-, -, rfl⟩ | ⟨-, hclose⟩⟩ := onFd_ok hrun
  · exact keepsFiles.refl _
  · exact (fsClose_ok hclose).1

/-- In every reachable state. -/
theorem fdMachine_invariant {d : Descriptors} (h : (fdMachine e).Reachable d) :
    HookedFiles d.state ∧ SlotsOpened d.state d.opened := by
  refine h.invariant _ (fun d hd => hd.2) fun d call d' hinv hstep => ?_
  obtain ⟨hhooked, hslots⟩ := hinv
  cases call with
  | sysOpen path oflag =>
    obtain ⟨fd, s', hrun, rfl⟩ := hstep
    obtain ⟨hfs, hcontexts, hfd⟩ := sysOpen_ok hrun
    have hhooked' := hhooked.keep hfs hcontexts
    rcases hfd with ⟨rfl, hslot⟩ | ⟨j, hj, rfl, c, hc, hslot⟩
    · rw [if_pos rfl]
      exact ⟨hhooked', hslots.keep hslot⟩
    · rw [if_neg (by omega)]
      exact ⟨hhooked', hslots.fill hj hc hslot⟩
  | sysClose fd =>
    obtain ⟨ret, s', hrun, rfl⟩ := hstep
    have hkeep := sysClose_keeps hrun
    refine ⟨hhooked.keep hkeep.fs hkeep.contexts, hslots.keep fun i => ?_⟩
    show s'.fdTable s'.currentProc i = _
    rw [hkeep.fdTable, hkeep.currentProc]
    rfl

/-! ## Refusal -/

/-- All four calls return -1, call no hook and change nothing. -/
structure Rejected (e : OpenEnv) (s : OpenState) (fd : Int) : Prop where
  read : ∀ buf count, sysRead fd buf count e s = .ok (-1, s)
  write : ∀ buf count, sysWrite fd buf count e s = .ok (-1, s)
  lseek : ∀ offset whence, sysLseek fd offset whence e s = .ok (-1, s)
  close : sysClose fd e s = .ok (-1, s)

theorem rejected_of_empty (hrange : 0 ≤ fd ∧ fd < fdTableSize) (hslot : slotOf s fd.toNat = NULL) :
    Rejected e s fd :=
  ⟨fun _ _ => onFd_empty hrange hslot, fun _ _ => onFd_empty hrange hslot,
    fun _ _ => onFd_empty hrange hslot, onFd_empty hrange hslot⟩

/-- A close that is refused finds an empty slot: a context has a close hook to call. -/
theorem Rejected.empty (h : Rejected e s fd) (hs : HookedFiles s) :
    (0 ≤ fd ∧ fd < fdTableSize) ∧ slotOf s fd.toNat = NULL := by
  obtain ⟨hrange, ⟨hslot, -⟩ | ⟨-, hclose⟩⟩ := onFd_ok h.close
  · exact ⟨hrange, hslot⟩
  · obtain ⟨-, n, o, hb, hne, hcalls⟩ := fsClose_ok hclose
    have hhook := hs.close n (hs.contexts _ n o hb hne)
    exact absurd (hcalls hhook) (Nat.lt_irrefl _)

/-- What happens to a descriptor in a reachable state, whether its file is open or not. -/
theorem rejected_iff {d : Descriptors} (h : (fdMachine e).Reachable d) :
    Rejected e d.state fd ↔ (0 ≤ fd ∧ fd < fdTableSize) ∧ fd ∉ d.opened := by
  obtain ⟨hhooked, hslots⟩ := fdMachine_invariant h
  have hslot : (0 ≤ fd ∧ fd < fdTableSize) →
      (slotOf d.state fd.toNat = NULL ↔ fd ∉ d.opened) := fun hrange => by
    have hiff := hslots.slots fd.toNat (by omega)
    rw [Int.toNat_of_nonneg hrange.1] at hiff
    rw [← hiff, not_not]
  constructor
  · intro hrej
    obtain ⟨hrange, hnull⟩ := hrej.empty hhooked
    exact ⟨hrange, (hslot hrange).mp hnull⟩
  · rintro ⟨hrange, hnot⟩
    exact rejected_of_empty hrange ((hslot hrange).mpr hnot)

/-- The calls refuse the descriptor, unless its file is open. -/
def RefusesBad (e : OpenEnv) (d : Descriptors) (fd : Int) : Prop :=
  fd ∉ d.current → Rejected e d.state fd

/--
In every state that a run of `sys_open` and `sys_close` reaches, a descriptor whose file is not
open is refused if and only if it is one of the table that `sys_open` never returned.
-/
theorem refusesBad_iff {d : Descriptors} (h : (fdMachine e).Reachable d) :
    RefusesBad e d fd ↔ fd ∈ d.current ∨ (0 ≤ fd ∧ fd < fdTableSize) ∧ fd ∉ d.opened := by
  rw [RefusesBad, rejected_iff h]
  exact ⟨fun hbad => or_iff_not_imp_left.mpr hbad, fun hor hfd => hor.resolve_left hfd⟩

/-! ## A pipe -/

/-- The root and a pipe. -/
def pipeTree : FsState where
  next
    | .children 1 => .list 2
    | .list 2 => .children 1
    | r => r
  prev
    | .children 1 => .list 2
    | .list 2 => .children 1
    | r => r
  nodes
    | 1 => ⟨[slash], fileTypeRoot, NULL, fun _ => none⟩
    | _ => ⟨ascii "pipe", fileTypeSpecial, 1, fun
      | 0 => some .pipeOpen
      | 1 => some .pipeClose
      | 2 => some .pipeRead
      | 3 => some .pipeWrite
      | _ => none⟩
  live := [1, 2]
  root := 1

theorem noFiles_start : (fdMachine e).Reachable ⟨noFiles pipeTree, [], []⟩ := by
  refine .start ⟨rfl, ⟨fun n hn => ?_, fun p n o hb => by cases hb⟩, ⟨by simp, fun i _ => ?_⟩⟩
  · show (pipeTree.nodes n).hook fileHookIndexClose ≠ none
    have hopen : (pipeTree.nodes n).hook fileHookIndexOpen ≠ none := hn
    by_cases h1 : n = 1
    · rw [h1] at hopen
      exact absurd rfl hopen
    · have hnode : pipeTree.nodes n = pipeTree.nodes 2 := by
        show (match n with | 1 => _ | _ => _) = _
        split
        · exact absurd rfl h1
        · rfl
      rw [hnode]
      decide
  · simp [slotOf, noFiles]

/-- Before any open, 5 is refused. -/
theorem refusesBad_five : RefusesBad volumeEnv ⟨noFiles pipeTree, [], []⟩ 5 :=
  (refusesBad_iff noFiles_start).mpr (.inr ⟨by decide, by decide⟩)

/-- The close of a pipe calls its hook. -/
def closesPipe (r : Except OpenFault (Int × OpenState)) : Bool :=
  match r with
  | .ok (fd, s) =>
    match sysClose fd volumeEnv s with
    | .ok (_, s') => fd == 0 && s'.calls != s.calls
    | .error _ => false
  | .error _ => false

/-- A pipe opened and closed: its descriptor is taken as one of an open file. -/
theorem closed_fd_accepted : ∃ d, (fdMachine volumeEnv).Reachable d ∧ 0 ∉ d.current ∧
    ¬RefusesBad volumeEnv d 0 := by
  have hcloses : closesPipe (sysOpen (ascii "/pipe") 0 volumeEnv (noFiles pipeTree)) = true := by
    decide +kernel
  cases hopen : sysOpen (ascii "/pipe") 0 volumeEnv (noFiles pipeTree) with
  | error err =>
    rw [hopen] at hcloses
    cases hcloses
  | ok r =>
    obtain ⟨fd, s⟩ := r
    rw [hopen] at hcloses
    unfold closesPipe at hcloses
    dsimp only at hcloses
    cases hclose : sysClose fd volumeEnv s with
    | error err =>
      rw [hclose] at hcloses
      cases hcloses
    | ok r =>
      obtain ⟨ret, s'⟩ := r
      rw [hclose] at hcloses
      obtain ⟨hfd, hcalls⟩ := Bool.and_eq_true_iff.mp hcloses
      obtain rfl : fd = 0 := eq_of_beq hfd
      have hcalls : s'.calls ≠ s.calls := by simpa using hcalls
      have hopened : (fdMachine volumeEnv).Reachable ⟨s, [0], [0]⟩ :=
        noFiles_start.step (a := .sysOpen (ascii "/pipe") 0) ⟨0, s, hopen, rfl⟩
      have hclosed : (fdMachine volumeEnv).Reachable ⟨s', [0], []⟩ :=
        hopened.step (a := .sysClose 0) ⟨ret, s', hclose, by rw [if_neg hcalls]; rfl⟩
      refine ⟨_, hclosed, List.not_mem_nil, fun hbad => ?_⟩
      exact ((rejected_iff hclosed).mp (hbad List.not_mem_nil)).2 List.mem_cons_self

end Raincloud
