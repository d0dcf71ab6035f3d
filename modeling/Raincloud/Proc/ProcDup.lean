import Raincloud.Mm.MapDup
import Raincloud.Proc.Making

/-!
# `proc_dup`

The strings of a process are copied to blocks of their own, its files are shared and its map is
duplicated. The number of the arguments is not copied: the new `pargs_t` has the strings of the
old one and says that there are none.
-/

set_option linter.style.nameCheck false

namespace Raincloud

open Infra Infra.LinkStore Infra.Frame Kernel

variable {e : Env} {s₀ s s' : KernelState} {a b v new old : Ptr} {ns qs : List Ptr} {u : Unit}
  {i n : Nat} {Owns : Mem → Set Nat → Prop} {F : Set Nat}

/-! ## What is copied -/

/-- `proc->args`, what it says and its strings. -/
def pargsOf (s : KernelState) (p : Ptr) : Pargs := s.pargs (s.procs p).args

/-- The block of `argv[i]`. -/
def argOf (s : KernelState) (p : Ptr) (i : Nat) : Ptr := s.argv (pargsOf s p).argv i

/-- The block of `pwd`. -/
def pwdOf (s : KernelState) (p : Ptr) : Ptr := s.pwd (s.procs p).envs

/-- The number of arguments as the loop counts it. -/
def argcOf (s : KernelState) (p : Ptr) : Nat := (pargsOf s p).argc.toNat

/-- A process with all that it has in blocks that are in use, and its children. -/
structure ProcBlocks (s : KernelState) (old : Ptr) (ns qs : List Ptr) : Prop where
  heap : s.HeapOk
  argc : 0 ≤ (pargsOf s old).argc
  args : (s.procs old).args ∈ s.live ∧ (s.procs old).envs ∈ s.live ∧ pwdOf s old ∈ s.live
  argv : ∀ i < argcOf s old, (pargsOf s old).argv ∈ s.live ∧ argOf s old i ∈ s.live
  map : MapOf s (s.procs old).vmMap ns
  children : Ring s (.procChild old) (qs.map .procNode)

/-- What a block has as arguments, as an argument vector, as an environment and as a string. -/
def textsOf (s : KernelState) (b : Ptr) : Pargs × (Nat → Ptr) × Ptr × List UInt8 :=
  (s.pargs b, s.argv b, s.pwd b, s.strings b)

/-- The record of a process, its lists of threads and siblings, its texts and its map. -/
structure SameProc (s s' : KernelState) (old : Ptr) (ns : List Ptr) : Prop where
  record : s'.procs old = s.procs old
  links : SameLinks s s' (.procThreads old) ∧ SameLinks s s' (.procNode old)
  texts : ∀ b ∈ s.live, textsOf s' b = textsOf s b
  map : MapOf s' (s.procs old).vmMap ns
  entries : ∀ n ∈ ns, s'.mapEntry n = s.mapEntry n ∧ entryOf s' n = entryOf s n
  pages : ∀ x ∈ pagesOfMap s ns, s'.paging.mem x = s.paging.mem x

/-- A string in a block that was not in use, equal to another one. -/
def Copied (s s' : KernelState) (c b : Ptr) : Prop := c ∉ s.live ∧ s'.strings c = s.strings b

/-- All but the number of arguments. -/
structure Inherits (s s' : KernelState) (new old : Ptr) (ns qs : List Ptr) : Prop where
  args : ∀ i < argcOf s old, Copied s s' (argOf s' new i) (argOf s old i)
  pwd : Copied s s' (pwdOf s' new) (pwdOf s old)
  blocks : (s'.procs new).args ∉ s.live ∧ (pargsOf s' new).argv ∉ s.live ∧
    (s'.procs new).envs ∉ s.live
  files : (s'.procs new).fdTable = (s.procs old).fdTable
  parent : (s'.procs new).parent = old
  child : Ring s' (.procChild old) ((qs ++ [new]).map .procNode)
  noThreads : Ring s' (.procThreads new) []
  noChildren : Ring s' (.procChild new) []
  rest : SameProc s s' old ns

/-- What a copy of a process is. -/
structure CarriesOver (s s' : KernelState) (new old : Ptr) (ns qs : List Ptr) : Prop where
  argc : (pargsOf s' new).argc = (pargsOf s old).argc
  inherits : Inherits s s' new old ns qs

/-! ## Texts -/

/-- Blocks were added and filled; those in use at the start are as they were. -/
structure Grown (s₀ s : KernelState) : Prop where
  same : s = { s₀ with
    pargs := s.pargs, argv := s.argv, pwd := s.pwd, strings := s.strings, live := s.live }
  heap : s.HeapOk
  live : ∀ b ∈ s₀.live, b ∈ s.live
  texts : ∀ b ∈ s₀.live, textsOf s b = textsOf s₀ b

theorem Grown.trans {t : KernelState} (h : Grown s₀ s) (h' : Grown s t) : Grown s₀ t := by
  refine ⟨?_, h'.heap, fun b hb => h'.live b (h.live b hb), fun b hb =>
    (h'.texts b (h.live b hb)).trans (h.texts b hb)⟩
  have hs := h'.same
  rw [h.same] at hs
  exact hs

theorem Grown.refl (h : s.HeapOk) : Grown s s :=
  ⟨rfl, h, fun _ => id, fun _ _ => rfl⟩

theorem Grown.malloc (h : Grown s₀ s) (he : e.MallocSucceeds)
    (hrun : Kernel.malloc e s = .ok (b, s')) :
    b ∉ s.live ∧ s' = { s with live := b :: s.live } ∧ Grown s₀ s' := by
  obtain ⟨hnew, hpos, hlt, rfl⟩ := malloc_ok he hrun
  refine ⟨hnew, rfl, ?_, h.heap.cons hnew hpos hlt rfl, fun c hc =>
    List.mem_cons_of_mem b (h.live c hc), h.texts⟩
  have hs := h.same
  rw [hs]

/-- A block that was not in use at the start is filled. -/
theorem Grown.fill (h : Grown s₀ s) (hb : b ∉ s₀.live)
    (hs : s' = { s with
      pargs := s'.pargs, argv := s'.argv, pwd := s'.pwd, strings := s'.strings })
    (htexts : ∀ c, c ≠ b → textsOf s' c = textsOf s c) : Grown s₀ s' := by
  have hlive : s'.live = s.live := by rw [hs]
  refine ⟨?_, ⟨hlive ▸ h.heap.nodup, hlive ▸ h.heap.range⟩, fun c hc => hlive ▸ h.live c hc,
    fun c hc => (htexts c fun he => hb (he ▸ hc)).trans (h.texts c hc)⟩
  have h₀ := h.same
  rw [h₀] at hs
  rw [hlive]
  exact hs

theorem Grown.pargs (h : Grown s₀ s) (hb : b ∈ s₀.live) : s.pargs b = s₀.pargs b :=
  congrArg Prod.fst (h.texts b hb)

theorem Grown.argv (h : Grown s₀ s) (hb : b ∈ s₀.live) : s.argv b = s₀.argv b :=
  congrArg (fun x => x.2.1) (h.texts b hb)

theorem Grown.pwd (h : Grown s₀ s) (hb : b ∈ s₀.live) : s.pwd b = s₀.pwd b :=
  congrArg (fun x => x.2.2.1) (h.texts b hb)

theorem Grown.strings (h : Grown s₀ s) (hb : b ∈ s₀.live) : s.strings b = s₀.strings b :=
  congrArg (fun x => x.2.2.2) (h.texts b hb)

def setPargs (a : Ptr) (x : Pargs) (s : KernelState) : KernelState :=
  { s with pargs := Function.update s.pargs a x }

theorem setPargs_self (a : Ptr) (x : Pargs) (s : KernelState) : (setPargs a x s).pargs a = x :=
  Function.update_self ..

theorem Grown.setPargs (h : Grown s₀ s) (ha : a ∉ s₀.live) (x : Pargs) :
    Grown s₀ (setPargs a x s) :=
  h.fill ha rfl fun c hc => by
    show (Function.update s.pargs a x c, s.argv c, s.pwd c, s.strings c) = _
    rw [Function.update_of_ne hc]
    rfl

/-- A string is copied to a new block. -/
def copyArg (a old i str : Ptr) (s : KernelState) : KernelState :=
  let argv := (s.pargs a).argv
  { s with
    argv := Function.update s.argv argv (Function.update (s.argv argv) i str)
    strings := Function.update s.strings str (s.strings (s.argv (s.pargs old).argv i)) }

theorem copyArg_argv (a o i str : Ptr) (s : KernelState) (j : Nat) :
    (copyArg a o i str s).argv (s.pargs a).argv j
      = if j = i then str else s.argv (s.pargs a).argv j := by
  show Function.update s.argv _ (Function.update _ i str) _ j = _
  rw [Function.update_self, Function.update_apply]

theorem copyArg_strings (a o i str : Ptr) (s : KernelState) (b : Ptr) :
    (copyArg a o i str s).strings b
      = if b = str then s.strings (s.argv (s.pargs o).argv i) else s.strings b :=
  Function.update_apply ..

theorem Grown.copyArg (h : Grown s₀ s) (hv : (s.pargs a).argv ∉ s₀.live) {str : Ptr}
    (hstr : str ∉ s₀.live) (o : Ptr) (i : Nat) : Grown s₀ (copyArg a o i str s) := by
  have hput : Grown s₀ { s with argv := (Raincloud.copyArg a o i str s).argv } := by
    refine h.fill hv rfl fun c hc => ?_
    show (s.pargs c, Function.update s.argv _ _ c, s.pwd c, s.strings c) = _
    rw [Function.update_of_ne hc]
    rfl
  refine hput.fill hstr rfl fun c hc => ?_
  show (s.pargs c, _, s.pwd c, Function.update s.strings str _ c) = _
  rw [Function.update_of_ne hc]
  rfl

/-- The loop of `pargs_dup`: from `i` on each argument gets a new block with the same string. -/
structure ArgsCopied (s₀ s s' : KernelState) (a o : Ptr) (i n : Nat) : Prop where
  grown : Grown s₀ s'
  pargs : s'.pargs = s.pargs
  kept : ∀ b ∈ s.live, b ∈ s'.live ∧ s'.strings b = s.strings b
  before : ∀ j < i, s'.argv (s.pargs a).argv j = s.argv (s.pargs a).argv j
  copied : ∀ j, i ≤ j → j < i + n → s'.argv (s.pargs a).argv j ∈ s'.live ∧
    Copied s₀ s' (s'.argv (s.pargs a).argv j) (s₀.argv (s₀.pargs o).argv j)

theorem pargsDupFrom_ok (he : e.MallocSucceeds) (h : Grown s₀ s) (hv : (s.pargs a).argv ∉ s₀.live)
    {o : Ptr} (ho : o ∈ s₀.live)
    (hargs : ∀ j, i ≤ j → j < i + n → (s₀.pargs o).argv ∈ s₀.live ∧
      s₀.argv (s₀.pargs o).argv j ∈ s₀.live)
    (hrun : pargsDupFrom a o n i e s = .ok (u, s')) : ArgsCopied s₀ s s' a o i n := by
  induction n generalizing i s with
  | zero =>
    cases hrun
    exact ⟨h, rfl, fun b hb => ⟨hb, rfl⟩, fun _ _ => rfl, fun j h1 h2 => absurd h2 (by omega)⟩
  | succ n ih =>
    rw [pargsDupFrom] at hrun
    obtain ⟨str, s₁, hmalloc, hrun⟩ := Program.bind_ok.mp hrun
    obtain ⟨hnew, rfl, h₁⟩ := h.malloc he hmalloc
    rw [Program.bind_of_ok Program.modify_apply] at hrun
    have hstr : str ∉ s₀.live := fun hmem => hnew (h.live str hmem)
    obtain ⟨hargv, harg⟩ := hargs i (Nat.le_refl i) (by omega)
    have h₂ : Grown s₀ (copyArg a o i str { s with live := str :: s.live }) := h₁.copyArg hv hstr o i
    obtain ⟨hgrown, hpargs, hkept, hbefore, hcopied⟩ := ih h₂ hv
      (fun j h1 h2 => hargs j (by omega) (by omega)) hrun
    refine ⟨hgrown, hpargs, fun b hb => ?_, fun j hj => ?_, fun j h1 h2 => ?_⟩
    · obtain ⟨hlive, hb'⟩ := hkept b (List.mem_cons_of_mem str hb)
      refine ⟨hlive, hb'.trans ((copyArg_strings ..).trans (if_neg ?_))⟩
      rintro rfl
      exact hnew hb
    · exact (hbefore j (by omega)).trans ((copyArg_argv ..).trans (if_neg (by omega)))
    · by_cases hj : j = i
      · have hfinal : s'.argv (s.pargs a).argv j = str :=
          (hbefore j (by omega)).trans ((copyArg_argv ..).trans (if_pos hj))
        obtain ⟨hlive, hkeep⟩ := hkept str List.mem_cons_self
        have htext : s'.strings str = s.strings (s.argv (s.pargs o).argv i) :=
          hkeep.trans ((copyArg_strings ..).trans (if_pos rfl))
        rw [h.pargs ho, h.argv hargv, h.strings harg] at htext
        rw [hfinal, hj]
        exact ⟨hlive, hstr, htext⟩
      · exact hcopied j (by omega) (by omega)

/-- A `pargs_t` and its strings, in blocks that were not in use. -/
structure PargsCopied (s₀ s' : KernelState) (a o : Ptr) : Prop where
  grown : Grown s₀ s'
  argc : (s'.pargs a).argc = 0
  live : a ∈ s'.live ∧ (s'.pargs a).argv ∈ s'.live
  new : a ∉ s₀.live ∧ (s'.pargs a).argv ∉ s₀.live
  copied : ∀ j < (s₀.pargs o).argc.toNat, s'.argv (s'.pargs a).argv j ∈ s'.live ∧
    Copied s₀ s' (s'.argv (s'.pargs a).argv j) (s₀.argv (s₀.pargs o).argv j)

/-- `malloc` of a `pargs_t` and `pargs_dup`. -/
theorem pargsDup_ok (he : e.MallocSucceeds) (h : s₀.HeapOk) {o : Ptr} (ho : o ∈ s₀.live)
    (hargs : ∀ j < (s₀.pargs o).argc.toNat, (s₀.pargs o).argv ∈ s₀.live ∧
      s₀.argv (s₀.pargs o).argv j ∈ s₀.live)
    (hnew : mallocPargs e s₀ = .ok (a, s)) (hrun : pargsDup a o e s = .ok (u, s')) :
    PargsCopied s₀ s' a o := by
  obtain ⟨p, t, hmalloc, hnew⟩ := Program.bind_ok.mp hnew
  obtain ⟨hp, rfl, hgrown⟩ := (Grown.refl h).malloc he hmalloc
  rw [Program.bind_of_ok Program.modify_apply] at hnew
  cases hnew
  have h₁ : Grown s₀ (setPargs a ⟨0, NULL⟩ { s₀ with live := a :: s₀.live }) :=
    hgrown.setPargs hp _
  obtain ⟨v, s₂, hmalloc, hrun⟩ := Program.bind_ok.mp hrun
  obtain ⟨hv, hs₂, h₂⟩ := h₁.malloc he hmalloc
  have hv₀ : v ∉ s₀.live := fun hmem => hv (List.mem_cons_of_mem a hmem)
  have hlive₂ : s₂.live = v :: a :: s₀.live := by rw [hs₂]; rfl
  have hpargs₂ : s₂.pargs a = ⟨0, NULL⟩ := by
    rw [hs₂]
    exact setPargs_self a _ _
  -- the `pargs_t` with its argument vector, before the loop
  obtain ⟨t, ht⟩ : ∃ t, t = setPargs a { s₂.pargs a with argv := v } s₂ := ⟨_, rfl⟩
  have h₃ : Grown s₀ t := ht ▸ h₂.setPargs hp _
  have hpargs : t.pargs a = ⟨0, v⟩ := by rw [ht, setPargs_self, hpargs₂]
  have hloop : pargsDupFrom a o (t.pargs o).argc.toNat 0 e t = .ok (u, s') := by
    rw [Program.bind_of_ok Program.modify_apply, Program.bind_of_ok Program.gets_apply] at hrun
    rw [ht]
    exact hrun
  rw [h₃.pargs ho] at hloop
  obtain ⟨hgrown', hpargs', hkept, -, hcopied⟩ := pargsDupFrom_ok he h₃ (by rw [hpargs]; exact hv₀)
    ho (fun j _ hj => hargs j (by omega)) hloop
  rw [← hpargs'] at hpargs hcopied
  rw [hpargs] at hcopied
  have hlive : ∀ b ∈ v :: a :: s₀.live, b ∈ s'.live := fun b hb => by
    rw [← hlive₂] at hb
    exact (hkept b (by rw [ht]; exact hb)).1
  refine ⟨hgrown', by rw [hpargs], ⟨hlive a (by simp), ?_⟩, ⟨hp, ?_⟩, fun j hj => ?_⟩
  · rw [hpargs]
    exact hlive v List.mem_cons_self
  · rw [hpargs]
    exact hv₀
  · rw [hpargs]
    exact hcopied j (Nat.zero_le j) (by omega)

/-- A `penvs_t` and its string, in blocks that were not in use. -/
structure PenvsCopied (s₀ s' : KernelState) (x o : Ptr) : Prop where
  grown : Grown s₀ s'
  live : x ∈ s'.live ∧ s'.pwd x ∈ s'.live
  new : x ∉ s₀.live
  copied : Copied s₀ s' (s'.pwd x) (s₀.pwd o)

/-- `malloc` of a `penvs_t` and `penvs_dup`. -/
theorem penvsDup_ok (he : e.MallocSucceeds) (h : s₀.HeapOk) {o x : Ptr} (ho : o ∈ s₀.live)
    (hnew : Kernel.malloc e s₀ = .ok (x, s)) (hrun : penvsDup x o e s = .ok (u, s')) :
    PenvsCopied s₀ s' x o := by
  obtain ⟨hx, rfl, h₁⟩ := (Grown.refl h).malloc he hnew
  obtain ⟨p, t, hmalloc, hrun⟩ := Program.bind_ok.mp hrun
  obtain ⟨hp, rfl, h₂⟩ := h₁.malloc he hmalloc
  have hp₀ : p ∉ s₀.live := fun hmem => hp (List.mem_cons_of_mem x hmem)
  have hox : o ≠ x := fun he => hx (he ▸ ho)
  cases hrun
  have hput : Grown s₀ { s₀ with
      live := p :: x :: s₀.live, pwd := Function.update s₀.pwd x p } :=
    h₂.fill hx rfl fun c hc => by
      show (_, _, Function.update s₀.pwd x p c, _) = _
      rw [Function.update_of_ne hc]
      rfl
  refine ⟨hput.fill hp₀ rfl fun c hc => ?_, ⟨by simp, ?_⟩, hx, ?_, ?_⟩
  · show (_, _, _, Function.update s₀.strings p _ c) = _
    rw [Function.update_of_ne hc]
    rfl
  · show Function.update s₀.pwd x p x ∈ _
    rw [Function.update_self]
    exact List.mem_cons_self
  · show Function.update s₀.pwd x p x ∉ _
    rw [Function.update_self]
    exact hp₀
  · show Function.update s₀.strings p (s₀.strings (s₀.pwd o)) (Function.update s₀.pwd x p x) = _
    rw [Function.update_self, Function.update_self]

/-! ## The map -/

/-- Only memory maps, their lists and the pages change. -/
def mapsOnly : Frame KernelState where
  rel s s' := s' = { s with
    next := s'.next, prev := s'.prev, mapEntry := s'.mapEntry, entries := s'.entries,
    paging := s'.paging, live := s'.live }
  refl _ := rfl
  trans h1 h2 := by
    rw [h1] at h2
    exact h2

theorem mapsOnly_malloc : mapsOnly.Keeps Kernel.malloc := by
  intro e s p s' h
  obtain ⟨-, ⟨-, rfl⟩ | ⟨-, -, -, rfl⟩⟩ := malloc_cases h <;> rfl

theorem mapsOnly_vmMapEntryDup (x y : Ptr) : mapsOnly.Keeps (vmMapEntryDup x y) := by
  refine keeps_bind (keeps_gets _) fun _ => keeps_bind (fun e s p s' h => ?_) fun _ =>
    keeps_bind ?_ fun _ => keeps_modify fun _ => rfl
  · cases h
    rfl
  · unfold copyPages
    split
    · exact keeps_modify fun _ => rfl
    · exact keeps_fault _

theorem mapsOnly_vmMapAdd (x y : Ptr) : mapsOnly.Keeps (vmMapAdd x y) := by
  refine keeps_bind mapsOnly_malloc fun newMap => ?_
  split
  · exact keeps_pure _
  · exact keeps_bind (keeps_modify fun _ => rfl) fun _ => keeps_pure _

theorem mapsOnly_vmMapDup (x y : Ptr) : mapsOnly.Keeps (vmMapDup x y) :=
  keeps_bind (keeps_modify fun _ => rfl) fun _ => keeps_listForEach fun _ =>
    keeps_bind (keeps_listEntry _) fun _ => keeps_bind (keeps_gets _) fun _ =>
    keeps_bind (keeps_check _ _) fun _ => keeps_bind mapsOnly_malloc fun _ =>
    keeps_bind (mapsOnly_vmMapEntryDup _ _) fun _ => keeps_bind (mapsOnly_vmMapAdd _ _) fun _ =>
    keeps_pure _

/-! ## The process -/

/-- A new process linked in behind the children of another one. -/
structure ChildLinked (s s' : KernelState) (new old : Ptr) (qs : List Ptr) : Prop where
  child : Ring s' (.procChild old) ((qs ++ [new]).map .procNode)
  noThreads : Ring s' (.procThreads new) []
  noChildren : Ring s' (.procChild new) []
  threads : SameLinks s s' (.procThreads old)
  node : SameLinks s s' (.procNode old)
  maps : ∀ n, SameLinks s s' (.vmMapNode n)

section ProcInit

variable {args envs vmMap : Ptr}

theorem procInit_linked (h : Ring s (.procChild old) (qs.map .procNode)) (hold : old ≠ NULL)
    (hne : new ≠ old) (hnew : new ∉ qs) (hqs : old ∉ qs) :
    ChildLinked s (procInit new old args envs vmMap s) new old qs := by
  have hsetup : ∀ r : ListRef, r ≠ .procChild new → r ≠ .procNode new → r ≠ .procThreads new →
      SameLinks s (procSetup new old args envs vmMap s) r := fun r => procSetup_links
  have hring : Ring (procSetup new old args envs vmMap s) (.procChild old) (qs.map .procNode) := by
    refine h.congr fun r hr => ?_
    rcases List.mem_cons.mp hr with rfl | hr
    · exact hsetup _ (by simpa using hne.symm) (by simp) (by simp)
    · obtain ⟨c, hc, rfl⟩ := List.mem_map.mp hr
      exact hsetup _ (by simp) (by simpa using fun he : c = new => hnew (he ▸ hc)) (by simp)
  have hthreads : Ring (procSetup new old args envs vmMap s) (.procThreads new) [] := by
    have hinit : Ring (listInit (listInit (pidAlloc s).2 (.procNode new)) (.procThreads new))
        (ListRef.procThreads new) [] := ring_listInit lawful trivial
    refine hinit.congr fun r hr => ?_
    rw [List.mem_singleton.mp hr]
    have hne' : ListRef.procThreads new ≠ .procChild new := by simp
    exact sameLinks_listInit lawful trivial trivial hne'
  have hchild : Ring (procSetup new old args envs vmMap s) (.procChild new) [] :=
    (ring_listInit (s := listInit (listInit (pidAlloc s).2 (.procNode new)) (.procThreads new))
      (x := ListRef.procChild new) lawful trivial).congr fun _ _ => ⟨rfl, rfl⟩
  -- the node before the head of the list is the head itself or a child
  have hlast : ∀ r : ListRef, r ≠ .procChild old → (∀ c ∈ qs, r ≠ .procNode c) →
      r ≠ prev (procSetup new old args envs vmMap s) (.procChild old) := fun r h1 h2 he => by
    rw [hring.prev_head] at he
    rcases List.mem_cons.mp (he ▸ Ring.getLastD_mem (ListRef.procChild old) (qs.map .procNode))
      with heq | hmem
    · exact h1 heq
    · obtain ⟨c, hc, heq⟩ := List.mem_map.mp hmem
      exact h2 c hc heq.symm
  have hadd : ∀ r : ListRef, r ≠ .procNode new → r ≠ .procChild old → (∀ c ∈ qs, r ≠ .procNode c) →
      SameLinks (procSetup new old args envs vmMap s) (procInit new old args envs vmMap s) r := by
    intro r h1 h2 h3
    rw [procInit_eq, if_pos hold]
    exact sameLinks_listAdd lawful trivial trivial trivial trivial h1 (hlast r h2 h3) h2
  have hkeep : ∀ r : ListRef, r ≠ .procChild new → r ≠ .procThreads new → r ≠ .procNode new →
      r ≠ .procChild old → (∀ c ∈ qs, r ≠ .procNode c) →
      SameLinks s (procInit new old args envs vmMap s) r := fun r h1 h2 h3 h4 h5 =>
    SameLinks.trans (hsetup r h1 h3 h2) (hadd r h3 h4 h5)
  refine ⟨?_, hthreads.congr fun r hr => ?_, hchild.congr fun r hr => ?_, ?_, ?_, fun n => ?_⟩
  · rw [procInit_eq, if_pos hold, List.map_append, List.map_singleton]
    refine ring_listAddBefore_head lawful hring (fun _ _ => trivial) trivial fun hmem => ?_
    rcases List.mem_cons.mp hmem with he | hm
    · cases he
    · obtain ⟨c, hc, he⟩ := List.mem_map.mp hm
      exact hnew (ListRef.procNode.inj he ▸ hc)
  · rw [List.mem_singleton.mp hr]
    exact hadd _ (by simp) (by simp) (by simp)
  · rw [List.mem_singleton.mp hr]
    exact hadd _ (by simp) (by simpa using hne) (by simp)
  · exact hkeep _ (by simp) (by simpa using hne.symm) (by simp) (by simp) (by simp)
  · refine hkeep _ (by simp) (by simp) (by simpa using hne.symm) (by simp) fun c hc he => ?_
    exact hqs (ListRef.procNode.inj he ▸ hc)
  · exact hkeep _ (by simp) (by simp) (by simp) (by simp) (by simp)

theorem procInit_procs (hold : old ≠ NULL) (q : Ptr) :
    (procInit new old args envs vmMap s).procs q
      = if q = new then
          { s.procs new with
            pid := (pidAlloc s).1, parent := old, nice := 0, status := 0, args := args
            envs := envs, vmMap := vmMap, fdTable := (s.procs old).fdTable }
        else s.procs q := by
  rw [procInit_eq, if_pos hold]
  show Function.update s.procs new _ q = _
  rw [Function.update_apply, if_pos hold]
  rfl

/-- The texts, the maps and the pages are none of its business. -/
theorem procInit_rest : procInit new old args envs vmMap s = { s with
    next := (procInit new old args envs vmMap s).next
    prev := (procInit new old args envs vmMap s).prev
    procs := (procInit new old args envs vmMap s).procs
    pidTable := (procInit new old args envs vmMap s).pidTable } := by
  rw [procInit_eq]
  split <;> rfl

end ProcInit

/-! ## The call -/

theorem mallocPargs_procs (he : e.MallocSucceeds) (hrun : mallocPargs e s = .ok (a, s')) :
    s'.procs = s.procs := by
  obtain ⟨p, t, hmalloc, hrun⟩ := Program.bind_ok.mp hrun
  obtain ⟨-, -, -, rfl⟩ := malloc_ok he hmalloc
  cases hrun
  rfl

theorem Grown.procs (h : Grown s₀ s) : s.procs = s₀.procs := by rw [h.same]

/-- Blocks added leave a map as it is. -/
theorem Grown.mapOf {map : Ptr} (h : Grown s₀ s) (hm : MapOf s₀ map ns) : MapOf s map ns := by
  have hs := h.same
  refine hm.keep ⟨fun n _ => ⟨?_, ?_⟩, fun n _ => ?_, fun p hp => h.live p (hm.alive hp)⟩
  · rw [hs]
    rfl
  · rw [hs]
    rfl
  · rw [hs]

theorem Grown.entryOf (h : Grown s₀ s) (n : Ptr) : s.mapEntry n = s₀.mapEntry n ∧
    entryOf s n = entryOf s₀ n ∧ s.paging = s₀.paging := by
  rw [h.same]
  exact ⟨rfl, rfl, rfl⟩

theorem DupReady.grown (hready : DupReady e Owns F s₀ ns) (h : Grown s₀ s) :
    DupReady e Owns F s ns := by
  have hpaging : s.paging = s₀.paging := (h.entryOf 0).2.2
  refine ⟨hready.source, by rw [hpaging]; exact hready.owns, fun n hn => ?_⟩
  rw [(h.entryOf n).2.1]
  exact hready.held n hn

/-- A call of `proc_dup`, taken apart: the blocks it fills and the states in between. -/
structure DupSteps (e : Env) (s s' : KernelState) (new old a x m : Ptr)
    (s₂ s₄ s₅ s₆ : KernelState) : Prop where
  args : PargsCopied s s₂ a (s.procs old).args
  envs : PenvsCopied s₂ s₄ x (s.procs old).envs
  map : Grown s₄ s₅ ∧ m ∉ s₄.live ∧ m ∈ s₅.live
  pages : mapsOnly.rel s₅ s₆ ∧ Quiet s₅ s₆
  dup : vmMapDup m (s.procs old).vmMap e s₅ = .ok ((), s₆)
  init : s' = procInit new old a x m s₆

theorem procDup_steps (he : e.MallocSucceeds) (h : ProcBlocks s old ns qs)
    (hrun : procDup new old e s = .ok (u, s')) : ∃ a x m s₂ s₄ s₅ s₆,
    DupSteps e s s' new old a x m s₂ s₄ s₅ s₆ := by
  obtain ⟨hargs, henvs, -⟩ := h.args
  obtain ⟨a, s₁, hpargs, hrun⟩ := Program.bind_ok.mp hrun
  have hprocs₁ := mallocPargs_procs he hpargs
  rw [Program.bind_of_ok Program.gets_apply, hprocs₁] at hrun
  obtain ⟨_, s₂, hdup, hrun⟩ := Program.bind_ok.mp hrun
  have hcopied := pargsDup_ok he h.heap hargs h.argv hpargs hdup
  obtain ⟨x, s₃, hx, hrun⟩ := Program.bind_ok.mp hrun
  obtain ⟨-, hs₃, hgrown₃⟩ := (Grown.refl hcopied.grown.heap).malloc he hx
  rw [Program.bind_of_ok Program.gets_apply, hgrown₃.procs, hcopied.grown.procs] at hrun
  obtain ⟨_, s₄, hpenvs, hrun⟩ := Program.bind_ok.mp hrun
  have henv := penvsDup_ok he hcopied.grown.heap (hcopied.grown.live _ henvs) hx hpenvs
  obtain ⟨m, s₅, hm, hrun⟩ := Program.bind_ok.mp hrun
  obtain ⟨hmnew, hs₅, hgrown₅⟩ := (Grown.refl henv.grown.heap).malloc he hm
  rw [Program.bind_of_ok Program.gets_apply, hgrown₅.procs, henv.grown.procs,
    hcopied.grown.procs] at hrun
  obtain ⟨_, s₆, hmap, hrun⟩ := Program.bind_ok.mp hrun
  cases hrun
  refine ⟨a, x, m, s₂, s₄, s₅, s₆, hcopied, henv, ⟨hgrown₅, hmnew, ?_⟩,
    ⟨mapsOnly_vmMapDup _ _ _ _ _ _ hmap, quiet_vmMapDup _ _ _ _ _ _ hmap⟩, hmap, rfl⟩
  rw [hs₅]
  exact List.mem_cons_self

/-! ## When it returns -/

section Errors

variable {err : Fault}

theorem avoids_pargsDupFrom {o : Ptr} (herr : .environment ≠ err) :
    ∀ n i, Program.Avoids err (pargsDupFrom a o n i)
  | 0, _ => Program.avoids_pure ()
  | n + 1, i => Program.avoids_bind (avoids_malloc herr) fun _ =>
      Program.avoids_bind (Program.avoids_modify _) fun _ => avoids_pargsDupFrom herr n (i + 1)

theorem avoids_mallocPargs (herr : .environment ≠ err) : Program.Avoids err mallocPargs :=
  Program.avoids_bind (avoids_malloc herr) fun _ =>
    Program.avoids_bind (Program.avoids_modify _) fun _ => Program.avoids_pure _

theorem avoids_pargsDup {o : Ptr} (herr : .environment ≠ err) : Program.Avoids err (pargsDup a o) :=
  Program.avoids_bind (avoids_malloc herr) fun _ =>
    Program.avoids_bind (Program.avoids_modify _) fun _ =>
    Program.avoids_bind (Program.avoids_gets _) fun _ => avoids_pargsDupFrom herr _ _

theorem avoids_penvsDup {x o : Ptr} (herr : .environment ≠ err) :
    Program.Avoids err (penvsDup x o) :=
  Program.avoids_bind (avoids_malloc herr) fun _ => Program.avoids_modify _

/-- With pages to be had for the map, it does not fault. -/
theorem procDup_error (he : e.MallocSucceeds) (h : ProcBlocks s old ns qs)
    (hready : DupReady e Owns F s ns) (hsup : Supplies e.pageAlloc s.paging.mem (pageNumsOf s ns))
    (hrun : procDup new old e s = .error err) : err = .environment := by
  obtain ⟨hargs, henvs, -⟩ := h.args
  rcases Program.bind_error.mp hrun with hfail | ⟨a, s₁, hpargs, hrun⟩
  · exact Program.eq_of_avoids (fun _ herr => avoids_mallocPargs herr) hfail
  have hprocs₁ := mallocPargs_procs he hpargs
  rw [Program.bind_of_ok Program.gets_apply, hprocs₁] at hrun
  rcases Program.bind_error.mp hrun with hfail | ⟨_, s₂, hdup, hrun⟩
  · exact Program.eq_of_avoids (fun _ herr => avoids_pargsDup herr) hfail
  have hcopied := pargsDup_ok he h.heap hargs h.argv hpargs hdup
  rcases Program.bind_error.mp hrun with hfail | ⟨x, s₃, hx, hrun⟩
  · exact malloc_error hfail
  obtain ⟨-, hs₃, hgrown₃⟩ := (Grown.refl hcopied.grown.heap).malloc he hx
  rw [Program.bind_of_ok Program.gets_apply, hgrown₃.procs, hcopied.grown.procs] at hrun
  rcases Program.bind_error.mp hrun with hfail | ⟨_, s₄, hpenvs, hrun⟩
  · exact Program.eq_of_avoids (fun _ herr => avoids_penvsDup herr) hfail
  have henv := penvsDup_ok he hcopied.grown.heap (hcopied.grown.live _ henvs) hx hpenvs
  have hgrown₄ := hcopied.grown.trans henv.grown
  rcases Program.bind_error.mp hrun with hfail | ⟨m, s₅, hm, hrun⟩
  · exact malloc_error hfail
  obtain ⟨hmnew, hs₅, hgrown₅⟩ := (Grown.refl henv.grown.heap).malloc he hm
  rw [Program.bind_of_ok Program.gets_apply, hgrown₅.procs, hgrown₄.procs] at hrun
  rcases Program.bind_error.mp hrun with hfail | ⟨_, s₆, hmap, hrun⟩
  · have hgrown := hgrown₄.trans hgrown₅
    have hpages : pageNumsOf s₅ ns = pageNumsOf s ns := by
      unfold pageNumsOf
      exact List.map_congr_left fun n _ => by rw [(hgrown.entryOf n).2.1]
    have hpaging : s₅.paging = s.paging := (hgrown.entryOf 0).2.2
    have hmlive : m ∈ s₅.live := by
      rw [hs₅]
      exact List.mem_cons_self
    have hmout : m ∉ (s.procs old).vmMap :: ns := fun hmem =>
      hmnew (hgrown₄.live m (h.map.live m hmem))
    rw [← hpages, ← hpaging] at hsup
    rcases vmMapDup_returns he (hgrown.mapOf h.map) hgrown.heap hmlive hmout
      (hready.grown hgrown) hsup with ⟨t, hok⟩ | herr
    · rw [hok] at hfail
      cases hfail
    · rw [herr] at hfail
      exact (Except.error.inj hfail).symm
  · cases hrun

end Errors

/-! ## What it leaves -/

section Steps

variable {x m : Ptr} {s₂ s₄ s₅ s₆ : KernelState}

/-- The map is duplicated in a state that has grown from the first one. -/
theorem DupSteps.grown (h : DupSteps e s s' new old a x m s₂ s₄ s₅ s₆) : Grown s s₅ :=
  (h.args.grown.trans h.envs.grown).trans h.map.1

theorem DupSteps.procs (h : DupSteps e s s' new old a x m s₂ s₄ s₅ s₆) : s₆.procs = s.procs := by
  rw [h.pages.1]
  exact h.grown.procs

/-- The texts are through when the environment is copied. -/
theorem DupSteps.texts (h : DupSteps e s s' new old a x m s₂ s₄ s₅ s₆) (b : Ptr)
    (hb : b ∈ s₄.live) : textsOf s' b = textsOf s₄ b := by
  have hmaps := h.pages.1
  rw [h.init, procInit_rest]
  show textsOf s₆ b = _
  rw [hmaps]
  exact h.map.1.texts b hb

/-- The blocks of the arguments are through before that. -/
theorem DupSteps.early (h : DupSteps e s s' new old a x m s₂ s₄ s₅ s₆) (b : Ptr)
    (hb : b ∈ s₂.live) : textsOf s' b = textsOf s₂ b :=
  (h.texts b (h.envs.grown.live b hb)).trans (h.envs.grown.texts b hb)

theorem DupSteps.duplicate (h : DupSteps e s s' new old a x m s₂ s₄ s₅ s₆)
    (he : e.MallocSucceeds) (hb : ProcBlocks s old ns qs) (hready : DupReady e Owns F s ns) :
    ∃ cs, Duplicate s₅ s₆ m (s.procs old).vmMap ns cs := by
  have hgrown := h.grown
  refine vmMapDup_duplicate he (hgrown.mapOf hb.map) hgrown.heap h.map.2.2 (fun hmem => ?_)
    (hready.grown hgrown) h.dup
  exact h.map.2.1 ((h.args.grown.trans h.envs.grown).live m (hb.map.live m hmem))

/-- The old process, after the call. -/
theorem DupSteps.sameProc (h : DupSteps e s s' new old a x m s₂ s₄ s₅ s₆) (he : e.MallocSucceeds)
    (hb : ProcBlocks s old ns qs) (hready : DupReady e Owns F s ns) (hold : old ≠ NULL)
    (hne : new ≠ old) (hlinked : ChildLinked s₆ s' new old qs) : SameProc s s' old ns := by
  obtain ⟨cs, hdup⟩ := h.duplicate he hb hready
  have hgrown := h.grown
  have hsame : s' = procInit new old a x m s₆ := h.init
  have hlinks : ∀ r : ListRef, ¬ r.IsVmMap → SameLinks s s₆ r := fun r hr => by
    have h₅ : s₅ = { s with pargs := s₅.pargs, argv := s₅.argv, pwd := s₅.pwd
                            strings := s₅.strings, live := s₅.live } := hgrown.same
    have h₆ := h.pages.2.links r hr
    rw [h₅] at h₆
    exact h₆
  have hentry : ∀ n, s'.mapEntry n = s₆.mapEntry n ∧ entryOf s' n = entryOf s₆ n := fun n => by
    rw [hsame, procInit_rest]
    exact ⟨rfl, rfl⟩
  have hmem : s'.paging = s₆.paging := by
    rw [hsame, procInit_rest]
  refine ⟨?_, ⟨SameLinks.trans (hlinks _ id) hlinked.threads,
    SameLinks.trans (hlinks _ id) hlinked.node⟩, fun b hlive => ?_, ?_, fun n hn => ?_, ?_⟩
  · rw [hsame, procInit_procs hold, if_neg hne.symm, h.procs]
  · rw [h.texts b (h.envs.grown.live b (h.args.grown.live b hlive))]
    exact (h.args.grown.trans h.envs.grown).texts b hlive
  · refine hdup.oldMap.keep ⟨fun n _ => hlinked.maps n, fun n _ => (hentry n).1, fun p hp => ?_⟩
    have hlive : s'.live = s₆.live := by rw [hsame, procInit_rest]
    rw [hlive]
    exact hdup.oldMap.alive hp
  · obtain ⟨h1, h2⟩ := hdup.oldEntries n hn
    obtain ⟨h3, h4, -⟩ := hgrown.entryOf n
    exact ⟨(hentry n).1.trans (h1.trans h3), (hentry n).2.trans (h2.trans h4)⟩
  · rintro _ ⟨n, hn, y, hy, rfl⟩
    obtain ⟨-, hen, hpaging⟩ := hgrown.entryOf n
    rw [hmem, ← hpaging]
    exact hdup.oldPages n hn y (by rw [hen]; exact hy)

theorem DupSteps.linked (h : DupSteps e s s' new old a x m s₂ s₄ s₅ s₆)
    (hb : ProcBlocks s old ns qs) (hold : old ≠ NULL) (hne : new ≠ old) (hnew : new ∉ qs)
    (hqs : old ∉ qs) : ChildLinked s₆ s' new old qs := by
  have h₅ : Ring s₅ (.procChild old) (qs.map .procNode) := by
    rw [h.grown.same]
    exact hb.children.congr fun _ _ => ⟨rfl, rfl⟩
  have hring : Ring s₆ (.procChild old) (qs.map .procNode) := by
    refine h₅.congr fun r hr => h.pages.2.links r fun hmap => ?_
    rcases List.mem_cons.mp hr with rfl | hr
    · exact hmap
    · obtain ⟨c, -, rfl⟩ := List.mem_map.mp hr
      exact hmap
  rw [h.init]
  exact procInit_linked hring hold hne hnew hqs

theorem DupSteps.record (h : DupSteps e s s' new old a x m s₂ s₄ s₅ s₆) (hold : old ≠ NULL) :
    s'.procs new = { s.procs new with
      pid := (pidAlloc s₆).1, parent := old, nice := 0, status := 0, args := a
      envs := x, vmMap := m, fdTable := (s.procs old).fdTable } := by
  rw [h.init, procInit_procs hold, if_pos rfl, h.procs]

theorem DupSteps.pargs (h : DupSteps e s s' new old a x m s₂ s₄ s₅ s₆) (hold : old ≠ NULL) :
    pargsOf s' new = s₂.pargs a := by
  rw [pargsOf, h.record hold]
  exact congrArg Prod.fst (h.early a h.args.live.1)

theorem DupSteps.pwd (h : DupSteps e s s' new old a x m s₂ s₄ s₅ s₆) (hold : old ≠ NULL) :
    pwdOf s' new = s₄.pwd x := by
  rw [pwdOf, h.record hold]
  exact congrArg (fun x => x.2.2.1) (h.texts x h.envs.live.1)

/-- What the new process has, but for the number of arguments. -/
theorem DupSteps.inherits (h : DupSteps e s s' new old a x m s₂ s₄ s₅ s₆) (he : e.MallocSucceeds)
    (hb : ProcBlocks s old ns qs) (hready : DupReady e Owns F s ns) (hold : old ≠ NULL)
    (hne : new ≠ old) (hnew : new ∉ qs) (hqs : old ∉ qs) : Inherits s s' new old ns qs := by
  have hlinked := h.linked hb hold hne hnew hqs
  have hrecord := h.record hold
  have hargs := h.pargs hold
  have hpwd := h.pwd hold
  have hargv : s'.argv (s₂.pargs a).argv = s₂.argv (s₂.pargs a).argv :=
    congrArg (fun x => x.2.1) (h.early _ h.args.live.2)
  refine ⟨fun i hi => ?_, ?_, ⟨?_, ?_, ?_⟩, ?_, ?_, hlinked.child, hlinked.noThreads,
    hlinked.noChildren, h.sameProc he hb hready hold hne hlinked⟩
  · obtain ⟨hlive, hfresh, hstr⟩ := h.args.copied i hi
    have harg : argOf s' new i = s₂.argv (s₂.pargs a).argv i := by rw [argOf, hargs, hargv]
    rw [harg]
    exact ⟨hfresh, (congrArg (fun x => x.2.2.2) (h.early _ hlive)).trans hstr⟩
  · obtain ⟨hfresh, hstr⟩ := h.envs.copied
    have hold' : s₂.pwd (s.procs old).envs = pwdOf s old := h.args.grown.pwd hb.args.2.1
    have hkept : s'.strings (s₄.pwd x) = s₄.strings (s₄.pwd x) :=
      congrArg (fun x => x.2.2.2) (h.texts _ h.envs.live.2)
    rw [hpwd]
    refine ⟨fun hmem => hfresh (h.args.grown.live _ hmem), ?_⟩
    rw [hkept, hstr, hold']
    exact h.args.grown.strings hb.args.2.2
  · rw [hrecord]
    exact h.args.new.1
  · rw [hargs]
    exact h.args.new.2
  · rw [hrecord]
    exact fun hmem => h.envs.new (h.args.grown.live x hmem)
  · rw [hrecord]
  · rw [hrecord]

/-- No argument is counted for the new process. -/
theorem DupSteps.argc (h : DupSteps e s s' new old a x m s₂ s₄ s₅ s₆) (hold : old ≠ NULL) :
    (pargsOf s' new).argc = 0 := by
  rw [h.pargs hold]
  exact h.args.argc

/-- The new process can be copied in turn. -/
theorem DupSteps.procBlocks (h : DupSteps e s s' new old a x m s₂ s₄ s₅ s₆)
    (he : e.MallocSucceeds) (hb : ProcBlocks s old ns qs) (hready : DupReady e Owns F s ns)
    (hold : old ≠ NULL) (hne : new ≠ old) (hnew : new ∉ qs) (hqs : old ∉ qs) :
    ∃ cs, ProcBlocks s' new cs [] := by
  obtain ⟨cs, hdup⟩ := h.duplicate he hb hready
  have hlinked := h.linked hb hold hne hnew hqs
  have hargc := h.argc hold
  have hrecord := h.record hold
  have hsame : s' = procInit new old a x m s₆ := h.init
  have hlive : s'.live = s₆.live := by rw [hsame, procInit_rest]
  obtain ⟨hheap, hlive₆⟩ := h.pages.2.heap h.grown.heap
  have hlive₄ : ∀ b ∈ s₄.live, b ∈ s'.live := fun b hb => by
    rw [hlive]
    exact hlive₆ b (h.map.1.live b hb)
  refine ⟨cs, ⟨hlive ▸ hheap.nodup, hlive ▸ hheap.range⟩, le_of_eq hargc.symm, ⟨?_, ?_, ?_⟩,
    fun i hi => ?_, ?_, hlinked.noChildren⟩
  · rw [hrecord]
    exact hlive₄ a (h.envs.grown.live a h.args.live.1)
  · rw [hrecord]
    exact hlive₄ x h.envs.live.1
  · rw [h.pwd hold]
    exact hlive₄ _ h.envs.live.2
  · rw [argcOf, hargc] at hi
    exact absurd hi (Nat.not_lt_zero i)
  · rw [hrecord]
    refine hdup.newMap.keep ⟨fun n _ => hlinked.maps n, fun n _ => ?_, fun p hp => ?_⟩
    · rw [hsame, procInit_rest]
    · rw [hlive]
      exact hdup.newMap.alive hp

end Steps

/-! ## The law -/

/--
`proc_dup` of any process, with pages to be had for its map: the call returns, and the new
process has equal strings in storage of its own, the same files, the right parent and place, and
can be copied in turn. It has the number of arguments too just when that is 0: nothing copies it.
-/
theorem carriesOver_iff (he : e.MallocSucceeds) (hb : ProcBlocks s old ns qs)
    (hready : DupReady e Owns F s ns) (hold : old ≠ NULL) (hne : new ≠ old) (hnew : new ∉ qs)
    (hqs : old ∉ qs) :
    (Supplies e.pageAlloc s.paging.mem (pageNumsOf s ns) →
      (∃ s', procDup new old e s = .ok ((), s')) ∨ procDup new old e s = .error .environment) ∧
    ∀ s', procDup new old e s = .ok ((), s') →
      (CarriesOver s s' new old ns qs ↔ (pargsOf s old).argc = 0) ∧
      Inherits s s' new old ns qs ∧ ∃ cs, ProcBlocks s' new cs [] := by
  refine ⟨fun hsup => ?_, fun s' hrun => ?_⟩
  · cases hrun : procDup new old e s with
    | ok r => exact .inl ⟨r.2, rfl⟩
    | error err => exact .inr (congrArg _ (procDup_error he hb hready hsup hrun))
  · obtain ⟨a, x, m, s₂, s₄, s₅, s₆, hsteps⟩ := procDup_steps he hb hrun
    have hinherits := hsteps.inherits he hb hready hold hne hnew hqs
    have hargc := hsteps.argc hold
    refine ⟨⟨fun h => ?_, fun h => ⟨?_, hinherits⟩⟩, hinherits,
      hsteps.procBlocks he hb hready hold hne hnew hqs⟩
    · rw [← h.argc, hargc]
    · rw [hargc, h]

/-! ## One argument -/

/-- A process at 10 with the map of one page, a working directory and `argc` arguments. -/
def oneProcState (argc : Int) : KernelState :=
  listInit { oneEntryMap with
    procs := fun _ => ⟨0, NULL, 0, 0, 11, 14, 1, fun _ => NULL, 0⟩
    pargs := fun _ => ⟨argc, 12⟩
    argv := fun _ _ => 13
    pwd := fun _ => 15
    live := [11, 12, 13, 14, 15] ++ oneEntryMap.live } (.procChild 10)

theorem mapOf_oneProcState (argc : Int) : MapOf (oneProcState argc) 1 [4] := by
  have hlinks : ∀ n, SameLinks oneEntryMap (oneProcState argc) (.vmMapNode n) := fun n =>
    sameLinks_listInit (s := { oneEntryMap with live := [11, 12, 13, 14, 15] ++ oneEntryMap.live })
      (x := ListRef.procChild 10) lawful trivial trivial (by simp)
  refine builtMap_oneEntry.mapOf.1.keep ⟨fun n _ => hlinks n, fun n _ => rfl, fun p hp => ?_⟩
  exact List.mem_append_right _ (builtMap_oneEntry.mapOf.1.alive hp)

/-- The blocks in use, for any number of arguments. -/
theorem live_oneProcState (argc : Int) :
    (oneProcState argc).live = [11, 12, 13, 14, 15, 4, 1, 2, 3] := rfl

theorem procBlocks_oneProcState {argc : Int} (h : 0 ≤ argc) :
    ProcBlocks (oneProcState argc) 10 [4] [] where
  heap := ⟨by rw [live_oneProcState]; decide, by rw [live_oneProcState]; decide⟩
  argc := h
  args := by
    rw [live_oneProcState]
    exact ⟨show 11 ∈ _ by decide, show 14 ∈ _ by decide, show 15 ∈ _ by decide⟩
  argv _ _ := by
    rw [live_oneProcState]
    exact ⟨show 12 ∈ _ by decide, show 13 ∈ _ by decide⟩
  map := mapOf_oneProcState argc
  children := ring_listInit lawful trivial

theorem dupReady_oneProcState (argc : Int) :
    DupReady twoPagesEnv (PoolOwns mmPoolAtImageBase) (blockBytes twoPages) (oneProcState argc) [4]
    where
  source := dupReady_oneEntry.source
  owns := dupReady_oneEntry.owns
  held := dupReady_oneEntry.held

/-- A process without arguments is carried over. -/
theorem carriesOver_noArgs :
    ((∃ s', procDup 20 10 twoPagesEnv (oneProcState 0) = .ok ((), s')) ∨
      procDup 20 10 twoPagesEnv (oneProcState 0) = .error .environment) ∧
    ∀ s', procDup 20 10 twoPagesEnv (oneProcState 0) = .ok ((), s') →
      CarriesOver (oneProcState 0) s' 20 10 [4] [] := by
  obtain ⟨hreturns, hlaw⟩ := carriesOver_iff twoPagesEnv_malloc
    (procBlocks_oneProcState (Int.le_refl 0)) (dupReady_oneProcState 0) (show 10 ≠ NULL by decide)
    (show 20 ≠ 10 by decide) (by decide) (by decide)
  refine ⟨hreturns ⟨by decide +kernel, fun _ _ => trivial⟩, fun s' hrun => ?_⟩
  exact (hlaw s' hrun).1.mpr rfl

/-- The child of a process with one argument has none. -/
theorem procDup_loses_argc : ∃ s', procDup 20 10 twoPagesEnv (oneProcState 1) = .ok ((), s') ∧
    ¬CarriesOver (oneProcState 1) s' 20 10 [4] [] := by
  have hruns : (procDup 20 10 twoPagesEnv (oneProcState 1)).isOk = true := by decide +kernel
  cases hrun : procDup 20 10 twoPagesEnv (oneProcState 1) with
  | error err =>
    rw [hrun] at hruns
    cases hruns
  | ok r =>
    refine ⟨r.2, rfl, fun h => ?_⟩
    obtain ⟨a, x, m, s₂, s₄, s₅, s₆, hsteps⟩ := procDup_steps twoPagesEnv_malloc
      (procBlocks_oneProcState (Int.le_of_lt Int.one_pos)) hrun
    have hargc := h.argc
    rw [hsteps.argc (by decide)] at hargc
    cases hargc

end Raincloud
