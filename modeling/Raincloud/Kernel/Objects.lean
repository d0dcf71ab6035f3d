import Raincloud.Arch.PageTables
import Raincloud.Infra.Program
import Raincloud.Klibc.ListHead

/-!
# The kernel's objects

What the process code works on: threads, processes, queues, memory maps, and the list heads
inside them. An object is a block of the kernel heap, known by its address; the objects of
one type are a function of the address. What `malloc` and the page allocator return comes
from the environment.
-/

set_option linter.style.nameCheck false

namespace Raincloud

open Infra

/-! ## Pointers and list heads -/

/-- The address of a block of the kernel heap, or `NULL`. -/
abbrev Ptr := Nat

/-- A `list_head_t`, by the object it lies in. -/
inductive ListRef where
  | null
  | threadList
  | procList
  | threadNode (thread : Ptr)
  | procNode (proc : Ptr)
  | procThreads (proc : Ptr)
  | procChild (proc : Ptr)
  | queueHead (queue : Ptr)
  | queueNode (node : Ptr)
  | vmMapNode (map : Ptr)
  deriving DecidableEq

namespace ListRef

/-! `list_entry`, at each member a list runs through. -/

def thread? : ListRef → Option Ptr
  | threadNode t => some t
  | _ => none

def proc? : ListRef → Option Ptr
  | procNode p => some p
  | _ => none

def queueNode? : ListRef → Option Ptr
  | queueNode n => some n
  | _ => none

def vmMap? : ListRef → Option Ptr
  | vmMapNode m => some m
  | _ => none

end ListRef

/-! ## Objects -/

/-- `context_t`, word by word. -/
abbrev Context := Fin 22 → Nat

namespace Context

instance words_ne_zero : NeZero 22 := ⟨by decide⟩

def RAX : Fin 22 := 0

def FS : Fin 22 := 15

def GS : Fin 22 := 16

def RIP : Fin 22 := 17

def CS : Fin 22 := 18

def RFLAGS : Fin 22 := 19

def RSP : Fin 22 := 20

def SS : Fin 22 := 21

def zero : Context := fun _ => 0

end Context

/-- `thread_t`; `context` is `tcb.context`. -/
structure Thread where
  tid : Int
  status : Int
  proc : Ptr
  context : Context

def Thread.zero : Thread := ⟨0, 0, NULL, Context.zero⟩

/-- `FD_TABLE_SIZE`. -/
def fdTableSize : Nat := 256

/-- `proc_t`. -/
structure Proc where
  pid : Int
  parent : Ptr
  status : Int
  nice : Int
  args : Ptr
  envs : Ptr
  vmMap : Ptr
  fdTable : Fin fdTableSize → Ptr
  xstat : Nat

/-- `pargs_t`. -/
structure Pargs where
  argc : Int
  argv : Ptr

/-- `vm_map_entry_t`. -/
structure VmMapEntry where
  virtAddr : Nat
  phyAddr : Nat
  pageNums : Nat
  flags : Nat
  refs : Nat

/-! ## The state -/

structure KernelState where
  next : ListRef → ListRef
  prev : ListRef → ListRef
  threads : Ptr → Thread
  procs : Ptr → Proc
  /-- `queue->length`. -/
  queueLength : Ptr → Nat
  /-- `queue_node->content`. -/
  content : Ptr → Ptr
  /-- `vm_map->map_entry`. -/
  mapEntry : Ptr → Ptr
  entries : Ptr → VmMapEntry
  pargs : Ptr → Pargs
  argv : Ptr → Nat → Ptr
  /-- `penvs->pwd`. -/
  pwd : Ptr → Ptr
  strings : Ptr → List UInt8
  pidTable : Nat → Nat
  tidTable : Nat → Nat
  currentThread : Ptr
  currentProc : Ptr
  readyQueue : Ptr
  /-- The thread whose `tcb.context` the pointer points to. -/
  saveContext : Ptr
  loadContext : Ptr
  /-- The table in `cr3`, seen through the direct map. -/
  plm4e : Nat
  paging : PagingState
  /-- The blocks `malloc` handed out and `free` did not take back. -/
  live : List Ptr
  /-- The threads made so far. -/
  created : List Ptr

instance : LinkStore KernelState ListRef where
  next s := s.next
  prev s := s.prev
  setNext s x v := { s with next := Function.update s.next x v }
  setPrev s x v := { s with prev := Function.update s.prev x v }

open LinkStore in
theorem kernelState_lawfulOn (S : Set ListRef) : LawfulOn KernelState S where
  next_setNext s x v y _ _ _ := Function.update_apply s.next x v y
  prev_setNext _ _ _ _ _ _ _ := rfl
  next_setPrev _ _ _ _ _ _ _ := rfl
  prev_setPrev s x v y _ _ _ := Function.update_apply s.prev x v y

namespace KernelState

def setThread (t : Ptr) (f : Thread → Thread) (s : KernelState) : KernelState :=
  { s with threads := Function.update s.threads t (f (s.threads t)) }

def setProc (p : Ptr) (f : Proc → Proc) (s : KernelState) : KernelState :=
  { s with procs := Function.update s.procs p (f (s.procs p)) }

def setEntry (p : Ptr) (v : VmMapEntry) (s : KernelState) : KernelState :=
  { s with entries := Function.update s.entries p v }

end KernelState

/-! ## The first state -/

/-- A kernel without objects, its memory all zero. -/
def bootState : KernelState where
  next _ := .null
  prev _ := .null
  threads _ := Thread.zero
  procs _ := ⟨0, NULL, 0, 0, NULL, NULL, NULL, fun _ => NULL, 0⟩
  queueLength _ := 0
  content _ := NULL
  mapEntry _ := NULL
  entries _ := ⟨0, 0, 0, 0, 0⟩
  pargs _ := ⟨0, NULL⟩
  argv _ _ := NULL
  pwd _ := NULL
  strings _ := []
  pidTable _ := 0
  tidTable _ := 0
  currentThread := NULL
  currentProc := NULL
  readyQueue := NULL
  saveContext := NULL
  loadContext := NULL
  plm4e := phyMapBase + 0x1000
  paging := ⟨fun _ => 0, []⟩
  live := []
  created := []

/-! ## Kernel code -/

/-- What the modelled code does not decide. -/
structure Env where
  /-- What the next `malloc` returns, for an object of any type. -/
  malloc : KernelState → Ptr
  /-- What `page_alloc` returns for a number of pages, and the memory it leaves. -/
  pageAlloc : Nat → Mem → Nat × Mem
  /-- The memory after a file is searched for and up to 4096 bytes of it are read to an address. -/
  readFile : List UInt8 → Nat → Mem → Mem

/-- `malloc` finds a block whenever it is asked. -/
def Env.MallocSucceeds (e : Env) : Prop := ∀ s, e.malloc s ≠ NULL

inductive Fault where
  /-- `assert(load_thread != NULL)` in `sched`. -/
  | noThread
  /-- Any other assertion, or a failed validation of a mapping. -/
  | halted
  /-- A list node taken for an object that it is not part of. -/
  | wildPointer
  /-- A walk that does not come back to the list head. -/
  | endless
  /-- Not a fault of the code: the environment gave a block that was in use. -/
  | environment
  deriving DecidableEq

abbrev Kernel := Program Env Fault KernelState

namespace Kernel

variable {α : Type}

/-- `NULL`, or a block that is not in use. -/
def malloc : Kernel Ptr := do
  let p ← Program.ask Env.malloc
  if p = NULL then pure NULL
  else do
    let live ← Program.gets KernelState.live
    Program.check (p ∉ live ∧ p < 2 ^ 64) .environment
    Program.modify fun s => { s with live := p :: s.live }
    pure p

def free (ptr : Ptr) : Kernel Unit :=
  Program.modify fun s => { s with live := s.live.erase ptr }

/-- `list_entry(it, ..)`. -/
def listEntry (o : Option Ptr) : Kernel Ptr :=
  match o with
  | some p => pure p
  | none => Program.fault .wildPointer

/-- `list_for_each`, from the node `it` on. -/
def listForEachFrom (head : ListRef) (body : ListRef → Kernel Unit) : Nat → ListRef → Kernel Unit
  | 0, _ => Program.fault .endless
  | fuel + 1, it =>
    if it = head then pure ()
    else do
      body it
      let next ← Program.gets fun s => s.next it
      listForEachFrom head body fuel next

def listForEach (head : ListRef) (body : ListRef → Kernel Unit) : Kernel Unit := do
  let it ← Program.gets fun s => s.next head
  listForEachFrom head body walkFuel it

/-- Code of the page tables. -/
def onPaging (x : Paging α) : Kernel α := fun _ s =>
  match x s.paging with
  | (some a, p) => .ok (a, { s with paging := p })
  | (none, _) => .error .halted

/-- `page_alloc(n)`. -/
def pageAlloc (n : Nat) : Kernel Nat := fun e s =>
  let r := e.pageAlloc n s.paging.mem
  .ok (r.1, { s with paging := { s.paging with mem := r.2 } })

end Kernel

/-! ## The heap the objects lie in -/

/-- The blocks in use are different ones, none of them at `NULL`. -/
structure KernelState.HeapOk (s : KernelState) : Prop where
  nodup : s.live.Nodup
  range : ∀ p ∈ s.live, 0 < p ∧ p < 2 ^ 64

theorem KernelState.HeapOk.not_null {s : KernelState} (h : s.HeapOk) : NULL ∉ s.live :=
  fun hp => absurd (h.range NULL hp).1 (Nat.lt_irrefl 0)

/-- Different blocks are fewer than a walk can visit. -/
theorem length_lt_walkFuel {l : List Ptr} (hnd : l.Nodup) (hl : ∀ p ∈ l, 0 < p ∧ p < 2 ^ 64) :
    l.length < walkFuel := by
  have hsub : l ⊆ (List.range (2 ^ 64)).erase 0 := fun p hp => by
    rw [List.mem_erase_of_ne (Nat.pos_iff_ne_zero.mp (hl p hp).1), List.mem_range]
    exact (hl p hp).2
  have hle := (hnd.subperm hsub).length_le
  rw [List.length_erase_of_mem (List.mem_range.mpr (by decide)), List.length_range] at hle
  rw [walkFuel]
  omega

theorem KernelState.HeapOk.length_lt {s : KernelState} (h : s.HeapOk) {l : List Ptr}
    (hnd : l.Nodup) (hl : ∀ p ∈ l, p ∈ s.live) : l.length < walkFuel :=
  length_lt_walkFuel hnd fun p hp => h.range p (hl p hp)

namespace Kernel

variable {e : Env} {s s' : KernelState} {p : Ptr}

/-- `NULL`, or a block that was not in use. -/
theorem malloc_cases (h : malloc e s = .ok (p, s')) : p = e.malloc s ∧
    (p = NULL ∧ s' = s ∨
      p ∉ s.live ∧ 0 < p ∧ p < 2 ^ 64 ∧ s' = { s with live := p :: s.live }) := by
  obtain ⟨q, t, hq, h⟩ := Program.bind_ok.mp h
  cases hq
  by_cases hnull : e.malloc s = NULL
  · rw [if_pos hnull] at h
    cases h
    exact ⟨hnull.symm, .inl ⟨rfl, rfl⟩⟩
  · rw [if_neg hnull] at h
    obtain ⟨live, t, hlive, h⟩ := Program.bind_ok.mp h
    cases hlive
    obtain ⟨u, t, hcheck, h⟩ := Program.bind_ok.mp h
    obtain ⟨⟨hnew, hlt⟩, rfl⟩ := Program.check_ok.mp hcheck
    cases h
    exact ⟨rfl, .inr ⟨hnew, Nat.pos_of_ne_zero hnull, hlt, rfl⟩⟩

/-- A call of `malloc` that succeeds. -/
theorem malloc_ok (he : e.MallocSucceeds) (h : malloc e s = .ok (p, s')) :
    p ∉ s.live ∧ 0 < p ∧ p < 2 ^ 64 ∧ s' = { s with live := p :: s.live } := by
  obtain ⟨hp, ⟨hnull, -⟩ | h'⟩ := malloc_cases h
  · exact absurd (hp.symm.trans hnull) (he s)
  · exact h'

/-- A call of `malloc` returns a block, or the environment breaks its contract. -/
theorem malloc_ends (he : e.MallocSucceeds) {Q : Ptr → KernelState → Prop}
    (hQ : ∀ p, p ∉ s.live → 0 < p → p < 2 ^ 64 → Q p { s with live := p :: s.live }) :
    Program.Ends (· = .environment) malloc e s Q := by
  have hrun : malloc e s = (do
      let live ← Program.gets KernelState.live
      Program.check (e.malloc s ∉ live ∧ e.malloc s < 2 ^ 64) .environment
      Program.modify fun t => { t with live := e.malloc s :: t.live }
      pure (e.malloc s) : Kernel Ptr) e s := by
    rw [malloc, Program.bind_of_ok Program.ask_apply, if_neg (he s)]
  unfold Program.Ends
  rw [hrun, Program.bind_of_ok Program.gets_apply]
  by_cases hfree : e.malloc s ∉ s.live ∧ e.malloc s < 2 ^ 64
  · rw [Program.bind_of_ok (Program.check_of hfree)]
    exact hQ _ hfree.1 (Nat.pos_of_ne_zero (he s)) hfree.2
  · rw [Program.bind_apply, Program.check, if_neg hfree]

end Kernel

theorem avoids_malloc {err : Fault} (herr : .environment ≠ err) :
    Program.Avoids err Kernel.malloc := by
  refine Program.avoids_bind (Program.avoids_ask _) fun p => ?_
  split
  · exact Program.avoids_pure _
  · exact Program.avoids_bind (Program.avoids_gets _) fun _ =>
      Program.avoids_bind (Program.avoids_check _ herr) fun _ =>
      Program.avoids_bind (Program.avoids_modify _) fun _ => Program.avoids_pure _

/-- The only fault of `malloc`. -/
theorem malloc_error {e : Env} {s : KernelState} {err : Fault}
    (h : Kernel.malloc e s = .error err) : err = .environment :=
  Program.eq_of_avoids (fun _ herr => avoids_malloc herr) h

theorem KernelState.HeapOk.cons {s s' : KernelState} {p : Ptr} (h : s.HeapOk)
    (hnew : p ∉ s.live) (hpos : 0 < p) (hlt : p < 2 ^ 64) (hlive : s'.live = p :: s.live) :
    s'.HeapOk := by
  constructor
  · rw [hlive]
    exact List.nodup_cons.mpr ⟨hnew, h.nodup⟩
  · intro q hq
    rw [hlive] at hq
    rcases List.mem_cons.mp hq with rfl | hq
    · exact ⟨hpos, hlt⟩
    · exact h.range q hq

theorem KernelState.HeapOk.erase {s s' : KernelState} {p : Ptr} (h : s.HeapOk)
    (hlive : s'.live = s.live.erase p) : s'.HeapOk := by
  constructor
  · rw [hlive]
    exact h.nodup.erase p
  · intro q hq
    rw [hlive] at hq
    exact h.range q (List.mem_of_mem_erase hq)

end Raincloud
