import Raincloud.Arch.TableRuns
import Raincloud.Proc.Books
import Raincloud.Proc.Resume

/-!
# Privilege over runs

Threads of processes are to run at privilege 3 and threads of the kernel at privilege 0. What
the processor runs at is in the selectors that `context_load` and `iretq` give it, so it is the
contexts that have to be right: a new thread has the selectors of `thread_init`, a forked one
those of its parent, and any other thread those it was interrupted with, and the segments they
stand for are the ones of the descriptor tables.
-/

set_option linter.style.nameCheck false

namespace Raincloud

open Infra Infra.Frame Kernel

variable {e : Env} {s s' : KernelState} {ns : List Ptr} {t p : Ptr} {m : Mem} {cpl : Nat}
  {regs : Context}

/-! ## What the processor accepts -/

/-- A word that may be popped into `FS` or `GS` at privilege 0: no segment, or one to read. -/
def Segments.Loadable (m : Mem) (sel : Nat) : Prop :=
  sel % 2 ^ 16 < 4 ∨ ∃ d, segmentAt m (sel % 2 ^ 16) = some d ∧
    d.s = 1 ∧ (d.type < 8 ∨ d.type / 2 % 2 = 1) ∧ sel % 4 ≤ d.dpl

/-- `context_load` and `iretq` accept these registers, and go on at privilege `cpl` with them. -/
structure Resumable (m : Mem) (cpl : Nat) (regs : Context) : Prop where
  fs : Segments.Loadable m (regs Context.FS)
  gs : Segments.Loadable m (regs Context.GS)
  /-- Code that is not conforming. -/
  cs : ∃ d, Segments.segmentAt m (regs Context.CS % 2 ^ 16) = some d ∧
    d.s = 1 ∧ d.type / 4 = 2 ∧ d.dpl = cpl
  /-- Data that can be written. -/
  ss : ∃ d, Segments.segmentAt m (regs Context.SS % 2 ^ 16) = some d ∧
    d.s = 1 ∧ d.type / 8 = 0 ∧ d.type / 2 % 2 = 1 ∧ d.dpl = cpl
  csLevel : regs Context.CS % 4 = cpl
  ssLevel : regs Context.SS % 4 = cpl

theorem Resumable.setRax (h : Resumable m cpl regs) (rax : Nat) :
    Resumable m cpl (Function.update regs Context.RAX rax) := by
  have hne : ∀ i, i ≠ Context.RAX → Function.update regs Context.RAX rax i = regs i :=
    fun i hi => Function.update_of_ne hi _ _
  have hfs := hne Context.FS (by decide)
  have hgs := hne Context.GS (by decide)
  have hcs := hne Context.CS (by decide)
  have hss := hne Context.SS (by decide)
  exact ⟨hfs ▸ h.fs, hgs ▸ h.gs, hcs ▸ h.cs, hss ▸ h.ss, hcs ▸ h.csLevel, hss ▸ h.ssLevel⟩

/-- The privilege that the threads of a process are meant to run at, or those of the kernel. -/
def levelOf (proc : Ptr) : Nat := if proc = NULL then 0 else 3

def Thread.level (t : Thread) : Nat := levelOf t.proc

/-- The selectors of `thread_init` are right. -/
theorem initialContext_resumable (hm : Segments.TablesReady m) (p : Ptr)
    (entrypoint stackTop : Nat) :
    Resumable m (levelOf p) (initialContext p entrypoint stackTop) := by
  have hcs : initialContext p entrypoint stackTop Context.CS
      = if p = NULL then 0x28 else 0x40 ||| 0x3 := rfl
  have hss : initialContext p entrypoint stackTop Context.SS
      = if p = NULL then 0x8 else 0x20 ||| 0x3 := rfl
  have hload : Segments.Loadable m 0x8 :=
    .inr ⟨_, hm.gdt.segmentAt (by decide), rfl, .inl (by decide), by decide⟩
  unfold levelOf
  by_cases hp : p = NULL
  · rw [if_pos hp] at hcs hss ⊢
    refine ⟨hload, hload, ?_, ?_, hcs ▸ rfl, hss ▸ rfl⟩
    · rw [hcs]
      exact ⟨_, hm.gdt.segmentAt (by decide), rfl, rfl, rfl⟩
    · rw [hss]
      exact ⟨_, hm.gdt.segmentAt (by decide), rfl, rfl, rfl, rfl⟩
  · rw [if_neg hp] at hcs hss ⊢
    refine ⟨hload, hload, ?_, ?_, hcs ▸ rfl, hss ▸ rfl⟩
    · rw [hcs]
      exact ⟨_, hm.gdt.segmentAt (by decide), rfl, rfl, rfl⟩
    · rw [hss]
      exact ⟨_, hm.gdt.segmentAt (by decide), rfl, rfl, rfl, rfl⟩

/-! ## Where contexts come from -/

/-- Where a thread that is there after a call has its process and its context from. -/
inductive Origin (s s' : KernelState) (t : Ptr) : Prop where
  | kept (hold : t ∈ s.created) (hproc : (s'.threads t).proc = (s.threads t).proc)
      (hcontext : (s'.threads t).context = (s.threads t).context)
  /-- By `thread_init`, anew or once more for the thread of a process. -/
  | started (hproc : (s'.threads t).proc ≠ NULL)
      (hold : t ∈ s.created → (s.threads t).proc ≠ NULL)
      (hcontext : (s'.threads t).context = initialContext (s'.threads t).proc 0 4096)
  /-- By `fork`. -/
  | copied (hnew : t ∉ s.created) (hproc : (s'.threads t).proc ≠ NULL)
      (hcurrent : (s.threads s.currentThread).proc ≠ NULL) (rax : Nat)
      (hcontext : (s'.threads t).context
        = Function.update (s.threads s.currentThread).context Context.RAX rax)

theorem Origin.resumable (h : Origin s s' t) (hm : Segments.TablesReady m)
    (hcur : s.currentThread ∈ s.created)
    (hs : ∀ q ∈ s.created, Resumable m (s.threads q).level (s.threads q).context) :
    Resumable m (s'.threads t).level (s'.threads t).context := by
  unfold Thread.level
  cases h with
  | kept hold hproc hcontext =>
    rw [hproc, hcontext]
    exact hs t hold
  | started hproc hold hcontext =>
    rw [hcontext]
    exact initialContext_resumable hm _ 0 4096
  | copied hnew hproc hcurrent rax hcontext =>
    have hlevel : (s.threads s.currentThread).level = levelOf (s'.threads t).proc := by
      rw [Thread.level, levelOf, levelOf, if_neg hcurrent, if_neg hproc]
    rw [hcontext, ← hlevel]
    exact (hs _ hcur).setRax rax

theorem Origin.level (h : Origin s s' t) (ht : t ∈ s.created) :
    (s'.threads t).level = (s.threads t).level := by
  unfold Thread.level
  cases h with
  | kept hold hproc hcontext => rw [hproc]
  | started hproc hold hcontext => rw [levelOf, levelOf, if_neg hproc, if_neg (hold ht)]
  | copied hnew hproc hcurrent rax hcontext => exact absurd ht hnew

theorem queueEnqueue_threads {q c : Ptr} {u : Unit} (hrun : queueEnqueue q c e s = .ok (u, s')) :
    s'.threads = s.threads := by
  obtain ⟨n, s1, hm, hmod⟩ := Program.bind_ok.mp hrun
  have hmalloc : s1.threads = s.threads := by rw [(still_malloc _ _ _ _ hm).same]
  cases hmod
  exact hmalloc

theorem procDup_threads {new old : Ptr} {u : Unit} (hrun : procDup new old e s = .ok (u, s')) :
    s'.threads = s.threads := by
  obtain ⟨q, args, envs, vmMap, hq, rfl⟩ := procDup_ok hrun
  rw [procInit_threads, hq.same]

theorem fork_origin {r : Int} (h : SchedInv s ns) (hproc : s.currentProc ≠ NULL)
    (he : e.MallocSucceeds) (hrun : fork e s = .ok (r, s')) : ∀ t ∈ s'.created, Origin s s' t := by
  intro t ht
  obtain ⟨nt, np, s1, s3, s5, s7, hm1, hm3, hdup, hen, henq, -, pid, rfl⟩ :=
    fork_run h hproc he hrun
  obtain ⟨-, hmakes, -⟩ := hen.enqueue h he henq
  by_cases hnt : t = nt
  · subst hnt
    have hnp : np ≠ NULL := Nat.pos_iff_ne_zero.mp (malloc_ok he hm3).2.1
    have h1 : s1.threads = s.threads := by rw [(still_malloc _ _ _ _ hm1).same]
    have h3 : s3.threads = (threadDup t s.currentThread s1).threads := by
      rw [(still_malloc _ _ _ _ hm3).same]
    have h7 : s7.threads t = { s.threads s.currentThread with
        tid := (tidAlloc s1).1, proc := np } := by
      rw [queueEnqueue_threads henq, threadAttach_threads, Function.update_self,
        procDup_threads hdup, h3, threadDup_thread, if_pos rfl, h1]
    have hself : ∀ f, (s7.setThread t f).threads t = f (s7.threads t) :=
      fun f => Function.update_self ..
    refine .copied hen.fresh ?_ ?_ pid ?_
    · rw [hself, h7]
      exact hnp
    · rw [← h.current.proc]
      exact hproc
    · rw [hself, h7]
  · have hold := (hmakes.created t).mp ht
    have hsame : (s7.setThread nt fun x =>
        { x with context := Function.update x.context Context.RAX pid }).threads t
        = s.threads t := by
      rw [setThread_thread, if_neg hnt]
      exact hmakes.threads t hnt
    exact .kept (hold.resolve_left hnt) (congrArg Thread.proc hsame) (congrArg Thread.context hsame)

theorem exit_origin {status : Int} {u : Unit} (h : SchedInv s ns) (hproc : s.currentProc ≠ NULL)
    (he : e.MallocSucceeds) (hrun : exit status e s = .ok (u, s')) :
    ∀ t ∈ s'.created, Origin s s' t := by
  intro t ht
  obtain ⟨-, hctx, hc, -⟩ := exit_inv h hproc he hrun
  rw [exit_eq status h hproc] at hrun
  obtain ⟨_, s1, hchildren, hsched⟩ := Program.bind_ok.mp hrun
  obtain ⟨hok, -⟩ := exitChildren_ok h hproc hchildren
  obtain ⟨-, hthreads, -⟩ := sched_inv hok he hsched
  have hprocs : procsOnly.rel (exitStop status s) s1 := by
    refine keeps_listForEach (F := procsOnly) (fun it => ?_) _ _ _ _ hchildren
    exact keeps_bind (keeps_listEntry _) fun _ => keeps_modify fun _ => rfl
  have hstop : s1.threads = (exitStop status s).threads := by rw [hprocs]
  refine .kept (hc ▸ ht) ?_ (hctx t)
  rw [hthreads, hstop]
  show (Function.update s.threads s.currentThread _ t).proc = _
  rw [Function.update_apply]
  split
  · rename_i heq
    rw [heq]
    rfl
  · rfl

theorem execKernel_origin {path : List UInt8} {u : Unit} (h : SchedInv s ns)
    (he : e.MallocSucceeds) (hrun : execKernel path e s = .ok (u, s')) :
    ∀ t ∈ s'.created, Origin s s' t := by
  intro t ht
  obtain ⟨nt, np, args, envs, vmMap, s3, s4, s6, -, hm4, hm6, hen, henq⟩ := execKernel_run h he hrun
  obtain ⟨-, hmakes, -⟩ := hen.enqueue h he henq
  by_cases hnt : t = nt
  · subst hnt
    have hnp : np ≠ NULL := Nat.pos_iff_ne_zero.mp (malloc_ok he hm4).2.1
    have hthread : s'.threads t = ⟨(tidAlloc s6).1, 0, np, initialContext np 0 4096⟩ := by
      rw [queueEnqueue_threads henq, threadInit_thread 0 4096 hnp, if_pos rfl]
    refine .started ?_ (fun hold => absurd hold hen.fresh) ?_
    · rw [hthread]
      exact hnp
    · rw [hthread]
  · have hold := ((hmakes.created t).mp ht).resolve_left hnt
    have hsame := hmakes.threads t hnt
    exact .kept hold (congrArg Thread.proc hsame) (congrArg Thread.context hsame)

theorem execProc_origin {path : List UInt8} {u : Unit} (h : SchedInv s ns)
    (hproc : s.currentProc ≠ NULL) (hrun : execProc path s.currentProc e s = .ok (u, s')) :
    ∀ t ∈ s'.created, Origin s s' t := by
  intro t ht
  obtain ⟨-, -, hc, hothers⟩ := execProc_inv h hproc hrun
  by_cases hcur : t = s.currentThread
  · obtain ⟨newMap, s1, s4, -, -, rfl⟩ := execProc_run hrun
    have hthread := threadInit_thread (s := s4) (t := s.currentThread) 0 4096 hproc t
    rw [if_pos hcur] at hthread
    refine .started ?_ (fun _ => ?_) ?_
    · rw [hthread]
      exact hproc
    · rw [hcur, ← h.current.proc]
      exact hproc
    · rw [hthread]
  · have hsame := hothers t hcur
    exact .kept ((hc t).mp ht) (congrArg Thread.proc hsame) (congrArg Thread.context hsame)

theorem exec_origin {path : List UInt8} {u : Unit} (h : SchedInv s ns) (he : e.MallocSucceeds)
    (hrun : exec path e s = .ok (u, s')) : ∀ t ∈ s'.created, Origin s s' t := by
  rw [exec, Program.bind_of_ok Program.gets_apply] at hrun
  by_cases hproc : s.currentProc = NULL
  · rw [if_pos hproc] at hrun
    exact execKernel_origin h he hrun
  · rw [if_neg hproc] at hrun
    exact execProc_origin h hproc hrun

/-- Of no call does a thread come back with a context that was not there or made for a process. -/
theorem Syscall.origin {call : Syscall} {rax : Nat} (h : SchedInv s ns) (hc : call.Enabled s)
    (he : e.MallocSucceeds) (hrun : call.run e s = .ok (rax, s')) :
    ∀ t ∈ s'.created, Origin s s' t := by
  cases call with
  | fork =>
    obtain ⟨r, s1, hfork, hrun⟩ := Program.bind_ok.mp hrun
    cases hrun
    exact fork_origin h hc he hfork
  | exit status r =>
    obtain ⟨_, s1, hexit, hrun⟩ := Program.bind_ok.mp hrun
    cases hrun
    exact exit_origin h hc he hexit
  | exec path r =>
    obtain ⟨_, s1, hexec, hrun⟩ := Program.bind_ok.mp hrun
    cases hrun
    exact exec_origin h he hexec
  | file procs paging r =>
    cases hrun
    exact fun t ht => .kept ht rfl rfl

/-! ## The machine -/

/-- The privilege of the thread that runs. -/
def KernelState.level (s : KernelState) : Nat := (s.threads s.currentThread).level

/-- The registers that an interrupt finds. -/
def Interrupt.found : Interrupt → Context
  | .tick regs | .syscall regs _ => regs

/-- A call of `exec` by `main`. -/
def ByKernel (_ : KernelState) (c : SchedCall) : Prop := ∃ path, c = .exec path

/--
The machine of `Proc/Resume` from boot on. Up to the first interrupt `main` has only called
`exec`, and between interrupts the processor keeps the privilege it runs at, in segments that the
tables give it.
-/
def privilegeMachine (m : Mem) : Infra.Machine CpuState Interrupt where
  start s := (schedMachine.restrict ByKernel).Reachable s.kernel ∧ s.due = fun _ => none
  step s a s' := Resumable m s.kernel.level a.found ∧ cpuMachine.step s a s'

/-- All threads but the one that runs have contexts they can be resumed with. -/
structure PrivilegeInv (m : Mem) (s : KernelState) : Prop where
  sched : ∃ ns, SchedInv s ns
  waiting : ∀ t ∈ s.created, t ≠ s.currentThread →
    Resumable m (s.threads t).level (s.threads t).context

/-- While `main` runs there are no threads but its own and those of first processes. -/
theorem byKernel_inv (hm : Segments.TablesReady m)
    (h : (schedMachine.restrict ByKernel).Reachable s) :
    PrivilegeInv m s ∧ (s.threads s.currentThread).proc = NULL := by
  refine h.invariant (fun s => PrivilegeInv m s ∧ (s.threads s.currentThread).proc = NULL) ?_ ?_
  · rintro s ⟨e, s₀, he, hheap, hnone, hrun⟩
    obtain ⟨ns, hinv⟩ := schedInit_inv hheap hnone he hrun
    obtain ⟨t, hfirst⟩ := schedInit_first hnone hrun
    have hcur : s.currentThread = t := by
      have hmem := hinv.current.created
      rw [hfirst.created] at hmem
      exact List.mem_singleton.mp hmem
    refine ⟨⟨⟨ns, hinv⟩, fun q hq hne => ?_⟩, hcur ▸ hfirst.proc⟩
    rw [hfirst.created] at hq
    exact absurd ((List.mem_singleton.mp hq).trans hcur.symm) hne
  · rintro s c s' ⟨⟨⟨ns, hinv⟩, hwaiting⟩, hnull⟩ ⟨⟨path, rfl⟩, -, e, he, hrun⟩
    have hproc : s.currentProc = NULL := hinv.current.proc.trans hnull
    have horigin := exec_origin hinv he hrun
    obtain ⟨hinv', hcur, -⟩ : (∃ ns', SchedInv s' ns') ∧ s'.currentThread = s.currentThread ∧
        ∃ t, t ∉ s.created ∧ Makes s s' t := by
      rw [SchedCall.run, exec, Program.bind_of_ok Program.gets_apply, if_pos hproc] at hrun
      exact execKernel_inv hinv he hrun
    have hcreated : s.currentThread ∈ s'.created := by
      obtain ⟨ns', hinv'⟩ := hinv'
      exact hcur ▸ hinv'.current.created
    refine ⟨⟨hinv', fun t ht hne => ?_⟩, ?_⟩
    · rw [hcur] at hne
      unfold Thread.level
      cases horigin t ht with
      | kept hold hp hc =>
        rw [hp, hc]
        exact hwaiting t hold hne
      | started hp hold hc =>
        rw [hc]
        exact initialContext_resumable hm _ 0 4096
      | copied hnew hp hcurrent rax hc => exact absurd hnull hcurrent
    · rw [hcur]
      cases horigin s.currentThread hcreated with
      | kept hold hp hc => exact hp.trans hnull
      | started hp hold hc => exact absurd hnull (hold hinv.current.created)
      | copied hnew hp hcurrent rax hc => exact absurd hnull hcurrent

/-- What one interrupt leaves behind. -/
structure Interrupted (m : Mem) (s s' : CpuState) : Prop where
  sched : ∃ ns, SchedInv s'.kernel ns
  /-- The registers that are loaded are those of the thread that runs next. -/
  regs : s'.regs = (s'.kernel.threads s'.kernel.currentThread).context
  contexts : ∀ t ∈ s'.kernel.created,
    Resumable m (s'.kernel.threads t).level (s'.kernel.threads t).context
  created : ∀ t ∈ s.kernel.created, t ∈ s'.kernel.created
  level : ∀ t ∈ s.kernel.created, (s'.kernel.threads t).level = (s.kernel.threads t).level

/-- The thread that runs is saved with registers it can be resumed with, as all others are. -/
theorem PrivilegeInv.saved (h : PrivilegeInv m s) (hregs : Resumable m s.level regs) :
    ∀ t ∈ s.created, Resumable m (s.threads t).level
      ((s.setThread s.currentThread fun t => { t with context := regs }).threads t).context := by
  intro t ht
  rw [setThread_thread]
  by_cases hcur : t = s.currentThread
  · rw [if_pos hcur, hcur]
    exact hregs
  · rw [if_neg hcur]
    exact h.waiting t ht hcur

/-- The state in which a handler calls its function. -/
def KernelState.save (s : KernelState) (regs : Context) : KernelState :=
  s.setThread s.currentThread fun t => { t with context := regs }

theorem save_thread (regs : Context) (t : Ptr) :
    ((s.save regs).threads t).proc = (s.threads t).proc := by
  unfold KernelState.save
  rw [setThread_thread]
  by_cases ht : t = s.currentThread
  · rw [if_pos ht, ht]
  · rw [if_neg ht]

theorem save_inv (h : SchedInv s ns) (regs : Context) : SchedInv (s.save regs) ns :=
  h.setThread fun _ => ⟨rfl, rfl⟩

theorem systick_run {regs' : Context} {ret : Nat} {stack : StackFrame} (h : SchedInv s ns)
    (he : e.MallocSucceeds) (hrun : systickHandler regs ret stack e s = .ok (regs', s')) :
    s'.threads = (s.save regs).threads := by
  rw [systickHandler, Program.bind_of_ok (contextSave_ok h regs ret)] at hrun
  obtain ⟨_, s2, hsched, hrun⟩ := Program.bind_ok.mp hrun
  obtain ⟨⟨ns', hinv⟩, hthreads, -⟩ := sched_inv (save_inv h regs).threads he hsched
  rw [Program.bind_of_ok (contextLoad_ok hinv stack)] at hrun
  cases hrun
  exact hthreads

theorem syscall_run {regs' : Context} {ret : Nat} {stack : StackFrame} {call : Syscall}
    (h : SchedInv s ns) (hc : call.Enabled s) (he : e.MallocSucceeds)
    (hrun : syscallHandler regs ret stack call.run e s = .ok (regs', s')) :
    ∃ rax s2, call.run e (s.save regs) = .ok (rax, s2) ∧ CallOk (s.save regs) s2 call rax ∧
      s' = s2.setThread s2.currentThread fun t =>
        { t with context := Function.update t.context Context.RAX rax } := by
  rw [syscallHandler, Program.bind_of_ok (contextSave_ok h regs ret)] at hrun
  obtain ⟨rax, s2, hcall, hrun⟩ := Program.bind_ok.mp hrun
  have hok := Syscall.ok (save_inv h regs) (by cases call <;> exact hc) he hcall
  obtain ⟨ns2, hinv2⟩ := hok.inv
  rw [Program.bind_of_ok Program.modify_apply, hinv2.current.load] at hrun
  have hinv3 : SchedInv (s2.setThread s2.currentThread fun t =>
      { t with context := Function.update t.context Context.RAX rax }) ns2 :=
    hinv2.setThread fun _ => ⟨rfl, rfl⟩
  rw [Program.bind_of_ok (contextLoad_ok hinv3 stack)] at hrun
  cases hrun
  exact ⟨rax, s2, hcall, hok, rfl⟩

theorem tick_interrupted {s s' : CpuState} {ret : Nat} {stack : StackFrame}
    (h : PrivilegeInv m s.kernel) (hregs : Resumable m s.kernel.level regs)
    (he : e.MallocSucceeds)
    (hrun : systickHandler regs ret stack e s.kernel = .ok (s'.regs, s'.kernel)) :
    Interrupted m s s' := by
  obtain ⟨ns, hinv⟩ := h.sched
  obtain ⟨hinv', hc, -, hloaded⟩ := systick_ok hinv he hrun
  have hthreads := systick_run hinv he hrun
  have hlevel : ∀ t, (s'.kernel.threads t).level = (s.kernel.threads t).level := fun t => by
    unfold Thread.level
    rw [hthreads, save_thread]
  refine ⟨hinv', hloaded, fun t ht => ?_, fun t ht => hc ▸ ht, fun t _ => hlevel t⟩
  rw [hlevel, hthreads]
  exact h.saved hregs t (hc ▸ ht)

theorem syscall_interrupted {s s' : CpuState} {ret : Nat} {stack : StackFrame} {call : Syscall}
    (hm : Segments.TablesReady m) (h : PrivilegeInv m s.kernel)
    (hregs : Resumable m s.kernel.level regs) (hcall : call.Enabled s.kernel)
    (he : e.MallocSucceeds)
    (hrun : syscallHandler regs ret stack call.run e s.kernel = .ok (s'.regs, s'.kernel)) :
    Interrupted m s s' := by
  obtain ⟨ns, hinv⟩ := h.sched
  obtain ⟨-, -, -, hinv', -, -, hloaded⟩ := syscall_ok hinv hcall he hrun
  obtain ⟨rax, s2, hrun2, hok, hs'⟩ := syscall_run hinv hcall he hrun
  have horigin := Syscall.origin (save_inv hinv regs) (by cases call <;> exact hcall) he hrun2
  have hcreated : s'.kernel.created = s2.created := by rw [hs']; rfl
  have hlevel2 : ∀ t, (s'.kernel.threads t).level = (s2.threads t).level := fun t => by
    rw [hs', setThread_thread]
    by_cases ht : t = s2.currentThread
    · rw [if_pos ht, ht]
      rfl
    · rw [if_neg ht]
  have hlevel1 : ∀ t, ((s.kernel.save regs).threads t).level = (s.kernel.threads t).level :=
    fun t => by
      unfold Thread.level
      rw [save_thread]
  have hctx2 : ∀ t ∈ s2.created, Resumable m (s2.threads t).level (s2.threads t).context :=
    fun t ht => (horigin t ht).resumable hm hinv.current.created fun q hq => by
      rw [hlevel1]
      exact h.saved hregs q hq
  refine ⟨hinv', hloaded, fun t ht => ?_, fun t ht => ?_, fun t ht => ?_⟩
  · rw [hlevel2, hs', setThread_thread]
    by_cases hcur : t = s2.currentThread
    · -- the value the call returned goes into `RAX` of the thread that runs next
      rw [if_pos hcur, ← hcur]
      exact (hctx2 t (hcreated ▸ ht)).setRax rax
    · rw [if_neg hcur]
      exact hctx2 t (hcreated ▸ ht)
  · rw [hcreated]
    exact hok.created t ht
  · rw [hlevel2, ← hlevel1]
    exact (horigin t (hok.created t ht)).level ht

theorem step_interrupted {s s' : CpuState} {a : Interrupt} (hm : Segments.TablesReady m)
    (h : PrivilegeInv m s.kernel) (hstep : (privilegeMachine m).step s a s') :
    Interrupted m s s' := by
  obtain ⟨hregs, e, ret, stack, he, hrun⟩ := hstep
  cases a with
  | tick regs => exact tick_interrupted h hregs he hrun.1
  | syscall regs call => exact syscall_interrupted hm h hregs hrun.1 he hrun.2.1

theorem privilegeMachine_inv {s : CpuState} (hm : Segments.TablesReady m)
    (h : (privilegeMachine m).Reachable s) : PrivilegeInv m s.kernel := by
  refine h.invariant (fun s => PrivilegeInv m s.kernel) ?_ ?_
  · rintro s ⟨hstart, -⟩
    exact (byKernel_inv hm hstart).1
  · intro s a s' hinv hstep
    have hdone := step_interrupted hm hinv hstep
    exact ⟨hdone.sched, fun t ht _ => hdone.contexts t ht⟩

/--
**No thread leaves its privilege.** In every run from boot, whatever handlers were registered
before, each interrupt is left with registers that `context_load` and `iretq` accept, at the
privilege of the thread that runs next: 3 for a thread of a process and 0 for one of the kernel.
No thread that waits could be resumed otherwise, and none ever changes from one to the other.
-/
theorem privilege_of_run {calls : List Segments.IntCall} (handler : Nat) (dsc m₀ : Mem)
    (hcalls : ∀ c ∈ calls, c.Valid)
    (hm : Segments.runCalls calls (Segments.bootTables handler dsc m₀) = some m)
    {s s' : CpuState} {a : Interrupt} (h : (privilegeMachine m).Reachable s)
    (hstep : (privilegeMachine m).step s a s') :
    Resumable m s'.kernel.level s'.regs ∧
    (∀ t ∈ s'.kernel.created,
      Resumable m (s'.kernel.threads t).level (s'.kernel.threads t).context) ∧
    ∀ t ∈ s.kernel.created, t ∈ s'.kernel.created ∧
      (s'.kernel.threads t).level = (s.kernel.threads t).level := by
  have htables := Segments.tablesReady_of_run hcalls hm
  have hdone := step_interrupted htables (privilegeMachine_inv htables h) hstep
  refine ⟨?_, hdone.contexts, fun t ht => ⟨hdone.created t ht, hdone.level t ht⟩⟩
  obtain ⟨ns, hinv⟩ := hdone.sched
  rw [hdone.regs]
  exact hdone.contexts _ hinv.current.created

/-- Two ticks while `main` runs on behind an `exec`, and the privilege in between. -/
def twoTicks : Kernel (Nat × Context × Context) := do
  schedInit
  exec []
  let regs ← systickHandler (initialContext NULL 0 0) 0 fun _ => 0
  let level ← Program.gets KernelState.level
  let regs' ← systickHandler (initialContext NULL 0 0) 0 fun _ => 0
  return (level, regs, regs')

theorem twoTicks_calls {level : Nat} {r1 r2 : Context}
    (h : twoTicks e s = .ok ((level, r1, r2), s')) : ∃ s0 s1 s2,
      schedInit e s = .ok ((), s0) ∧ exec [] e s0 = .ok ((), s1) ∧
      systickHandler (initialContext NULL 0 0) 0 (fun _ => 0) e s1 = .ok (r1, s2) ∧
      s2.level = level ∧
      systickHandler (initialContext NULL 0 0) 0 (fun _ => 0) e s2 = .ok (r2, s') := by
  obtain ⟨_, s0, hinit, h⟩ := Program.bind_ok.mp h
  obtain ⟨_, s1, hexec, h⟩ := Program.bind_ok.mp h
  obtain ⟨r, s2, htick, h⟩ := Program.bind_ok.mp h
  rw [Program.bind_of_ok Program.gets_apply] at h
  obtain ⟨r', s3, htick', h⟩ := Program.bind_ok.mp h
  cases h
  exact ⟨s0, s1, s2, hinit, hexec, htick, rfl, htick'⟩

theorem twoTicks_level : ∃ r1 r2 s, twoTicks bumpEnv bootState = .ok ((0, r1, r2), s) ∧
    s.level = 3 := by
  have h : (match twoTicks bumpEnv bootState with
      | .ok ((level, _, _), s) => decide (level = 0 ∧ s.level = 3)
      | .error _ => false) = true := by
    decide +kernel
  split at h
  · next level r1 r2 s hrun =>
    obtain ⟨rfl, hlevel⟩ := of_decide_eq_true h
    exact ⟨r1, r2, s, hrun, hlevel⟩
  · cases h

/-- The second tick gives the processor to the first process, at privilege 3. -/
theorem privilege_of_run_twoTicks :
    ∃ (m : Mem) (s : CpuState), s.kernel.level = 3 ∧ Resumable m 3 s.regs := by
  obtain ⟨m, hm⟩ := Segments.intInitCalls_run (Segments.bootTables 0x2000 (fun _ => 0) fun _ => 0)
  have htables := Segments.tablesReady_of_run Segments.intInitCalls_valid hm
  obtain ⟨r1, r2, s, hrun, hlevel⟩ := twoTicks_level
  obtain ⟨s0, s1, s2, hinit, hexec, hrun1, hlevel2, hrun2⟩ := twoTicks_calls hrun
  have hk : (schedMachine.restrict ByKernel).Reachable s1 := by
    refine .step (a := .exec []) (.start ?_) ⟨⟨[], rfl⟩, trivial, bumpEnv, bumpEnv_malloc, hexec⟩
    exact ⟨bumpEnv, bootState, bumpEnv_malloc, bootState_heap, rfl, hinit⟩
  have hmain : Resumable m 0 (initialContext NULL 0 0) := initialContext_resumable htables NULL 0 0
  have hlevel1 : s1.level = 0 := by
    unfold KernelState.level Thread.level
    rw [(byKernel_inv htables hk).2]
    rfl
  have htick : ∀ (c : CpuState) s' r', c.kernel.level = 0 →
      systickHandler (initialContext NULL 0 0) 0 (fun _ => 0) bumpEnv c.kernel = .ok (r', s') →
      (privilegeMachine m).step c (.tick (initialContext NULL 0 0)) ⟨s', r', Function.update c.due
        c.kernel.currentThread (some (initialContext NULL 0 0))⟩ := fun c s' r' hc hrun => by
    refine ⟨?_, bumpEnv, 0, fun _ => 0, bumpEnv_malloc, hrun, rfl⟩
    rw [hc]
    exact hmain
  have h1 : (privilegeMachine m).Reachable ⟨s1, r1, fun _ => none⟩ := .start ⟨hk, rfl⟩
  have h2 := Machine.Reachable.step h1 (htick _ s2 r1 hlevel1 hrun1)
  obtain ⟨hres, -⟩ := privilege_of_run 0x2000 (fun _ => 0) (fun _ => 0)
    Segments.intInitCalls_valid hm h2 (htick _ s r2 hlevel2 hrun2)
  exact ⟨m, _, hlevel, hlevel ▸ hres⟩

end Raincloud
