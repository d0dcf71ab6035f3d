import Raincloud.Arch.Context
import Raincloud.Proc.SchedRun

/-!
# Registers across interrupts

A thread runs until a tick or a system call interrupts it, with any registers. The machine
notes what each thread is due: the registers it was interrupted with, and in `RAX` the return
value if it was a system call of its own. A thread gets what it is due when it is resumed,
unless another thread's `exit` handed the processor to it.
-/

set_option linter.style.nameCheck false

namespace Raincloud

open Infra Kernel

variable {e : Env} {s s' : KernelState} {ns : List Ptr} {t : Ptr}

/-! ## System calls -/

/-- The function a system call reaches. -/
inductive Syscall where
  | fork
  /-- `sys_exit` returns nothing: `rax` is what it leaves in the register. -/
  | exit (status : Int) (rax : Nat)
  | exec (path : List UInt8) (rax : Nat)
  /-- A call that works on files: it changes processes and memory, no thread or list. -/
  | file (procs : Ptr → Proc) (paging : PagingState) (rax : Nat)

/-- The function called and the value in `RAX` when it returns. -/
def Syscall.run : Syscall → Kernel Nat
  | fork => do
    let r ← Raincloud.fork
    return (r % 2 ^ 32).toNat
  | exit status rax => do
    Raincloud.exit status
    return rax
  | exec path rax => do
    Raincloud.exec path
    return rax
  | file procs paging rax => do
    Program.modify fun s => { s with procs := procs, paging := paging }
    return rax

/-- `fork` and `exit` are called by the thread of a process. -/
def Syscall.Enabled (s : KernelState) : Syscall → Prop
  | fork | exit _ _ => s.currentProc ≠ NULL
  | exec _ _ | file _ _ _ => True

/-! ## The machine -/

/-- What each thread is due when it is resumed; nothing if it has not been interrupted yet. -/
abbrev Due := Ptr → Option Context

structure CpuState where
  kernel : KernelState
  regs : Context
  due : Due

inductive Interrupt where
  | tick (regs : Context)
  | syscall (regs : Context) (call : Syscall)

/--
What the thread that made a call is due: its registers, with the return value in `RAX`, which
is 0 for `fork`. A thread that `exec` starts anew is due nothing.
-/
def Syscall.due (s : KernelState) (regs : Context) : Syscall → Option Context
  | fork => some (Function.update regs Context.RAX 0)
  | exit _ _ => none
  | exec _ rax =>
    if s.currentProc = NULL then some (Function.update regs Context.RAX rax) else none
  | file _ _ rax => some (Function.update regs Context.RAX rax)

/-- It starts with the first interrupt: the kernel may have called `exec` before. -/
def cpuMachine : Infra.Machine CpuState Interrupt where
  start s := schedMachine.Reachable s.kernel ∧ s.due = fun _ => none
  step s a s' := ∃ e ret stack, e.MallocSucceeds ∧
    match a with
    | .tick regs =>
      systickHandler regs ret stack e s.kernel = .ok (s'.regs, s'.kernel) ∧
        s'.due = Function.update s.due s.kernel.currentThread (some regs)
    | .syscall regs call =>
      call.Enabled s.kernel ∧
        syscallHandler regs ret stack call.run e s.kernel = .ok (s'.regs, s'.kernel) ∧
        s'.due = Function.update s.due s.kernel.currentThread (call.due s.kernel regs)

theorem SchedInv.current_ne_null (h : SchedInv s ns) : s.currentThread ≠ NULL := fun hc =>
  h.threads.heap.not_null (hc ▸ (h.threads.threads _ h.current.created).own.1)

/-- `context_save` puts the registers into the current thread. -/
theorem contextSave_ok (h : SchedInv s ns) (regs : Context) (ret : Nat) :
    contextSave (pushFrame regs ret) e s
      = .ok ((), s.setThread s.currentThread fun t => { t with context := regs }) := by
  rw [contextSave, Program.modify_apply, h.current.save, if_neg h.current_ne_null]
  simp only [contextSave_pushFrame]

/-- `context_load` gets the context of the current thread. -/
theorem contextLoad_ok (h : SchedInv s ns) (stack : StackFrame) :
    contextLoad stack e s
      = .ok (__contextLoad (s.threads s.currentThread).context stack, s) := by
  rw [contextLoad, Program.gets_apply, h.current.load, if_neg h.current_ne_null]

theorem setThread_thread (t q : Ptr) (f : Thread → Thread) (s : KernelState) :
    (s.setThread t f).threads q = if q = t then f (s.threads t) else s.threads q :=
  Function.update_apply s.threads t _ q

/-- A tick saves the current thread, switches, and loads the thread that is current then. -/
theorem systick_ok {regs regs' : Context} {ret : Nat} {stack : StackFrame} (h : SchedInv s ns)
    (he : e.MallocSucceeds) (hrun : systickHandler regs ret stack e s = .ok (regs', s')) :
    (∃ ns', SchedInv s' ns') ∧ s'.created = s.created ∧
      (∀ t, (s'.threads t).context
        = if t = s.currentThread then regs else (s.threads t).context) ∧
      regs' = (s'.threads s'.currentThread).context := by
  rw [systickHandler, Program.bind_of_ok (contextSave_ok h regs ret)] at hrun
  have h1 : SchedInv (s.setThread s.currentThread fun t => { t with context := regs }) ns :=
    h.setThread fun _ => ⟨rfl, rfl⟩
  obtain ⟨_, s2, hsched, hrun⟩ := Program.bind_ok.mp hrun
  obtain ⟨⟨ns', hinv⟩, hthreads, hc, -⟩ := sched_inv h1.threads he hsched
  rw [Program.bind_of_ok (contextLoad_ok hinv stack)] at hrun
  cases hrun
  refine ⟨⟨ns', hinv⟩, hc, fun t => ?_, popFrame_contextLoad _ _⟩
  rw [hthreads, setThread_thread]
  split <;> rfl

/-- What a call does to the threads. -/
structure CallOk (s s' : KernelState) (call : Syscall) (rax : Nat) : Prop where
  inv : ∃ ns, SchedInv s' ns
  created : ∀ t ∈ s.created, t ∈ s'.created
  others : ∀ t ∈ s.created, t ≠ s.currentThread →
    (s'.threads t).context = (s.threads t).context
  own : ∀ regs c, call.due s regs = some c → s'.currentThread = s.currentThread ∧
    (s'.threads s.currentThread).context = (s.threads s.currentThread).context ∧
    c = Function.update regs Context.RAX rax
  switch : s'.currentThread = s.currentThread ∨
    ∃ status, call = .exit status rax ∧ NextThread (exitStop status s) s'.currentThread

theorem Makes.created_of_mem (h : Makes s s' t) : ∀ q ∈ s.created, q ∈ s'.created :=
  fun q hq => (h.created q).mpr (.inr hq)

theorem Makes.context (h : Makes s s' t) (ht : t ∉ s.created) : ∀ q ∈ s.created,
    (s'.threads q).context = (s.threads q).context := fun q hq => by
  have hne : q ≠ t := fun he => ht (he ▸ hq)
  rw [h.threads q hne]

theorem fork_call {rax : Nat} (h : SchedInv s ns) (hproc : s.currentProc ≠ NULL)
    (he : e.MallocSucceeds) (hrun : Syscall.fork.run e s = .ok (rax, s')) :
    CallOk s s' .fork rax := by
  obtain ⟨r, t, hfork, hrun⟩ := Program.bind_ok.mp hrun
  cases hrun
  obtain ⟨hinv, rfl, hcur, nt, hnt, hmakes⟩ := fork_inv h hproc he hfork
  refine ⟨hinv, hmakes.created_of_mem, fun q hq _ => hmakes.context hnt q hq,
    fun regs c hc => ⟨hcur, hmakes.context hnt _ h.current.created, ?_⟩, .inl hcur⟩
  exact (Option.some.inj hc).symm

theorem exit_call {status : Int} {rax rax' : Nat} (h : SchedInv s ns)
    (hproc : s.currentProc ≠ NULL) (he : e.MallocSucceeds)
    (hrun : (Syscall.exit status rax).run e s = .ok (rax', s')) :
    CallOk s s' (.exit status rax) rax' := by
  obtain ⟨r, t, hexit, hrun⟩ := Program.bind_ok.mp hrun
  cases hrun
  obtain ⟨hinv, hctx, hc, hnext⟩ := exit_inv h hproc he hexit
  refine ⟨hinv, fun q hq => hc ▸ hq, fun q _ _ => hctx q, fun _ _ hdue => ?_,
    .inr ⟨status, rfl, hnext⟩⟩
  cases hdue

theorem exec_call {path : List UInt8} {rax rax' : Nat} (h : SchedInv s ns)
    (he : e.MallocSucceeds) (hrun : (Syscall.exec path rax).run e s = .ok (rax', s')) :
    CallOk s s' (.exec path rax) rax' := by
  obtain ⟨r, t, hexec, hrun⟩ := Program.bind_ok.mp hrun
  cases hrun
  rw [exec, Program.bind_of_ok Program.gets_apply] at hexec
  by_cases hproc : s.currentProc = NULL
  · rw [if_pos hproc] at hexec
    obtain ⟨hinv, hcur, nt, hnt, hmakes⟩ := execKernel_inv h he hexec
    refine ⟨hinv, hmakes.created_of_mem, fun q hq _ => hmakes.context hnt q hq,
      fun regs c hc => ⟨hcur, hmakes.context hnt _ h.current.created, ?_⟩, .inl hcur⟩
    rw [Syscall.due, if_pos hproc] at hc
    exact (Option.some.inj hc).symm
  · rw [if_neg hproc] at hexec
    obtain ⟨hinv, hcur, hc, hthreads⟩ := execProc_inv h hproc hexec
    refine ⟨⟨ns, hinv⟩, fun q hq => (hc q).mpr hq, fun q _ hq => by rw [hthreads q hq],
      fun regs c hc => ?_, .inl hcur⟩
    rw [Syscall.due, if_neg hproc] at hc
    cases hc

theorem file_call {procs : Ptr → Proc} {paging : PagingState} {rax rax' : Nat}
    (h : SchedInv s ns) (hrun : (Syscall.file procs paging rax).run e s = .ok (rax', s')) :
    CallOk s s' (.file procs paging rax) rax' := by
  cases hrun
  have ha : Agrees s.created s { s with procs := procs, paging := paging } :=
    agrees_of ⟨rfl, rfl, rfl, rfl, rfl, rfl, rfl, rfl⟩ (fun _ _ => rfl)
      (fun _ _ => ⟨rfl, rfl⟩) (fun _ _ => ⟨⟨rfl, rfl⟩, ⟨rfl, rfl⟩⟩) (fun _ => id)
  exact ⟨⟨ns, h.step ha ⟨rfl, rfl, rfl, rfl, fun _ => id, id, rfl⟩ fun _ => Iff.rfl⟩,
    fun _ => id, fun _ _ _ => rfl, fun _ c hc => ⟨rfl, rfl, (Option.some.inj hc).symm⟩, .inl rfl⟩

theorem Syscall.ok {call : Syscall} {rax : Nat} (h : SchedInv s ns) (hc : call.Enabled s)
    (he : e.MallocSucceeds) (hrun : call.run e s = .ok (rax, s')) : CallOk s s' call rax := by
  cases call with
  | fork => exact fork_call h hc he hrun
  | exit status r => exact exit_call h hc he hrun
  | exec path r => exact exec_call h he hrun
  | file procs paging r => exact file_call h hrun

/-- A system call saves the current thread, calls its function, stores the value returned, and loads
the thread that is current then. -/
theorem syscall_ok {regs regs' : Context} {ret : Nat} {stack : StackFrame} {call : Syscall}
    (h : SchedInv s ns) (hc : call.Enabled s) (he : e.MallocSucceeds)
    (hrun : syscallHandler regs ret stack call.run e s = .ok (regs', s')) :
    ∃ rax s2, CallOk (s.setThread s.currentThread fun t => { t with context := regs }) s2 call rax ∧
      (∃ ns', SchedInv s' ns') ∧ s'.created = s2.created ∧
      (∀ t, (s'.threads t).context = if t = s2.currentThread then
        Function.update (s2.threads t).context Context.RAX rax else (s2.threads t).context) ∧
      regs' = (s'.threads s'.currentThread).context := by
  rw [syscallHandler, Program.bind_of_ok (contextSave_ok h regs ret)] at hrun
  have hinv1 : SchedInv (s.setThread s.currentThread fun t => { t with context := regs }) ns :=
    h.setThread fun _ => ⟨rfl, rfl⟩
  obtain ⟨rax, s2, hcall, hrun⟩ := Program.bind_ok.mp hrun
  have hcall := Syscall.ok hinv1 (by cases call <;> exact hc) he hcall
  obtain ⟨ns2, hinv2⟩ := hcall.inv
  rw [Program.bind_of_ok Program.modify_apply, hinv2.current.load] at hrun
  have hinv3 : SchedInv (s2.setThread s2.currentThread fun t =>
      { t with context := Function.update t.context Context.RAX rax }) ns2 :=
    hinv2.setThread fun _ => ⟨rfl, rfl⟩
  rw [Program.bind_of_ok (contextLoad_ok hinv3 stack)] at hrun
  cases hrun
  refine ⟨rax, s2, hcall, ⟨ns2, hinv3⟩, rfl, fun t => ?_, popFrame_contextLoad _ _⟩
  rw [setThread_thread]
  by_cases ht : t = s2.currentThread
  · rw [if_pos ht, if_pos ht, ht]
  · rw [if_neg ht, if_neg ht]

end Raincloud
