import Raincloud.Infra.Run
import Raincloud.Proc.ExecExit

/-!
# Runs of the scheduler

From the state `sched_init` leaves, through any ticks, forks, exits and execs: no thread is
lost, none is in the queue twice, and there is always one to run.
-/

set_option linter.style.nameCheck false

namespace Raincloud

open Infra Infra.LinkStore Infra.Frame Kernel

variable {e : Env} {s s' : KernelState} {ns : List Ptr} {u : Unit}

/-! ## The start -/

/-- The first thread, alone in the queue. -/
theorem threadsOk_first {q t : Ptr} (he : e.MallocSucceeds) (hheap : s.HeapOk)
    (hq : QueueAt s q []) (hready : s.readyQueue = q) (hc : s.created = [t]) (ht : t ∈ s.live)
    (hthread : (s.threads t).proc = NULL ∧ (s.threads t).status = 0)
    (hrun : queueEnqueue q t e s = .ok (u, s')) :
    ∃ ns, ThreadsOk s' ns s'.created ∧ QueueFrame s s' := by
  obtain ⟨n, hn, hlive, hheap', hq', hcontent, hframe⟩ := queueEnqueue_ok he hq hheap hrun
  have hthreads := hframe.threads
  have hc' : s'.created = [t] := by
    rw [hframe.same]
    exact hc
  have hmap : [n].map s'.content = [t] := by
    rw [hcontent, List.map_singleton, Function.update_self]
  have hruns : (s'.threads t).status ≠ -1 := by
    rw [hthreads, hthread.2]
    decide
  have hproc : (s'.threads t).proc = NULL := by rw [hthreads, hthread.1]
  refine ⟨[n], ⟨hheap', ?_, fun m hm => ?_, ?_, fun r hr _ => ?_, fun r hr => ?_, ?_⟩, hframe⟩
  · rw [hframe.readyQueue, hready]
    exact hq'
  · rw [hc', ← hmap]
    exact List.mem_map_of_mem hm
  · rw [hmap]
    simp
  · rw [hmap, ← hc']
    exact hr
  · rw [hc'] at hr
    rw [List.mem_singleton.mp hr]
    refine ⟨⟨by rw [hlive]; exact List.mem_cons_of_mem n ht, fun hmem => ?_⟩, ?_, ?_, ?_⟩
    · exact hn (List.mem_singleton.mp hmem ▸ ht)
    · exact fun hp => absurd hproc hp
    · exact fun hp => absurd hproc hp
    · exact fun hp => absurd hproc hp
  · exact ⟨t, by rw [hc']; simp, hproc, hruns⟩

/-- The queue `sched_init` makes stays empty while it makes the thread. -/
theorem queueAt_initThread {q t : Ptr} (h : QueueAt s q [])
    (hprev : s.prev .threadList = .threadList) : QueueAt (schedInitThread t s) q [] := by
  refine h.congr (fun r hr => ?_) rfl fun _ => id
  refine sameLinks_listAdd (s := (tidAlloc { s with
    currentThread := t, created := s.created.insert t }).2.setThread t _)
    lawful trivial trivial trivial trivial ?_ ?_ ?_
  · exact fun he => by rw [he] at hr; exact hr
  · show r ≠ s.prev .threadList
    rw [hprev]
    exact fun he => by rw [he] at hr; exact hr
  · exact fun he => by rw [he] at hr; exact hr

theorem schedInitThread_thread (t : Ptr) (s : KernelState) :
    ((schedInitThread t s).threads t).proc = NULL ∧ ((schedInitThread t s).threads t).status = 0 := by
  have h : (schedInitThread t s).threads t
      = { (Function.update s.threads t { s.threads t with tid := (tidAlloc s).1 } t) with
        proc := NULL, status := 0, context := Context.zero } := Function.update_self ..
  rw [h]
  exact ⟨rfl, rfl⟩

theorem schedInitLists_prev (q : Ptr) (s : KernelState) :
    (schedInitQueue q s).prev .threadList = s.prev .threadList ∧
      (schedInitLists s).prev .threadList = .threadList := by
  constructor
  · show prev (listInit { s with readyQueue := q } (ListRef.queueHead q)) ListRef.threadList = _
    rw [prev_listInit lawful trivial trivial, if_neg (by simp)]
    rfl
  · show prev (listInit (listInit { s with currentProc := NULL } ListRef.threadList)
      ListRef.procList) ListRef.threadList = _
    rw [prev_listInit lawful trivial trivial, if_neg (by simp),
      prev_listInit lawful trivial trivial, if_pos rfl]

/-- `sched_init` leaves one thread, which runs and is queued. -/
theorem schedInit_inv (hheap : s.HeapOk) (hnone : s.created = []) (he : e.MallocSucceeds)
    (hrun : schedInit e s = .ok (u, s')) : ∃ ns, SchedInv s' ns := by
  rw [schedInit, Program.bind_of_ok Program.modify_apply] at hrun
  obtain ⟨q, s1, hm1, hrun⟩ := Program.bind_ok.mp hrun
  have hq1 := still_malloc _ _ _ _ hm1
  rw [Program.bind_of_ok Program.modify_apply] at hrun
  obtain ⟨t, s3, hm3, hrun⟩ := Program.bind_ok.mp hrun
  obtain ⟨t', s2, hm2, hm3⟩ := Program.bind_ok.mp hm3
  rw [Program.bind_of_ok Program.modify_apply] at hm3
  cases hm3
  obtain ⟨ht, htpos, htlt, hs2⟩ := malloc_ok he hm2
  rw [Program.bind_of_ok Program.modify_apply] at hrun
  obtain ⟨_, s7, henq, hrun⟩ := Program.bind_ok.mp hrun
  cases hrun
  have hlists : (schedInitLists s).HeapOk := ⟨hheap.nodup, hheap.range⟩
  obtain ⟨hheap1, -⟩ := hq1.heap hlists
  have hheap2 : s2.HeapOk := by
    refine KernelState.HeapOk.cons (s := schedInitQueue q s1) ⟨hheap1.nodup, hheap1.range⟩ ht
      htpos htlt (by rw [hs2])
  have hqueue : QueueAt s2 q [] := by
    rw [hs2]
    exact (queueAt_init q { s1 with readyQueue := q }).congr (fun _ _ => ⟨rfl, rfl⟩) rfl
      fun _ => List.mem_cons_of_mem t
  have hprev : s2.prev .threadList = .threadList := by
    rw [hs2]
    show (schedInitQueue q s1).prev .threadList = _
    rw [(schedInitLists_prev q s1).1, hq1.prev_eq]
    exact (schedInitLists_prev q s).2
  obtain ⟨s4, hs4⟩ : ∃ s4, s4 = schedInitThread t (s2.setThread t fun _ => Thread.zero) := ⟨_, rfl⟩
  rw [← hs4] at henq
  have hq4 : QueueAt s4 q [] := by
    rw [hs4]
    exact queueAt_initThread (hqueue.congr (fun _ _ => ⟨rfl, rfl⟩) rfl fun _ => id) hprev
  have hlive4 : s4.live = s2.live := by
    rw [hs4]
    rfl
  have hc4 : s4.created = [t] := by
    rw [hs4]
    show s2.created.insert t = [t]
    rw [hs2]
    show (schedInitQueue q s1).created.insert t = [t]
    rw [show (schedInitQueue q s1).created = s1.created from rfl, hq1.same]
    show s.created.insert t = [t]
    rw [hnone]
    rfl
  have hready : s4.readyQueue = q := by
    rw [hs4]
    show s2.readyQueue = q
    rw [hs2]
    rfl
  have hproc4 : s4.currentProc = NULL := by
    rw [hs4]
    show s2.currentProc = NULL
    rw [hs2]
    show s1.currentProc = NULL
    rw [hq1.same]
    rfl
  have hthread4 : (s4.threads t).proc = NULL ∧ (s4.threads t).status = 0 := by
    rw [hs4]
    exact schedInitThread_thread t _
  obtain ⟨ns, hok, hframe⟩ := threadsOk_first he (heap_refl hlive4 hheap2).1 hq4 hready hc4
    (by rw [hlive4, hs2]; exact List.mem_cons_self) hthread4 henq
  have hcur : s7.currentThread = t := by
    rw [hframe.same, hs4]
    rfl
  have h7 : s7.threads t = s4.threads t := congrFun hframe.threads t
  refine ⟨ns, hok.agrees ⟨heap_refl rfl, rfl, rfl, rfl, fun _ _ => ⟨rfl, rfl⟩, fun _ _ => rfl,
    fun _ _ => id, fun _ _ _ => id, fun _ _ ho => ⟨ho.first, ho.last, ho.tail⟩, fun _ hc => hc⟩,
    ?_, ?_, ?_, hcur.symm, hcur.symm⟩
  · show s7.currentThread ∈ s7.created
    rw [hcur, hframe.same, hc4]
    exact List.mem_cons_self
  · show (s7.threads s7.currentThread).status ≠ -1
    rw [hcur, h7, hthread4.2]
    decide
  · show s7.currentProc = (s7.threads s7.currentThread).proc
    rw [hcur, h7, hthread4.1, hframe.same]
    exact hproc4

/-! ## The machine -/

inductive SchedCall where
  | tick
  | fork
  | exit (status : Int)
  | exec (path : List UInt8)

def SchedCall.run : SchedCall → Kernel Unit
  | tick => sched
  | fork => do let _ ← Raincloud.fork
  | exit status => Raincloud.exit status
  | exec path => Raincloud.exec path

/-- `fork` and `exit` are called by the thread of a process. -/
def SchedCall.Enabled (s : KernelState) : SchedCall → Prop
  | tick | exec _ => True
  | fork | exit _ => s.currentProc ≠ NULL

def schedMachine : Infra.Machine KernelState SchedCall where
  start s := ∃ e s₀, e.MallocSucceeds ∧ s₀.HeapOk ∧ s₀.created = [] ∧ schedInit e s₀ = .ok ((), s)
  step s c s' := c.Enabled s ∧ ∃ e, e.MallocSucceeds ∧ c.run e s = .ok ((), s')

/-- One call keeps the invariant. -/
theorem schedCall_inv (h : SchedInv s ns) {c : SchedCall} (hc : c.Enabled s)
    (he : e.MallocSucceeds) (hrun : c.run e s = .ok (u, s')) : ∃ ns', SchedInv s' ns' := by
  cases c with
  | tick => exact (sched_inv h.threads he hrun).1
  | fork =>
    obtain ⟨r, t, hfork, hrun⟩ := Program.bind_ok.mp hrun
    cases hrun
    exact (fork_inv h hc he hfork).1
  | exit status => exact (exit_inv h hc he hrun).1
  | exec path =>
    rw [SchedCall.run, exec, Program.bind_of_ok Program.gets_apply] at hrun
    by_cases hproc : s.currentProc = NULL
    · rw [if_pos hproc] at hrun
      exact (execKernel_inv h he hrun).1
    · rw [if_neg hproc] at hrun
      exact ⟨ns, (execProc_inv h hproc hrun).1⟩

/-- Every run keeps the invariant. -/
theorem schedMachine_inv (h : schedMachine.Reachable s) : ∃ ns, SchedInv s ns := by
  refine h.invariant (fun s => ∃ ns, SchedInv s ns) ?_ ?_
  · rintro s ⟨e, s₀, he, hheap, hnone, hrun⟩
    exact schedInit_inv hheap hnone he hrun
  · rintro s c s' ⟨ns, hinv⟩ ⟨hc, e, he, hrun⟩
    exact schedCall_inv hinv hc he hrun

/-! ## The assertion -/

theorem avoids_listForEachFrom {err : Fault} {head : ListRef} {body : ListRef → Kernel Unit}
    (herr : .endless ≠ err) (hbody : ∀ it, Program.Avoids err (body it)) :
    ∀ fuel it, Program.Avoids err (listForEachFrom head body fuel it)
  | 0, _ => Program.avoids_fault herr
  | fuel + 1, it => by
    unfold listForEachFrom
    split
    · exact Program.avoids_pure _
    · exact Program.avoids_bind (hbody it) fun _ => Program.avoids_bind (Program.avoids_gets _)
        fun next => avoids_listForEachFrom herr hbody fuel next

theorem avoids_listForEach {err : Fault} {head : ListRef} {body : ListRef → Kernel Unit}
    (herr : .endless ≠ err) (hbody : ∀ it, Program.Avoids err (body it)) :
    Program.Avoids err (listForEach head body) :=
  Program.avoids_bind (Program.avoids_gets _) fun it =>
    avoids_listForEachFrom herr hbody walkFuel it

theorem avoids_listEntry {err : Fault} (herr : .wildPointer ≠ err) (o : Option Ptr) :
    Program.Avoids err (listEntry o) := by
  cases o with
  | none => exact Program.avoids_fault herr
  | some p => exact Program.avoids_pure p

theorem avoids_mapChunk {err : Fault} (herr : .halted ≠ err) (entry : VmMapEntry) :
    Program.Avoids err (mapChunk entry) := by
  intro e s h
  unfold mapChunk onPaging at h
  split at h
  · cases h
  · exact herr (Except.error.inj h)

/-- Mapping a process never ends in the assertion of `sched`. -/
theorem avoids_vmMapDoMapping (vmMap : Ptr) :
    Program.Avoids .noThread (vmMapDoMapping vmMap) :=
  avoids_listForEach (by decide) fun _ =>
    Program.avoids_bind (avoids_listEntry (by decide) _) fun _ =>
    Program.avoids_bind (Program.avoids_gets _) fun _ =>
    Program.avoids_bind (Program.avoids_check _ (by decide)) fun _ =>
    Program.avoids_bind (Program.avoids_check _ (by decide)) fun _ =>
    Program.avoids_bind (Program.avoids_check _ (by decide)) fun _ =>
    Program.avoids_bind (avoids_mapChunk (by decide) _) fun _ => Program.avoids_pure _

theorem avoids_queueEnqueue (queue content : Ptr) :
    Program.Avoids .noThread (queueEnqueue queue content) :=
  Program.avoids_bind (avoids_malloc (by decide)) fun _ => Program.avoids_modify _

/-- `load_thread` is never `NULL`. -/
theorem sched_thread (h : ThreadsOk s ns s.created) : sched e s ≠ .error .noThread := by
  intro herr
  obtain ⟨dead, n, rest, s1, -, -, -, hloop, -⟩ := schedLoop_found e h
  rcases Program.bind_error.mp herr with hswitch | ⟨_, t, -, hmap⟩
  · rw [schedSwitch, Program.bind_of_ok hloop] at hswitch
    exact Program.avoids_bind (Program.avoids_modify _) (fun _ =>
      Program.avoids_bind (Program.avoids_gets _) fun _ =>
      Program.avoids_bind (avoids_queueEnqueue _ _) fun _ =>
      Program.avoids_bind (Program.avoids_modify _) fun _ => Program.avoids_modify _) _ _ hswitch
  · refine Program.avoids_bind (Program.avoids_gets _) (fun currentProc => ?_) _ _ hmap
    split
    · exact Program.avoids_bind (Program.avoids_gets _) fun _ => avoids_vmMapDoMapping _
    · exact Program.avoids_pure _

theorem exit_thread (status : Int) (h : SchedInv s ns) (hproc : s.currentProc ≠ NULL) :
    exit status e s ≠ .error .noThread := by
  rw [exit_eq status h hproc]
  intro herr
  rcases Program.bind_error.mp herr with hchildren | ⟨_, t, hchildren, hsched⟩
  · exact avoids_listForEach (by decide) (fun _ => Program.avoids_bind
      (avoids_listEntry (by decide) _) fun _ => Program.avoids_modify _) _ _ hchildren
  · exact sched_thread (exitChildren_ok h hproc hchildren).1 hsched

/-! ## No thread is lost or duplicated -/

/-- The ready queue against the threads made so far. -/
structure QueueSound (s : KernelState) (ns : List Ptr) : Prop where
  ring : Ring s (.queueHead s.readyQueue) (ns.map .queueNode)
  length : s.queueLength s.readyQueue = ns.length
  once : ∀ t ∈ s.created, (s.threads t).status ≠ -1 → (ns.map s.content).count t = 1
  atMost : ∀ t ∈ s.created, (s.threads t).status = -1 → (ns.map s.content).count t ≤ 1

theorem SchedInv.queueSound (h : SchedInv s ns) : QueueSound s ns := by
  refine ⟨h.threads.queue.ring, h.threads.queue.length, fun t ht hrun => ?_, fun t _ _ => ?_⟩
  · exact List.count_eq_one_of_mem h.threads.once (h.threads.runnable t ht hrun)
  · exact List.nodup_iff_count_le_one.mp h.threads.once t

/--
In every reachable state each thread that is not stopped is in the ready queue once and each
stopped one at most once, the length of the queue is its number of nodes, the current thread
runs and all pointers to it agree, and no call fails the assertion that there is a thread.
-/
theorem schedMachine_safe (h : schedMachine.Reachable s) :
    (∃ ns, QueueSound s ns) ∧ CurrentOk s ∧
      ∀ e, sched e s ≠ .error .noThread ∧
        ∀ status, s.currentProc ≠ NULL → exit status e s ≠ .error .noThread := by
  obtain ⟨ns, hinv⟩ := schedMachine_inv h
  exact ⟨⟨ns, hinv.queueSound⟩, hinv.current, fun e => ⟨sched_thread hinv.threads,
    fun status hproc => exit_thread status hinv hproc⟩⟩

/-! ## A first run -/

/-- A heap that hands out one block after another. -/
def bootEnv : Env where
  malloc s := s.live.foldr max 0 + 1
  pageAlloc _ m := (0x5000, m)
  readFile _ _ m := m

/-- The pages are handed out in order, the word at 0 counts them. -/
def bumpEnv : Env :=
  { bootEnv with
    pageAlloc := fun n m => (0x2000 + 0x1000 * m.load64 0, m.store64 0 (m.load64 0 + n)) }

theorem bootEnv_malloc : bootEnv.MallocSucceeds := fun _ => Nat.succ_ne_zero _

theorem bumpEnv_malloc : bumpEnv.MallocSucceeds := bootEnv_malloc

theorem bootState_heap : bootState.HeapOk :=
  ⟨List.nodup_nil, fun _ hp => absurd hp List.not_mem_nil⟩

/-- `sched_init`, then a tick: the kernel thread runs on. -/
theorem schedMachine_safe_tick : ∃ s, schedMachine.Reachable s ∧ s.currentThread = 2 ∧
    (∃ ns, QueueSound s ns) ∧ CurrentOk s := by
  obtain ⟨s, s', hinit, htick, hcur⟩ : ∃ s s', schedInit bootEnv bootState = .ok ((), s) ∧
      sched bootEnv s = .ok ((), s') ∧ s'.currentThread = 2 := ⟨_, _, rfl, rfl, rfl⟩
  have h0 : schedMachine.Reachable s :=
    .start ⟨bootEnv, bootState, bootEnv_malloc, bootState_heap, rfl, hinit⟩
  have h1 : schedMachine.Reachable s' :=
    .step (a := .tick) h0 ⟨trivial, bootEnv, bootEnv_malloc, htick⟩
  obtain ⟨hqueue, hcurrent, -⟩ := schedMachine_safe h1
  exact ⟨s', h1, hcur, hqueue, hcurrent⟩

end Raincloud
