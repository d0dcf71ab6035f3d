import Raincloud.Proc.SchedRun

/-!
# What the lists of processes and threads depend on

Scheduling and copying leave the lists of children and threads and the table of thread ids
alone. What is left of `fork` and `exec` are the few functions that make a process and a
thread, and they come in a fixed order.
-/

set_option linter.style.nameCheck false

namespace Raincloud

open Infra Infra.LinkStore Infra.Frame Kernel

variable {e : Env} {s s' : KernelState} {ns : List Ptr} {u : Unit}

/-! ## The frame -/

/-- The list heads that the lists of children and threads run through. -/
def ListRef.IsBook : ListRef → Prop
  | .threadNode _ | .procNode _ | .procThreads _ | .procChild _ => True
  | _ => False

/-- Lists, ids and owners of threads and processes are the same. -/
structure SameBooks (s s' : KernelState) : Prop where
  links : ∀ r : ListRef, r.IsBook → SameLinks s s' r
  parent : ∀ p, (s'.procs p).parent = (s.procs p).parent
  tid : ∀ t, (s'.threads t).tid = (s.threads t).tid
  status : ∀ t, (s'.threads t).status = (s.threads t).status
  proc : ∀ t, (s'.threads t).proc = (s.threads t).proc
  created : s'.created = s.created
  tidTable : s'.tidTable = s.tidTable

def sameBooks : Frame KernelState where
  rel := SameBooks
  refl _ := ⟨fun _ _ => ⟨rfl, rfl⟩, fun _ => rfl, fun _ => rfl, fun _ => rfl, fun _ => rfl, rfl,
    rfl⟩
  trans h1 h2 := ⟨fun r hr => SameLinks.trans (h1.links r hr) (h2.links r hr),
    fun p => (h2.parent p).trans (h1.parent p), fun t => (h2.tid t).trans (h1.tid t),
    fun t => (h2.status t).trans (h1.status t), fun t => (h2.proc t).trans (h1.proc t),
    h2.created.trans h1.created, h2.tidTable.trans h1.tidTable⟩

/-- All the records are the same. -/
theorem sameBooks_of (hlinks : ∀ r : ListRef, r.IsBook → SameLinks s s' r)
    (hprocs : s'.procs = s.procs) (hthreads : s'.threads = s.threads)
    (hcreated : s'.created = s.created) (htable : s'.tidTable = s.tidTable) : SameBooks s s' :=
  ⟨hlinks, fun _ => by rw [hprocs], fun _ => by rw [hthreads], fun _ => by rw [hthreads],
    fun _ => by rw [hthreads], hcreated, htable⟩

theorem Quiet.sameBooks (h : Quiet s s') : SameBooks s s' := by
  refine sameBooks_of (fun r hr => h.links r fun hm => ?_) (by rw [h.same]) (by rw [h.same])
    (by rw [h.same]) (by rw [h.same])
  cases r <;> first | exact hr | exact hm

theorem QueueFrame.sameBooks (h : QueueFrame s s') : SameBooks s s' := by
  refine sameBooks_of (fun r hr => h.links r fun hm => ?_) (by rw [h.same]) (by rw [h.same])
    (by rw [h.same]) (by rw [h.same])
  cases r <;> first | exact hr | exact hm

theorem Switched.sameBooks {t : Ptr} (h : Switched s s' t) : SameBooks s s' := by
  refine sameBooks_of (fun r hr => h.links r fun hm => ?_) (by rw [h.same]) (by rw [h.same])
    (by rw [h.same]) (by rw [h.same])
  cases r <;> first | exact hr | exact hm

/-- A change of the registers of a thread. -/
theorem sameBooks_context (t : Ptr) (f : Context → Context) (s : KernelState) :
    SameBooks s (s.setThread t fun x => { x with context := f x.context }) := by
  have h : ∀ q, ((s.setThread t fun x => { x with context := f x.context }).threads q)
      = { s.threads q with
          context := if q = t then f (s.threads t).context else (s.threads q).context } := by
    intro q
    rw [KernelState.setThread]
    by_cases hq : q = t
    · rw [hq, if_pos rfl]
      exact Function.update_self ..
    · rw [if_neg hq]
      exact Function.update_of_ne hq ..
  exact ⟨fun _ _ => ⟨rfl, rfl⟩, fun _ => rfl, fun q => by rw [h], fun q => by rw [h],
    fun q => by rw [h], rfl, rfl⟩

theorem setProc_parent {p q : Ptr} {f : Proc → Proc} (hf : ∀ x, (f x).parent = x.parent) :
    ((s.setProc q f).procs p).parent = (s.procs p).parent := by
  rw [KernelState.setProc]
  show (Function.update s.procs q (f (s.procs q)) p).parent = _
  by_cases hp : p = q
  · rw [hp, Function.update_self, hf]
  · rw [Function.update_of_ne hp]

/-! ## The calls -/

theorem sched_books (h : ThreadsOk s ns s.created) (he : e.MallocSucceeds)
    (hrun : sched e s = .ok (u, s')) : SameBooks s s' := by
  obtain ⟨v, s1, hswitch, hrun⟩ := Program.bind_ok.mp hrun
  obtain ⟨t, ns', -, hsw, -⟩ := schedSwitch_ok h he hswitch
  rw [Program.bind_of_ok Program.gets_apply] at hrun
  by_cases hproc : s1.currentProc ≠ NULL
  · rw [if_pos hproc, Program.bind_of_ok Program.gets_apply] at hrun
    exact sameBooks.trans hsw.sameBooks (still_vmMapDoMapping _ _ _ _ _ hrun).quiet.sameBooks
  · rw [if_neg hproc] at hrun
    cases hrun
    exact hsw.sameBooks

/-- Enqueueing a thread that is ready for the queue. -/
theorem Entering.books {s₀ : KernelState} {t p : Ptr} (hen : Entering s₀ s ns t p)
    (h : SchedInv s₀ ns) (he : e.MallocSucceeds)
    (hrun : queueEnqueue s.readyQueue t e s = .ok (u, s')) : SameBooks s s' := by
  obtain ⟨n, -, -, -, -, -, hframe⟩ := queueEnqueue_ok he (h.threads.agrees hen.agrees).queue
    (h.threads.agrees hen.agrees).heap hrun
  exact hframe.sameBooks

/-- What `fork` makes, step by step; all else leaves the books alone. -/
structure ForkSteps (s s' : KernelState) (nt np : Ptr) : Prop where
  thread : nt ∉ s.live ∧ 0 < nt
  proc : np ∉ s.live ∧ 0 < np
  steps : ∃ args envs vmMap s1 q, SameBooks s s1 ∧
    SameBooks (threadDup nt s.currentThread s1) q ∧ (q.prev (.procChild s.currentProc)).IsChild ∧
    SameBooks (threadAttach nt np (procInit np s.currentProc args envs vmMap q)) s'

theorem fork_steps {r : Int} (h : SchedInv s ns) (hproc : s.currentProc ≠ NULL)
    (he : e.MallocSucceeds) (hrun : fork e s = .ok (r, s')) : ∃ nt np, ForkSteps s s' nt np := by
  obtain ⟨nt, np, s1, s3, s5, s7, hm1, hm3, hdup, hen, henq, -, pid, rfl⟩ :=
    fork_run h hproc he hrun
  obtain ⟨hnt, hntpos, -, hs1⟩ := malloc_ok he hm1
  obtain ⟨hnp, hnppos, -, -⟩ := malloc_ok he hm3
  have hlast := hen.books h he henq
  obtain ⟨q, args, envs, vmMap, hq, rfl⟩ := procDup_ok hdup
  have hlive : (threadDup nt s.currentThread s1).live = nt :: s.live := by
    rw [(threadDup_same nt s.currentThread s1).live, hs1]
  rw [hlive, List.mem_cons, not_or] at hnp
  have hb1 := (still_malloc _ _ _ _ hm1).quiet.sameBooks
  have hbq := sameBooks.trans (still_malloc _ _ _ _ hm3).quiet.sameBooks hq.sameBooks
  refine ⟨nt, np, ⟨hnt, hntpos⟩, ⟨hnp.2, hnppos⟩, args, envs, vmMap, s1, q, hb1, hbq, ?_, ?_⟩
  · have hl1 := hb1.links (.procChild s.currentProc) trivial
    have hl2 := threadDup_links (s := s1) (t := nt) (u := s.currentThread)
      (r := .procChild s.currentProc) (by simp)
    have hl3 := hbq.links (.procChild s.currentProc) trivial
    rw [show q.prev (.procChild s.currentProc) = s.prev (.procChild s.currentProc) from
      (SameLinks.trans hl1 (SameLinks.trans hl2 hl3)).2, h.current.proc]
    refine (h.threads.threads _ h.current.created).child ?_
    rw [← h.current.proc]
    exact hproc
  · exact sameBooks.trans hlast (sameBooks_context nt (fun c => Function.update c Context.RAX pid) s7)

/-- What `exec` makes from the kernel thread. -/
structure ExecSteps (s s' : KernelState) (nt np : Ptr) : Prop where
  thread : nt ∉ s.live ∧ 0 < nt
  proc : np ∉ s.live ∧ 0 < np
  steps : ∃ args envs vmMap s4 s6, SameBooks s s4 ∧
    SameBooks (procInit np NULL args envs vmMap s4) s6 ∧ SameBooks (threadInit nt np 0 4096 s6) s'

theorem execKernel_steps {path : List UInt8} (h : SchedInv s ns) (he : e.MallocSucceeds)
    (hrun : execKernel path e s = .ok (u, s')) : ∃ nt np, ExecSteps s s' nt np := by
  obtain ⟨nt, np, args, envs, vmMap, s3, s4, s6, hq, hm4, hm6, hen, hrun⟩ :=
    execKernel_run h he hrun
  obtain ⟨hnp, hnppos, -, hs4⟩ := malloc_ok he hm4
  obtain ⟨hnt, hntpos, -, -⟩ := malloc_ok he hm6
  obtain ⟨-, hlive3⟩ := hq.heap h.threads.heap
  rw [procInit_same.live, hs4, List.mem_cons, not_or] at hnt
  exact ⟨nt, np, ⟨fun hl => hnt.2 (hlive3 nt hl), hntpos⟩, ⟨fun hl => hnp (hlive3 np hl), hnppos⟩,
    args, envs, vmMap, s4, s6,
    (quiet.trans hq (still_malloc _ _ _ _ hm4).quiet).sameBooks,
    (still_malloc _ _ _ _ hm6).quiet.sameBooks, hen.books h he hrun⟩

/-- `exec` from a process initialises its thread again. -/
theorem execProc_steps {path : List UInt8}
    (hrun : execProc path s.currentProc e s = .ok (u, s')) :
    ∃ s4, SameBooks s s4 ∧ s' = threadInit s.currentThread s.currentProc 0 4096 s4 := by
  obtain ⟨newMap, s1, s4, hq1, hq3, rfl⟩ := execProc_run hrun
  have hset : SameBooks s1 (s1.setProc s.currentProc fun p => { p with vmMap := newMap }) :=
    ⟨fun _ _ => ⟨rfl, rfl⟩, fun p => setProc_parent (fun _ => rfl), fun _ => rfl, fun _ => rfl,
      fun _ => rfl, rfl, rfl⟩
  exact ⟨s4, sameBooks.trans hq1.sameBooks (sameBooks.trans hset hq3.sameBooks), rfl⟩

/-! ## A thread that is made -/

/-- What making the thread `t` of the process `p` does to the books of the threads. -/
structure Born (s s' : KernelState) (t p : Ptr) : Prop where
  fresh : t ∉ s.created
  proc_ne : p ≠ NULL
  created : ∀ q, q ∈ s'.created ↔ q = t ∨ q ∈ s.created
  proc : (s'.threads t).proc = p
  tid : (s'.threads t).tid = (tidAlloc s).1
  runs : (s'.threads t).status ≠ -1
  table : s'.tidTable = (tidAlloc s).2.tidTable
  others : ∀ q, q ≠ t → (s'.threads q).tid = (s.threads q).tid ∧
    (s'.threads q).status = (s.threads q).status ∧ (s'.threads q).proc = (s.threads q).proc
  back : s'.prev (.threadNode t) = .procThreads p
  links : ∀ q, q ≠ t → SameLinks s s' (.threadNode q)

theorem tidAlloc_congr (h : s'.tidTable = s.tidTable) : (tidAlloc s').1 = (tidAlloc s).1 ∧
    (tidAlloc s').2.tidTable = (tidAlloc s).2.tidTable := by
  unfold tidAlloc
  rw [h]
  exact ⟨rfl, rfl⟩

theorem procInit_tidTable {p parent args envs vmMap : Ptr} :
    (procInit p parent args envs vmMap s).tidTable = s.tidTable := by
  rw [procInit_eq]
  split <;> rfl

/-- A thread linked last into an empty list points back to its head. -/
theorem listAddBefore_back {p t : Ptr} (h : s.prev (.procThreads p) = .procThreads p) :
    (listAddBefore s (.procThreads p) (.threadNode t)).prev (.threadNode t) = .procThreads p := by
  show prev (__listAdd s (prev s (.procThreads p)) (.procThreads p) (.threadNode t))
    (ListRef.threadNode t) = _
  rw [prev_listAdd lawful trivial trivial trivial trivial, if_neg (by simp), if_pos rfl]
  exact h

theorem ForkSteps.born {nt np : Ptr} (hf : ForkSteps s s' nt np) (h : SchedInv s ns) :
    Born s s' nt np := by
  obtain ⟨⟨hnt, hnt0⟩, ⟨hnp, hnp0⟩, args, envs, vmMap, s1, q, hs1, hsq, hchild, hs'⟩ := hf
  have htc : nt ∉ s.created := (h.threads.new_block hnt hnt0).2.1
  have hne : s.currentThread ≠ nt := fun he => htc (he ▸ h.current.created)
  obtain ⟨hl5, hempty, -⟩ := procInit_links (p := np) args envs vmMap fun _ => hchild
  obtain ⟨s5, hs5⟩ : ∃ s5, s5 = procInit np s.currentProc args envs vmMap q := ⟨_, rfl⟩
  rw [← hs5] at hs' hempty hl5
  have ht5 : s5.threads = q.threads := by rw [hs5, procInit_threads]
  have ht6 : ∀ v, (threadAttach nt np s5).threads v
      = if v = nt then { q.threads nt with proc := np } else q.threads v := fun v => by
    rw [threadAttach_threads, ht5, Function.update_apply]
  have hq : ∀ v, v ≠ nt → (q.threads v).tid = (s.threads v).tid ∧
      (q.threads v).status = (s.threads v).status ∧ (q.threads v).proc = (s.threads v).proc :=
    fun v hv => by
      rw [hsq.tid, hsq.status, hsq.proc, threadDup_thread, if_neg hv]
      exact ⟨hs1.tid v, hs1.status v, hs1.proc v⟩
  have hlinks : ∀ v, v ≠ nt → SameLinks s s' (.threadNode v) := fun v hv => by
    have hr : ListRef.threadNode v ≠ .threadNode nt := by simpa using hv
    have h1 := SameLinks.trans (hs1.links (.threadNode v) trivial)
      (threadDup_links (u := s.currentThread) hr)
    have h2 := SameLinks.trans h1 (hsq.links (.threadNode v) trivial)
    have h3 := SameLinks.trans h2 (hl5 (.threadNode v) (fun h => h) (by simp))
    have h4 := SameLinks.trans h3 (sameLinks_addThread (s := s5.setThread nt fun t =>
      { t with proc := np }) (p := np) (t := nt) (.inl hempty) (by simp) hr)
    exact SameLinks.trans h4 (hs'.links (.threadNode v) trivial)
  refine ⟨htc, Nat.pos_iff_ne_zero.mp hnp0, fun v => ?_, ?_, ?_, ?_, ?_, fun v hv => ?_, ?_,
    hlinks⟩
  · rw [hs'.created]
    show v ∈ s5.created ↔ _
    rw [hs5, procInit_created, hsq.created]
    show v ∈ s1.created.insert nt ↔ _
    rw [hs1.created, List.mem_insert_iff]
  · rw [hs'.proc, ht6, if_pos rfl]
  · rw [hs'.tid, ht6, if_pos rfl, hsq.tid, threadDup_thread, if_pos rfl]
    exact (tidAlloc_congr hs1.tidTable).1
  · rw [hs'.status, ht6, if_pos rfl, hsq.status, threadDup_thread, if_pos rfl, hs1.status]
    exact h.current.runs
  · rw [hs'.tidTable]
    show s5.tidTable = _
    rw [hs5, procInit_tidTable, hsq.tidTable]
    exact (tidAlloc_congr hs1.tidTable).2
  · rw [hs'.tid, hs'.status, hs'.proc, ht6, if_neg hv]
    exact hq v hv
  · rw [show s'.prev (.threadNode nt) = _ from (hs'.links (.threadNode nt) trivial).2]
    exact listAddBefore_back (s := s5.setThread nt fun t => { t with proc := np }) hempty

theorem ExecSteps.born {nt np : Ptr} (hf : ExecSteps s s' nt np) (h : SchedInv s ns) :
    Born s s' nt np := by
  obtain ⟨⟨hnt, hnt0⟩, ⟨hnp, hnp0⟩, args, envs, vmMap, s4, s6, hs4, hs6, hs'⟩ := hf
  have htc : nt ∉ s.created := (h.threads.new_block hnt hnt0).2.1
  have hnp0 : np ≠ NULL := Nat.pos_iff_ne_zero.mp hnp0
  obtain ⟨hl5, hempty, -⟩ := procInit_links (s := s4) (p := np) args envs vmMap
    fun hc : NULL ≠ NULL => absurd rfl hc
  have hempty6 : s6.prev (.procThreads np) = .procThreads np :=
    (hs6.links (.procThreads np) trivial).2.trans hempty
  have h6 : ∀ v, (s6.threads v).tid = (s.threads v).tid ∧
      (s6.threads v).status = (s.threads v).status ∧ (s6.threads v).proc = (s.threads v).proc :=
    fun v => by
      rw [hs6.tid, hs6.status, hs6.proc, procInit_threads]
      exact ⟨hs4.tid v, hs4.status v, hs4.proc v⟩
  have htable : s6.tidTable = s.tidTable := by rw [hs6.tidTable, procInit_tidTable, hs4.tidTable]
  obtain ⟨-, hl7⟩ := threadInit_links (s := s6) (t := nt) 0 4096 hnp0 (.inl hempty6)
  have ht7 := threadInit_thread (s := s6) (t := nt) 0 4096 hnp0
  refine ⟨htc, hnp0, fun v => ?_, ?_, ?_, ?_, ?_, fun v hv => ?_, ?_, fun v hv => ?_⟩
  · rw [hs'.created, threadInit_created hnp0, hs6.created, procInit_created, hs4.created,
      List.mem_insert_iff]
  · rw [hs'.proc, ht7, if_pos rfl]
  · rw [hs'.tid, ht7, if_pos rfl]
    exact (tidAlloc_congr htable).1
  · rw [hs'.status, ht7, if_pos rfl]
    simp
  · rw [hs'.tidTable, threadInit_eq hnp0]
    exact (tidAlloc_congr htable).2
  · rw [hs'.tid, hs'.status, hs'.proc, ht7, if_neg hv]
    exact h6 v
  · have hsetup := threadSetup_links (s := s6) (t := nt) np 0 4096
      (r := .procThreads np) (by simp)
    rw [show s'.prev (.threadNode nt) = _ from (hs'.links (.threadNode nt) trivial).2,
      threadInit_eq hnp0]
    exact listAddBefore_back (hsetup.2.trans hempty6)
  · have hr : ListRef.threadNode v ≠ .threadNode nt := by simpa using hv
    have h1 := SameLinks.trans (hs4.links (.threadNode v) trivial)
      (hl5 (.threadNode v) (fun h => h) (by simp))
    have h2 := SameLinks.trans h1 (hs6.links (.threadNode v) trivial)
    have h3 := SameLinks.trans h2 (hl7 (.threadNode v) (by simp) hr)
    exact SameLinks.trans h3 (hs'.links (.threadNode v) trivial)

/-! ## The first thread -/

/-- Threads and thread ids are the same. -/
def sameRecords : Frame KernelState where
  rel s s' := s'.created = s.created ∧ s'.threads = s.threads ∧ s'.tidTable = s.tidTable
  refl _ := ⟨rfl, rfl, rfl⟩
  trans h1 h2 := ⟨h2.1.trans h1.1, h2.2.1.trans h1.2.1, h2.2.2.trans h1.2.2⟩

theorem sameRecords_malloc : sameRecords.Keeps Kernel.malloc :=
  still_malloc.mono fun s s' h => by
    show s'.created = s.created ∧ s'.threads = s.threads ∧ s'.tidTable = s.tidTable
    rw [h.same]
    exact ⟨rfl, rfl, rfl⟩

/-- What `sched_init` leaves in the books: one thread, of no process. -/
structure FirstThread (s s' : KernelState) (t : Ptr) : Prop where
  created : s'.created = [t]
  proc : (s'.threads t).proc = NULL
  runs : (s'.threads t).status ≠ -1
  tid : (s'.threads t).tid = (tidAlloc s).1
  table : s'.tidTable = (tidAlloc s).2.tidTable

theorem schedInit_first (hnone : s.created = []) (hrun : schedInit e s = .ok (u, s')) :
    ∃ t, FirstThread s s' t := by
  rw [schedInit, Program.bind_of_ok Program.modify_apply] at hrun
  obtain ⟨q, s1, hm1, hrun⟩ := Program.bind_ok.mp hrun
  rw [Program.bind_of_ok Program.modify_apply] at hrun
  obtain ⟨t, s3, hm3, hrun⟩ := Program.bind_ok.mp hrun
  obtain ⟨t', s2, hm2, hm3⟩ := Program.bind_ok.mp hm3
  rw [Program.bind_of_ok Program.modify_apply] at hm3
  cases hm3
  rw [Program.bind_of_ok Program.modify_apply] at hrun
  obtain ⟨_, s7, henq, hrun⟩ := Program.bind_ok.mp hrun
  cases hrun
  have hq : sameRecords.Keeps (queueEnqueue q t) :=
    keeps_bind sameRecords_malloc fun _ => keeps_modify fun _ => ⟨rfl, rfl, rfl⟩
  obtain ⟨hc1, -, htab1⟩ := sameRecords_malloc _ _ _ _ hm1
  obtain ⟨hc2, -, htab2⟩ := sameRecords_malloc _ _ _ _ hm2
  obtain ⟨hc7, ht7, htab7⟩ := hq _ _ _ _ henq
  obtain ⟨s4, hs4⟩ : ∃ s4, s4 = s2.setThread t fun _ => Thread.zero := ⟨_, rfl⟩
  rw [← hs4] at hc7 ht7 htab7
  have hc4 : s4.created = [] := by
    rw [hs4, show (s2.setThread t fun _ => Thread.zero).created = s2.created from rfl, hc2,
      show (schedInitQueue q s1).created = s1.created from rfl, hc1]
    exact hnone
  have htab4 : s4.tidTable = s.tidTable := by
    rw [hs4, show (s2.setThread t fun _ => Thread.zero).tidTable = s2.tidTable from rfl, htab2]
    exact htab1
  obtain ⟨htid, htab⟩ := tidAlloc_congr htab4
  have hthread : s7.threads t = { (Function.update s4.threads t
      { s4.threads t with tid := (tidAlloc s4).1 } t) with
        proc := NULL, status := 0, context := Context.zero } := by
    rw [ht7]
    exact Function.update_self ..
  rw [Function.update_self] at hthread
  refine ⟨t, ?_, ?_, ?_, ?_, ?_⟩
  · show s7.created = [t]
    rw [hc7]
    show s4.created.insert t = [t]
    rw [hc4]
    rfl
  · show (s7.threads t).proc = NULL
    rw [hthread]
  · show (s7.threads t).status ≠ -1
    rw [hthread]
    show (0 : Int) ≠ -1
    decide
  · show (s7.threads t).tid = _
    rw [hthread]
    exact htid
  · show s7.tidTable = _
    rw [htab7]
    exact htab

end Raincloud
