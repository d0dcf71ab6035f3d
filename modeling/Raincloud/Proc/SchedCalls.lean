import Raincloud.Proc.Switch

/-!
# The calls that change the threads

What `sched`, `fork`, `exit` and `exec` do to the invariant of the scheduler: the ready queue
holds every thread that runs once, and the current thread is one of them.
-/

set_option linter.style.nameCheck false

namespace Raincloud

open Infra Infra.LinkStore Infra.Frame Kernel

variable {e : Env} {s s' : KernelState} {p t : Ptr} {ns ts : List Ptr} {u : Unit}

/-! ## The invariant -/

/-- The current thread runs, and all the pointers to it agree. -/
structure CurrentOk (s : KernelState) : Prop where
  created : s.currentThread ∈ s.created
  runs : (s.threads s.currentThread).status ≠ -1
  proc : s.currentProc = (s.threads s.currentThread).proc
  save : s.saveContext = s.currentThread
  load : s.loadContext = s.currentThread

/-- The invariant of the scheduler, with the nodes of the ready queue. -/
structure SchedInv (s : KernelState) (ns : List Ptr) : Prop where
  threads : ThreadsOk s ns s.created
  current : CurrentOk s

/-- The current thread, and the pointers to it, stay. -/
structure SameCurrent (s s' : KernelState) : Prop where
  thread : s'.currentThread = s.currentThread
  currentProc : s'.currentProc = s.currentProc
  save : s'.saveContext = s.saveContext
  load : s'.loadContext = s.loadContext
  created : ∀ t ∈ s.created, t ∈ s'.created
  runs : (s.threads s.currentThread).status ≠ -1 → (s'.threads s.currentThread).status ≠ -1
  proc : (s'.threads s.currentThread).proc = (s.threads s.currentThread).proc

def sameCurrent : Frame KernelState where
  rel := SameCurrent
  refl _ := ⟨rfl, rfl, rfl, rfl, fun _ => id, id, rfl⟩
  trans h1 h2 := by
    have hs := h2.runs
    have hp := h2.proc
    rw [h1.thread] at hs hp
    exact ⟨h2.thread.trans h1.thread, h2.currentProc.trans h1.currentProc, h2.save.trans h1.save,
      h2.load.trans h1.load, fun t ht => h2.created t (h1.created t ht), hs ∘ h1.runs,
      hp.trans h1.proc⟩

theorem CurrentOk.keep (h : CurrentOk s) (hs : SameCurrent s s') : CurrentOk s' := by
  constructor
  · rw [hs.thread]
    exact hs.created _ h.created
  · rw [hs.thread]
    exact hs.runs h.runs
  · rw [hs.thread, hs.currentProc, hs.proc]
    exact h.proc
  · rw [hs.save, hs.thread]
    exact h.save
  · rw [hs.load, hs.thread]
    exact h.load

theorem Quiet.sameCurrent (h : Quiet s s') : SameCurrent s s' := by
  have ht : s'.threads = s.threads := by rw [h.same]
  have hc : s'.created = s.created := by rw [h.same]
  refine ⟨by rw [h.same], by rw [h.same], by rw [h.same], by rw [h.same], fun t => by rw [hc]; exact id,
    by rw [ht]; exact id, by rw [ht]⟩

theorem ThreadsOk.of_mem_iff {ts' : List Ptr} (h : ThreadsOk s ns ts) (hts : ∀ t, t ∈ ts ↔ t ∈ ts') :
    ThreadsOk s ns ts' := by
  obtain ⟨k, hk, hkernel⟩ := h.kernel
  exact ⟨h.heap, h.queue, fun n hn => (hts _).mp (h.contents n hn), h.once,
    fun t ht => h.runnable t ((hts t).mpr ht), fun t ht => h.threads t ((hts t).mpr ht),
    ⟨k, (hts k).mp hk, hkernel⟩⟩

theorem SchedInv.quiet (h : SchedInv s ns) (hq : Quiet s s') : SchedInv s' ns := by
  have hc : s'.created = s.created := by rw [hq.same]
  refine ⟨?_, h.current.keep hq.sameCurrent⟩
  rw [hc]
  exact h.threads.agrees (hq.agrees s.created)

/-- A new block is no block of the threads or the queue. -/
theorem ThreadsOk.new_block (h : ThreadsOk s ns ts) (hp : p ∉ s.live) (hnull : 0 < p) :
    p ∉ ns ∧ p ∉ ts ∧ ∀ t ∈ ts, (s.threads t).proc ≠ p := by
  refine ⟨fun hn => hp (h.queue.live p hn), fun ht => hp (h.threads p ht).own.1, fun t ht he => ?_⟩
  by_cases hproc : (s.threads t).proc = NULL
  · rw [hproc] at he
    exact absurd he.symm (Nat.pos_iff_ne_zero.mp hnull)
  · exact hp (he ▸ ((h.threads t ht).ownProc hproc).1)

/-- A new thread goes to the back of the queue. -/
theorem ThreadsOk.enqueue (h : ThreadsOk s ns ts) (he : e.MallocSucceeds)
    (ht : ThreadOk s ns t) (hnew : t ∉ ts) (hrun : queueEnqueue s.readyQueue t e s = .ok (u, s')) :
    QueueFrame s s' ∧ ∃ n, ThreadsOk s' (ns ++ [n]) (t :: ts) := by
  obtain ⟨n, hn, hlive, hheap', hq', hcontent, hframe⟩ := queueEnqueue_ok he h.queue h.heap hrun
  have hthreads := hframe.threads
  have hold : ∀ m ∈ ns, s'.content m = s.content m := fun m hm => by
    have hne : m ≠ n := fun he => hn (he ▸ h.queue.live m hm)
    rw [hcontent, Function.update_of_ne hne]
  have hmap : (ns ++ [n]).map s'.content = ns.map s.content ++ [t] := by
    rw [List.map_append, List.map_singleton, List.map_congr_left hold, hcontent,
      Function.update_self]
  have hown : ∀ q, OwnBlock s ns q → OwnBlock s' (ns ++ [n]) q := fun q hq => by
    refine ⟨by rw [hlive]; exact List.mem_cons_of_mem n hq.1, fun hmem => ?_⟩
    rcases List.mem_append.mp hmem with hmem | hmem
    · exact hq.2 hmem
    · exact hn (List.mem_singleton.mp hmem ▸ hq.1)
  obtain ⟨k, hk, hkernel⟩ := h.kernel
  refine ⟨hframe, n, hheap', ?_, fun m hm => ?_, ?_, fun q hq hrun => ?_, fun q hq => ?_,
    ⟨k, List.mem_cons_of_mem t hk, by rwa [hthreads]⟩⟩
  · rw [hframe.readyQueue]
    exact hq'
  · have hm' : s'.content m ∈ ns.map s.content ++ [t] := hmap ▸ List.mem_map_of_mem hm
    rcases List.mem_append.mp hm' with hm' | hm'
    · obtain ⟨n', hn', hc⟩ := List.mem_map.mp hm'
      rw [← hc]
      exact List.mem_cons_of_mem t (h.contents n' hn')
    · rw [List.mem_singleton.mp hm']
      exact List.mem_cons_self
  · rw [hmap]
    refine List.nodup_append.mpr ⟨h.once, by simp, fun a ha b hb hab => hnew ?_⟩
    obtain ⟨m, hm, rfl⟩ := List.mem_map.mp ha
    rw [← List.mem_singleton.mp hb, ← hab]
    exact h.contents m hm
  · rw [hmap]
    rw [hthreads] at hrun
    rcases List.mem_cons.mp hq with rfl | hq
    · simp
    · exact List.mem_append_left _ (h.runnable q hq hrun)
  · rcases List.mem_cons.mp hq with rfl | hq
    · exact ht.switch hown hthreads hframe.links
    · exact (h.threads q hq).switch hown hthreads hframe.links

theorem QueueFrame.sameCurrent (h : QueueFrame s s') : SameCurrent s s' := by
  have hc : s'.created = s.created := by rw [h.same]
  refine ⟨by rw [h.same], by rw [h.same], by rw [h.same], by rw [h.same],
    fun t => by rw [hc]; exact id, by rw [h.threads]; exact id, by rw [h.threads]⟩

/-! ## `sched` -/

theorem Rotated.quiet {s₀ : KernelState} {ns' : List Ptr} (h : Rotated s₀ s ns ns' t)
    (hq : Quiet s s') : Rotated s₀ s' ns ns' t := by
  obtain ⟨dead, rest, hns, hdead, hns'⟩ := h.split
  have hcontent : s'.content = s.content := by rw [hq.same]
  exact ⟨⟨dead, rest, hns, hdead, by rw [hcontent, hns']⟩, h.runs⟩

/-- After the switch the invariant holds whatever the current thread was before. -/
theorem sched_rotates (h : ThreadsOk s ns s.created) (he : e.MallocSucceeds)
    (hrun : sched e s = .ok (u, s')) :
    ∃ ns', SchedInv s' ns' ∧ s'.threads = s.threads ∧ s'.created = s.created ∧
      Rotated s s' ns ns' s'.currentThread := by
  obtain ⟨v, s1, hswitch, hrun⟩ := Program.bind_ok.mp hrun
  obtain ⟨t, ns', ht, hsw, hrot, hok⟩ := schedSwitch_ok h he hswitch
  have hc : s1.created = s.created := by rw [hsw.same]
  have hcur : s1.currentThread = t := by rw [hsw.same]
  have hinv : SchedInv s1 ns' := by
    refine ⟨by rwa [hc], ?_, ?_, ?_, ?_, ?_⟩
    · rw [hcur, hc]
      exact ht
    · rw [hcur, hsw.threads]
      exact hrot.runs
    · rw [hcur, hsw.threads, hsw.same]
    · rw [hcur, hsw.same]
    · rw [hcur, hsw.same]
  rw [Program.bind_of_ok Program.gets_apply] at hrun
  by_cases hproc : s1.currentProc ≠ NULL
  · rw [if_pos hproc, Program.bind_of_ok Program.gets_apply] at hrun
    have hq := (still_vmMapDoMapping _ _ _ _ _ hrun).quiet
    have hcur' : s'.currentThread = t := by rw [← hcur, hq.same]
    refine ⟨ns', hinv.quiet hq, ?_, ?_, ?_⟩
    · rw [← hsw.threads, hq.same]
    · rw [← hc, hq.same]
    · rw [hcur']
      exact hrot.quiet hq
  · rw [if_neg hproc] at hrun
    cases hrun
    exact ⟨ns', hinv, hsw.threads, hc, by rwa [hcur]⟩

theorem sched_inv (h : ThreadsOk s ns s.created) (he : e.MallocSucceeds)
    (hrun : sched e s = .ok (u, s')) :
    (∃ ns', SchedInv s' ns') ∧ s'.threads = s.threads ∧ s'.created = s.created ∧
      NextThread s s'.currentThread := by
  obtain ⟨ns', hinv, hthreads, hcreated, hrot⟩ := sched_rotates h he hrun
  exact ⟨⟨ns', hinv⟩, hthreads, hcreated, hrot.nextThread h.queue⟩

/-! ## `fork` -/

theorem still_mallocPargs : still.Keeps mallocPargs :=
  keeps_bind still_malloc fun _ => keeps_bind (still_modify fun _ => rfl) fun _ => keeps_pure _

theorem still_pargsDupFrom (new old : Ptr) : ∀ n i, still.Keeps (pargsDupFrom new old n i)
  | 0, _ => keeps_pure _
  | n + 1, i => keeps_bind still_malloc fun _ => keeps_bind (still_modify fun _ => rfl) fun _ =>
      still_pargsDupFrom new old n (i + 1)

theorem still_pargsDup (new old : Ptr) : still.Keeps (pargsDup new old) :=
  keeps_bind still_malloc fun _ => keeps_bind (still_modify fun _ => rfl) fun _ =>
    keeps_bind (keeps_gets _) fun _ => still_pargsDupFrom new old _ 0

theorem still_penvsDup (new old : Ptr) : still.Keeps (penvsDup new old) :=
  keeps_bind still_malloc fun _ => still_modify fun _ => rfl

/-- `proc_dup` ends with `proc_init`; before it, nothing but copies. -/
theorem procDup_ok {new old : Ptr} (h : procDup new old e s = .ok (u, s')) :
    ∃ q args envs vmMap, Quiet s q ∧ s' = procInit new old args envs vmMap q := by
  obtain ⟨args, s1, h1, h⟩ := Program.bind_ok.mp h
  rw [Program.bind_of_ok Program.gets_apply] at h
  obtain ⟨_, s2, h2, h⟩ := Program.bind_ok.mp h
  obtain ⟨envs, s3, h3, h⟩ := Program.bind_ok.mp h
  rw [Program.bind_of_ok Program.gets_apply] at h
  obtain ⟨_, s4, h4, h⟩ := Program.bind_ok.mp h
  obtain ⟨vmMap, s5, h5, h⟩ := Program.bind_ok.mp h
  rw [Program.bind_of_ok Program.gets_apply] at h
  obtain ⟨_, s6, h6, h⟩ := Program.bind_ok.mp h
  cases h
  have hstill := still.trans (still_mallocPargs _ _ _ _ h1) <|
    still.trans (still_pargsDup _ _ _ _ _ _ h2) <| still.trans (still_malloc _ _ _ _ h3) <|
    still.trans (still_penvsDup _ _ _ _ _ _ h4) (still_malloc _ _ _ _ h5)
  exact ⟨s6, args, envs, vmMap,
    quiet.trans (Still.quiet hstill) (quiet_vmMapDup _ _ _ _ _ _ h6), rfl⟩

theorem SameQueue.sameCurrent (h : SameQueue s s') (hc : ∀ t ∈ s.created, t ∈ s'.created)
    (ht : s'.threads s.currentThread = s.threads s.currentThread) : SameCurrent s s' :=
  ⟨h.currentThread, h.currentProc, h.saveContext, h.loadContext, hc, by rw [ht]; exact id,
    by rw [ht]⟩

theorem procInit_sameCurrent {parent args envs vmMap : Ptr} :
    SameCurrent s (procInit p parent args envs vmMap s) :=
  procInit_same.sameCurrent (by rw [procInit_created]; exact fun _ => id)
    (by rw [procInit_threads])

/-- A step that makes one thread and leaves the others alone. -/
structure Makes (s s' : KernelState) (t : Ptr) : Prop where
  created : ∀ q, q ∈ s'.created ↔ q = t ∨ q ∈ s.created
  threads : ∀ q, q ≠ t → s'.threads q = s.threads q

/-- A new thread `t` of a new process `p`, ready for the queue; all else is as in `s₀`. -/
structure Entering (s₀ s : KernelState) (ns : List Ptr) (t p : Ptr) : Prop where
  agrees : Agrees s₀.created s₀ s
  makes : Makes s₀ s t
  same : SameCurrent s₀ s
  fresh : t ∉ s₀.created
  own : OwnBlock s ns t
  proc : (s.threads t).proc = p
  ownProc : OwnBlock s ns p
  listed : OneThread s p t
  child : (s.prev (.procChild p)).IsChild

/-- A new thread of a new process enters the queue. -/
theorem Entering.enqueue {s₀ : KernelState} (hen : Entering s₀ s ns t p) (h : SchedInv s₀ ns)
    (he : e.MallocSucceeds) (hrun : queueEnqueue s.readyQueue t e s = .ok (u, s')) :
    (∃ ns', SchedInv s' ns') ∧ Makes s₀ s' t ∧ s'.currentThread = s₀.currentThread := by
  have hok : ThreadOk s ns t := by
    refine ⟨hen.own, ?_, ?_, ?_⟩ <;> rw [hen.proc]
    · exact fun _ => hen.ownProc
    · exact fun _ => hen.listed
    · exact fun _ => hen.child
  obtain ⟨hframe, n, hthreads⟩ := (h.threads.agrees hen.agrees).enqueue he hok hen.fresh hrun
  have hc : s'.created = s.created := by rw [hframe.same]
  have hsame := sameCurrent.trans hen.same hframe.sameCurrent
  refine ⟨⟨ns ++ [n], hthreads.of_mem_iff fun q => ?_, h.current.keep hsame⟩,
    ⟨fun q => ?_, fun q hq => ?_⟩, hsame.thread⟩
  · rw [List.mem_cons, hc]
    exact (hen.makes.created q).symm
  · rw [hc]
    exact hen.makes.created q
  · rw [hframe.threads]
    exact hen.makes.threads q hq

/-- A change of a thread that keeps its status and process. -/
theorem SchedInv.setThread {f : Thread → Thread} (h : SchedInv s ns)
    (hf : ∀ x, (f x).status = x.status ∧ (f x).proc = x.proc) : SchedInv (s.setThread t f) ns := by
  have hthreads : ∀ q, ((s.setThread t f).threads q).status = (s.threads q).status ∧
      ((s.setThread t f).threads q).proc = (s.threads q).proc := fun q => by
    show (Function.update s.threads t _ q).status = _ ∧ (Function.update s.threads t _ q).proc = _
    by_cases hq : q = t
    · rw [hq, Function.update_self]
      exact hf _
    · rw [Function.update_of_ne hq]
      exact ⟨rfl, rfl⟩
  refine ⟨h.threads.agrees ⟨heap_refl rfl, rfl, rfl, rfl, fun _ _ => ⟨rfl, rfl⟩,
    fun q _ => (hthreads q).2, fun q _ => by rw [(hthreads q).1]; exact id,
    fun q _ _ => by rw [(hthreads q).1]; exact id, fun _ _ ho => ⟨ho.first, ho.last, ho.tail⟩,
    fun _ hc => hc⟩, h.current.keep ⟨rfl, rfl, rfl, rfl, fun _ hq => hq,
    by rw [(hthreads _).1]; exact id, (hthreads _).2⟩⟩

/-- `fork` up to the queue. -/
theorem fork_entering {nt np : Ptr} {s1 s3 s5 : KernelState} (h : SchedInv s ns)
    (hproc : s.currentProc ≠ NULL) (he : e.MallocSucceeds) (hm1 : Kernel.malloc e s = .ok (nt, s1))
    (hm3 : Kernel.malloc e (threadDup nt s.currentThread s1) = .ok (np, s3))
    (hdup : procDup np s.currentProc e s3 = .ok (u, s5)) :
    Entering s (threadAttach nt np s5) ns nt np := by
  obtain ⟨hnt, hntpos, -, hs1⟩ := malloc_ok he hm1
  obtain ⟨hnp, hnppos, -, hs3⟩ := malloc_ok he hm3
  obtain ⟨q, args, envs, vmMap, hq, hs5⟩ := procDup_ok hdup
  have hlive2 : (threadDup nt s.currentThread s1).live = nt :: s.live := by
    rw [(threadDup_same nt s.currentThread s1).live, hs1]
  rw [hlive2, List.mem_cons, not_or] at hnp
  obtain ⟨htn, htc, -⟩ := h.threads.new_block hnt hntpos
  obtain ⟨hpn, -, hpc⟩ := h.threads.new_block hnp.2 hnppos
  -- up to the duplicated process nothing happens to the old threads
  have hq1 := (still_malloc _ _ _ _ hm1).quiet
  have hq3 := (still_malloc _ _ _ _ hm3).quiet
  have ha3 : Agrees s.created s s3 := (agrees _).trans (hq1.agrees _) <|
    (agrees _).trans (threadDup_agrees htc) (hq3.agrees _)
  have haq : Agrees s.created s q := (agrees _).trans ha3 (hq.agrees _)
  have hcur := h.current.created
  have hparent : s.currentProc ≠ NULL → (q.prev (.procChild s.currentProc)).IsChild := fun _ => by
    have hc := ((h.threads.agrees haq).threads _ hcur).child
    rw [haq.proc _ hcur, ← h.current.proc] at hc
    exact hc hproc
  have hqp : ∀ t ∈ s.created, (q.threads t).proc ≠ np := fun t ht => by
    rw [haq.proc t ht]
    exact hpc t ht
  obtain ⟨-, hempty, hchild⟩ := procInit_links (p := np) args envs vmMap hparent
  rw [← hs5] at hempty hchild
  have ha5 : Agrees s.created s s5 := by
    rw [hs5]
    exact (agrees _).trans haq (procInit_agrees hparent hqp)
  obtain ⟨ha6, hone⟩ := threadAttach_agrees hempty htc fun t ht => by
    rw [ha5.proc t ht]
    exact hpc t ht
  -- the fields of the threads
  have ht5 : s5.threads = (threadDup nt s.currentThread s1).threads := by
    rw [hs5, procInit_threads, hq.same, hs3]
  have hc5 : s5.created = s.created.insert nt := by
    rw [hs5, procInit_created, hq.same, hs3]
    show s1.created.insert nt = _
    rw [hs1]
  have hold : ∀ t, t ≠ nt → (threadAttach nt np s5).threads t = s.threads t := fun t ht => by
    rw [threadAttach_threads, Function.update_of_ne ht, ht5, threadDup_thread, if_neg ht, hs1]
  have hnecur : s.currentThread ≠ nt := fun hc => htc (hc ▸ hcur)
  have hptr : SameCurrent s (threadAttach nt np s5) := by
    have hdup := (threadDup_same nt s.currentThread s1).sameCurrent
      (fun t ht => List.mem_insert_of_mem ht) (by
        rw [threadDup_thread, if_neg (by rw [hs1]; exact hnecur)])
    have h5 : SameCurrent s s5 := by
      rw [hs5]
      exact sameCurrent.trans hq1.sameCurrent <| sameCurrent.trans hdup <|
        sameCurrent.trans hq3.sameCurrent <| sameCurrent.trans hq.sameCurrent procInit_sameCurrent
    refine sameCurrent.trans h5 ((threadAttach_same nt np s5).sameCurrent (fun _ => id) ?_)
    rw [threadAttach_threads, Function.update_of_ne (by rw [h5.thread]; exact hnecur)]
  have hlive : ∀ p ∈ s3.live, p ∈ (threadAttach nt np s5).live := fun p hp => by
    show p ∈ s5.live
    rw [hs5, procInit_same.live]
    exact (hq.heap (h.threads.agrees ha3).heap).2 p hp
  have hlive3 : s3.live = np :: nt :: s.live := by
    rw [hs3]
    exact congrArg (np :: ·) hlive2
  refine ⟨(agrees _).trans ha5 ha6, ⟨fun t => ?_, hold⟩, hptr, htc,
    ⟨hlive nt (by rw [hlive3]; simp), htn⟩, by rw [threadAttach_threads, Function.update_self],
    ⟨hlive np (by rw [hlive3]; simp), hpn⟩, hone, ?_⟩
  · show t ∈ s5.created ↔ _
    rw [hc5]
    exact List.mem_insert_iff
  · rw [show (threadAttach nt np s5).prev (.procChild np) = s5.prev (.procChild np) from
      (sameLinks_addThread (s := s5.setThread nt fun t => { t with proc := np }) (t := nt)
        (.inl hempty) (by simp) (by simp)).2]
    exact hchild np (.inl rfl)

/-- What `fork` does when its blocks are there. -/
theorem fork_run {r : Int} (h : SchedInv s ns) (hproc : s.currentProc ≠ NULL)
    (he : e.MallocSucceeds) (hrun : fork e s = .ok (r, s')) :
    ∃ nt np s1 s3 s5 s7, Kernel.malloc e s = .ok (nt, s1) ∧
      Kernel.malloc e (threadDup nt s.currentThread s1) = .ok (np, s3) ∧
      procDup np s.currentProc e s3 = .ok ((), s5) ∧ Entering s (threadAttach nt np s5) ns nt np ∧
      queueEnqueue (threadAttach nt np s5).readyQueue nt e (threadAttach nt np s5) = .ok ((), s7) ∧
      r = 0 ∧ ∃ pid : Nat, s' = s7.setThread nt fun t =>
        { t with context := Function.update t.context Context.RAX pid } := by
  rw [fork, Program.bind_of_ok Program.gets_apply, Program.bind_of_ok Program.gets_apply,
    Program.bind_of_ok Program.gets_apply] at hrun
  obtain ⟨nt, s1, hm1, hrun⟩ := Program.bind_ok.mp hrun
  have hnt : nt ≠ NULL := Nat.pos_iff_ne_zero.mp (malloc_ok he hm1).2.1
  rw [if_neg hnt, Program.bind_of_ok Program.modify_apply] at hrun
  obtain ⟨np, s3, hm3, hrun⟩ := Program.bind_ok.mp hrun
  have hnp : np ≠ NULL := Nat.pos_iff_ne_zero.mp (malloc_ok he hm3).2.1
  rw [if_neg hnp] at hrun
  obtain ⟨_, s5, hdup, hrun⟩ := Program.bind_ok.mp hrun
  rw [Program.bind_of_ok Program.modify_apply] at hrun
  obtain ⟨_, s7, henq, hrun⟩ := Program.bind_ok.mp hrun
  rw [Program.bind_of_ok Program.modify_apply] at hrun
  cases hrun
  have hen := fork_entering h hproc he hm1 hm3 hdup
  rw [← hen.agrees.readyQueue] at henq
  exact ⟨nt, np, s1, s3, s5, s7, hm1, hm3, hdup, hen, henq, rfl, _, rfl⟩

/-- `fork` adds one thread, which runs; its return value is 0. -/
theorem fork_inv {r : Int} (h : SchedInv s ns) (hproc : s.currentProc ≠ NULL)
    (he : e.MallocSucceeds) (hrun : fork e s = .ok (r, s')) :
    (∃ ns', SchedInv s' ns') ∧ r = 0 ∧ s'.currentThread = s.currentThread ∧
      ∃ t, t ∉ s.created ∧ Makes s s' t := by
  obtain ⟨nt, np, s1, s3, s5, s7, -, -, -, hen, henq, rfl, pid, rfl⟩ := fork_run h hproc he hrun
  obtain ⟨⟨ns', hinv⟩, hmakes, hcur⟩ := hen.enqueue h he henq
  refine ⟨⟨ns', hinv.setThread fun x => ⟨rfl, rfl⟩⟩, rfl, hcur, nt, hen.fresh, hmakes.created,
    fun t ht => ?_⟩
  show Function.update s7.threads nt _ t = _
  rw [Function.update_of_ne ht]
  exact hmakes.threads t ht

end Raincloud
