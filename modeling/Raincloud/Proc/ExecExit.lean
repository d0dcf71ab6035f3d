import Raincloud.Proc.SchedCalls

/-!
# `exit` and `exec`

`exit` stops the one thread of the process and leaves its node in the queue. `exec` makes the
first process, or initialises the current thread again, which stays where it is in the queue.
-/

set_option linter.style.nameCheck false

namespace Raincloud

open Infra Infra.LinkStore Infra.Frame Kernel

variable {e : Env} {s s' : KernelState} {p t : Ptr} {ns ts : List Ptr} {u : Unit} {α : Type}

/-- A step that makes no thread. -/
theorem SchedInv.step (h : SchedInv s ns) (ha : Agrees s.created s s') (hs : SameCurrent s s')
    (hc : ∀ t, t ∈ s'.created ↔ t ∈ s.created) : SchedInv s' ns :=
  ⟨(h.threads.agrees ha).of_mem_iff fun t => (hc t).symm, h.current.keep hs⟩

/-! ## `exit` -/

/-- Only processes change. -/
def procsOnly : Frame KernelState where
  rel s s' := s' = { s with procs := s'.procs }
  refl _ := rfl
  trans h1 h2 := by
    rw [h1] at h2
    exact h2

theorem agrees_procs (ts : List Ptr) (h : s' = { s with procs := s'.procs }) :
    Agrees ts s s' := by
  rw [h]
  exact agrees_of ⟨rfl, rfl, rfl, rfl, rfl, rfl, rfl, rfl⟩ (fun _ _ => rfl)
    (fun _ _ => ⟨rfl, rfl⟩) (fun _ _ => ⟨⟨rfl, rfl⟩, ⟨rfl, rfl⟩⟩) (fun _ => id)

/-- The loop of `exit` over the threads stops the one there is. -/
theorem exitThreads_ok (h : OneThread s p t) :
    exitThreads p e s = .ok ((), s.setThread t fun t => { t with status := -1 }) := by
  obtain ⟨fuel, hfuel⟩ : ∃ fuel, walkFuel = fuel + 2 := ⟨2 ^ 64 - 2, by decide⟩
  have hlast : (s.setThread t fun t => { t with status := -1 }).next (.threadNode t)
      = .procThreads p := h.last
  rw [exitThreads, listForEach, hfuel, Program.bind_of_ok Program.gets_apply, h.first,
    listForEachFrom, if_neg (by simp)]
  show listForEachFrom (.procThreads p) _ (fuel + 1)
    ((s.setThread t fun t => { t with status := -1 }).next (.threadNode t)) e _ = _
  rw [hlast, listForEachFrom, if_pos rfl]
  rfl

/-- A thread of a process stopped. -/
theorem agrees_stop (hproc : ∀ q ∈ ts, q = t → (s.threads t).proc ≠ NULL) :
    Agrees ts s (s.setThread t fun t => { t with status := -1 }) := by
  have hthreads : ∀ q, (s.setThread t fun t => { t with status := -1 }).threads q
      = if q = t then { s.threads t with status := -1 } else s.threads q := fun q =>
    Function.update_apply s.threads t _ q
  refine ⟨heap_refl rfl, rfl, rfl, rfl, fun _ _ => ⟨rfl, rfl⟩, fun q _ => ?_, fun q _ hrun => ?_,
    fun q hq hnull hrun => ?_, fun _ _ ho => ⟨ho.first, ho.last, ho.tail⟩, fun _ hc => hc⟩
  · rw [hthreads]
    by_cases hqt : q = t
    · rw [if_pos hqt, hqt]
    · rw [if_neg hqt]
  · rw [hthreads] at hrun
    by_cases hqt : q = t
    · rw [if_pos hqt] at hrun
      exact absurd rfl hrun
    · rwa [if_neg hqt] at hrun
  · rw [hthreads]
    by_cases hqt : q = t
    · exact absurd (hqt ▸ hnull) (hproc q hq hqt)
    · rwa [if_neg hqt]

/-- The state after `exit` has stopped the thread of the process. -/
def exitStop (status : Int) (s : KernelState) : KernelState :=
  let s := s.setProc s.currentProc fun p => { p with status := -1, xstat := (status % 256).toNat }
  s.setThread s.currentThread fun t => { t with status := -1 }

theorem SchedInv.listed (h : SchedInv s ns) (hproc : s.currentProc ≠ NULL) :
    OneThread s s.currentProc s.currentThread := by
  have ho := (h.threads.threads _ h.current.created).listed
  rw [← h.current.proc] at ho
  exact ho hproc

theorem exit_eq (status : Int) (h : SchedInv s ns) (hproc : s.currentProc ≠ NULL) :
    exit status e s = (do exitChildren s.currentProc; sched : Kernel Unit) e (exitStop status s) := by
  have ho := h.listed hproc
  have hone : OneThread (s.setProc s.currentProc fun p =>
      { p with status := -1, xstat := (status % 256).toNat }) s.currentProc s.currentThread :=
    ⟨ho.first, ho.last, ho.tail⟩
  rw [exit, Program.bind_of_ok Program.gets_apply, Program.bind_of_ok Program.modify_apply,
    Program.bind_of_ok (exitThreads_ok hone)]
  rfl

/-- The state in which `exit` calls `sched`. -/
theorem exitChildren_ok {status : Int} (h : SchedInv s ns) (hproc : s.currentProc ≠ NULL)
    (hrun : exitChildren s.currentProc e (exitStop status s) = .ok (u, s')) :
    ThreadsOk s' ns s'.created ∧ s'.created = s.created ∧
      (∀ q, (s'.threads q).context = (s.threads q).context) ∧
      ∀ t, NextThread s' t → NextThread (exitStop status s) t := by
  have hprocs : s' = { (exitStop status s) with procs := s'.procs } := by
    refine keeps_listForEach (F := procsOnly) (fun it => ?_) _ _ _ _ hrun
    exact keeps_bind (keeps_listEntry _) fun _ => keeps_modify fun _ => rfl
  have ha1 : Agrees s.created s (s.setProc s.currentProc fun p =>
      { p with status := -1, xstat := (status % 256).toNat }) := agrees_procs _ rfl
  have hstop : Agrees s.created _ (exitStop status s) := agrees_stop fun q _ _ => by
    show (s.threads s.currentThread).proc ≠ NULL
    rw [← h.current.proc]
    exact hproc
  have hc : s'.created = s.created := by
    rw [hprocs]
    rfl
  refine ⟨?_, hc, fun q => ?_, fun t ht => ?_⟩
  · rw [hc]
    exact h.threads.agrees ((agrees _).trans ha1 ((agrees _).trans hstop (agrees_procs _ hprocs)))
  · rw [hprocs]
    show (Function.update s.threads s.currentThread _ q).context = _
    by_cases hq : q = s.currentThread
    · rw [hq, Function.update_self]
      rfl
    · rw [Function.update_of_ne hq]
  · rw [hprocs] at ht
    obtain ⟨ms, dead, rest, hq, hms, hdead, hruns⟩ := ht
    exact ⟨ms, dead, rest, hq.congr (fun _ _ => ⟨rfl, rfl⟩) rfl fun _ => id, hms, hdead, hruns⟩

theorem exit_inv {status : Int} (h : SchedInv s ns) (hproc : s.currentProc ≠ NULL)
    (he : e.MallocSucceeds) (hrun : exit status e s = .ok (u, s')) :
    (∃ ns', SchedInv s' ns') ∧ (∀ q, (s'.threads q).context = (s.threads q).context) ∧
      s'.created = s.created ∧ NextThread (exitStop status s) s'.currentThread := by
  rw [exit_eq status h hproc] at hrun
  obtain ⟨_, t, hchildren, hsched⟩ := Program.bind_ok.mp hrun
  obtain ⟨hok, hc, hctx, hnext⟩ := exitChildren_ok h hproc hchildren
  obtain ⟨hinv, hthreads, hc', hnext'⟩ := sched_inv hok he hsched
  exact ⟨hinv, fun q => by rw [hthreads, hctx], hc'.trans hc, hnext _ hnext'⟩

/-! ## `exec` -/

theorem still_execRead (path : List UInt8) (entry : Ptr) : still.Keeps (execRead path entry) := by
  refine keeps_bind (keeps_gets _) fun phyAddr => ?_
  split
  · exact keeps_bind (keeps_ask _) fun _ => still_modify fun _ => rfl
  · exact keeps_fault _

theorem quiet_execMap : quiet.Keeps execMap := by
  refine keeps_bind (quiet_of_still still_malloc) fun newMap => quiet_ofInit ?_
  exact keeps_bind (building_of_still still_malloc) fun _ =>
    keeps_bind (building_of_still (still_pageAlloc _)) fun _ =>
    keeps_bind (building_of_still (still_modify fun _ => rfl)) fun _ =>
    keeps_bind (building_vmMapAdd _ _) fun _ =>
    keeps_bind (building_of_still (still_vmMapDoMapping _)) fun _ => keeps_pure _

theorem still_execArgs (path : List UInt8) : still.Keeps (execArgs path) :=
  keeps_bind still_malloc fun _ => keeps_bind still_malloc fun _ => keeps_bind still_malloc
    fun _ => keeps_bind (still_modify fun _ => rfl) fun _ => keeps_bind still_malloc fun _ =>
    keeps_bind still_malloc fun _ => keeps_bind (still_modify fun _ => rfl) fun _ => keeps_pure _

/-- Two blocks allocated and freed around quiet code. -/
theorem quiet_withFile {x : Kernel α} (hx : quiet.Keeps x) : quiet.Keeps (withFile x) := by
  intro e s a s' h
  obtain ⟨fs, s1, h1, h⟩ := Program.bind_ok.mp h
  obtain ⟨file, s2, h2, h⟩ := Program.bind_ok.mp h
  obtain ⟨r, s3, h3, h⟩ := Program.bind_ok.mp h
  cases h
  have hq1 := (still_malloc _ _ _ _ h1).quiet
  have hq2 := (still_malloc _ _ _ _ h2).quiet
  have hq := quiet.trans hq1 (quiet.trans hq2 (hx _ _ _ _ h3))
  refine ⟨?_, fun hheap => ?_, fun r hr => hq.links r hr⟩
  · have hs := hq.same
    rw [hs]
  · -- the blocks freed are those allocated, so none that was in use before
    have hnew : ∀ {p : Ptr} {t t' : KernelState}, Kernel.malloc e t = .ok (p, t') → t.HeapOk →
        p ∉ t.live := fun hm ht => by
      obtain ⟨-, ⟨rfl, -⟩ | ⟨hp, -⟩⟩ := malloc_cases hm
      · exact ht.not_null
      · exact hp
    obtain ⟨hheap1, hlive1⟩ := hq1.heap hheap
    obtain ⟨hheap3, hlive3⟩ := hq.heap hheap
    have hfs := hnew h1 hheap
    have hfile := hnew h2 hheap1
    have hheap4 : { s3 with live := s3.live.erase file }.HeapOk := hheap3.erase rfl
    refine ⟨hheap4.erase rfl, fun p hp => ?_⟩
    show p ∈ (s3.live.erase file).erase fs
    have hpfs : p ≠ fs := fun he => hfs (he ▸ hp)
    have hpfile : p ≠ file := fun he => hfile (he ▸ hlive1 p hp)
    rw [List.mem_erase_of_ne hpfs, List.mem_erase_of_ne hpfile]
    exact hlive3 p hp

/-- The map `exec` builds, and the file it reads into it. -/
theorem quiet_execImage (path : List UInt8) : quiet.Keeps (withFile do
    let (newMap, newEntry) ← execMap
    execRead path newEntry
    return newMap) :=
  quiet_withFile <| keeps_bind quiet_execMap fun _ =>
    keeps_bind (quiet_of_still (still_execRead _ _)) fun _ => keeps_pure _

/-- A first process, up to the queue. -/
theorem execKernel_entering {np nt args envs vmMap : Ptr} {s3 s4 s6 : KernelState}
    (h : SchedInv s ns) (he : e.MallocSucceeds) (hq : Quiet s s3)
    (hm4 : Kernel.malloc e s3 = .ok (np, s4))
    (hm6 : Kernel.malloc e (procInit np NULL args envs vmMap s4) = .ok (nt, s6)) :
    Entering s (threadInit nt np 0 4096 s6) ns nt np := by
  obtain ⟨hnp, hnppos, -, hs4⟩ := malloc_ok he hm4
  obtain ⟨hnt, hntpos, -, hs6⟩ := malloc_ok he hm6
  have hq4 := quiet.trans hq (still_malloc _ _ _ _ hm4).quiet
  have hq6 := (still_malloc _ _ _ _ hm6).quiet
  have hnp0 : np ≠ NULL := Nat.pos_iff_ne_zero.mp hnppos
  obtain ⟨-, hlive3⟩ := hq.heap h.threads.heap
  have hlive5 : (procInit np NULL args envs vmMap s4).live = np :: s3.live := by
    rw [procInit_same.live, hs4]
  rw [hlive5, List.mem_cons, not_or] at hnt
  obtain ⟨htn, htc, -⟩ := h.threads.new_block (fun hl => hnt.2 (hlive3 nt hl)) hntpos
  obtain ⟨hpn, -, hpc⟩ := h.threads.new_block (fun hl => hnp (hlive3 np hl)) hnppos
  have ha4 := hq4.agrees s.created
  have hp4 : ∀ t ∈ s.created, (s4.threads t).proc ≠ np := fun t ht => by
    rw [ha4.proc t ht]
    exact hpc t ht
  have hnull : NULL ≠ NULL → (s4.prev (.procChild NULL)).IsChild := fun hc => absurd rfl hc
  obtain ⟨-, hempty, hchild⟩ := procInit_links (p := np) args envs vmMap hnull
  have ha6 : Agrees s.created s s6 := (agrees _).trans ha4 <|
    (agrees _).trans (procInit_agrees hnull hp4) (hq6.agrees _)
  have hempty6 : s6.prev (.procThreads np) = .procThreads np := by
    rw [hs6]
    exact hempty
  obtain ⟨hone, hlinks⟩ := threadInit_links (s := s6) (t := nt) 0 4096 hnp0 (.inl hempty6)
  -- the fields of the threads
  have hold : ∀ t, t ≠ nt → (threadInit nt np 0 4096 s6).threads t = s.threads t := fun t ht => by
    rw [threadInit_thread 0 4096 hnp0, if_neg ht, hs6]
    show (procInit np NULL args envs vmMap s4).threads t = _
    rw [procInit_threads, hq4.same]
  have hc6 : s6.created = s.created := by
    rw [hs6]
    show (procInit np NULL args envs vmMap s4).created = _
    rw [procInit_created, hq4.same]
  have hnecur : s.currentThread ≠ nt := fun hc => htc (hc ▸ h.current.created)
  have hptr6 : SameCurrent s s6 := sameCurrent.trans hq4.sameCurrent <|
    sameCurrent.trans procInit_sameCurrent hq6.sameCurrent
  have hptr : SameCurrent s (threadInit nt np 0 4096 s6) := by
    refine sameCurrent.trans hptr6 ((threadInit_same hnp0).sameCurrent (fun t ht => ?_) ?_)
    · rw [threadInit_created hnp0]
      exact List.mem_insert_of_mem ht
    · rw [threadInit_thread 0 4096 hnp0, if_neg (by rw [hptr6.thread]; exact hnecur)]
  have hlive : ∀ p, p = nt ∨ p = np → p ∈ (threadInit nt np 0 4096 s6).live := fun p hp => by
    rw [(threadInit_same hnp0).live, hs6]
    show p ∈ nt :: (procInit np NULL args envs vmMap s4).live
    rw [hlive5]
    rcases hp with rfl | rfl <;> simp
  refine ⟨(agrees _).trans ha6 (addThread_agrees (threadInit_same hnp0) hlinks (fun t ht => ?_) htc
    fun t ht => by rw [ha6.proc t ht]; exact hpc t ht), ⟨fun t => ?_, hold⟩, hptr, htc,
    ⟨hlive nt (.inl rfl), htn⟩, by rw [threadInit_thread 0 4096 hnp0, if_pos rfl],
    ⟨hlive np (.inr rfl), hpn⟩, hone, ?_⟩
  · have hne : t ≠ nt := fun he => htc (he ▸ ht)
    rw [threadInit_thread 0 4096 hnp0, if_neg hne]
  · rw [threadInit_created hnp0, hc6]
    exact List.mem_insert_iff
  · rw [show (threadInit nt np 0 4096 s6).prev (.procChild np) = s6.prev (.procChild np) from
      (hlinks (.procChild np) (by simp) (by simp)).2, hs6]
    exact hchild np (.inl rfl)

/-- What `exec` does from the kernel thread. -/
theorem execKernel_run {path : List UInt8} (h : SchedInv s ns) (he : e.MallocSucceeds)
    (hrun : execKernel path e s = .ok (u, s')) :
    ∃ nt np args envs vmMap s3 s4 s6, Quiet s s3 ∧ Kernel.malloc e s3 = .ok (np, s4) ∧
      Kernel.malloc e (procInit np NULL args envs vmMap s4) = .ok (nt, s6) ∧
      Entering s (threadInit nt np 0 4096 s6) ns nt np ∧
      queueEnqueue (threadInit nt np 0 4096 s6).readyQueue nt e (threadInit nt np 0 4096 s6)
        = .ok (u, s') := by
  obtain ⟨⟨newMap, newEntry⟩, s1, h1, hrun⟩ := Program.bind_ok.mp hrun
  obtain ⟨_, s2, h2, hrun⟩ := Program.bind_ok.mp hrun
  obtain ⟨⟨pargs, penvs⟩, s3, h3, hrun⟩ := Program.bind_ok.mp hrun
  obtain ⟨np, s4, hm4, hrun⟩ := Program.bind_ok.mp hrun
  rw [Program.bind_of_ok Program.modify_apply] at hrun
  obtain ⟨nt, s6, hm6, hrun⟩ := Program.bind_ok.mp hrun
  rw [Program.bind_of_ok Program.modify_apply, Program.bind_of_ok Program.gets_apply] at hrun
  have hq : Quiet s s3 := quiet.trans (quiet_execMap _ _ _ _ h1) <|
    quiet.trans (quiet_withFile (quiet_of_still (still_execRead _ _)) _ _ _ _ h2)
      (still_execArgs path _ _ _ _ h3).quiet
  exact ⟨nt, np, pargs, penvs, newMap, s3, s4, s6, hq, hm4, hm6,
    execKernel_entering h he hq hm4 hm6, hrun⟩

/-- `exec` from the kernel thread adds one thread. -/
theorem execKernel_inv {path : List UInt8} (h : SchedInv s ns) (he : e.MallocSucceeds)
    (hrun : execKernel path e s = .ok (u, s')) :
    (∃ ns', SchedInv s' ns') ∧ s'.currentThread = s.currentThread ∧
      ∃ t, t ∉ s.created ∧ Makes s s' t := by
  obtain ⟨nt, np, args, envs, vmMap, s3, s4, s6, -, -, -, hen, hrun⟩ := execKernel_run h he hrun
  obtain ⟨hinv, hmakes, hcur⟩ := hen.enqueue h he hrun
  exact ⟨hinv, hcur, nt, hen.fresh, hmakes⟩

/-- `thread_init` of the one thread of a process. -/
theorem threadInit_again (entrypoint stackTop : Nat) (hp : p ≠ NULL) (hone : OneThread s p t)
    (hproc : (s.threads t).proc = p) (hruns : (s.threads t).status ≠ -1) :
    Agrees ts s (threadInit t p entrypoint stackTop s) := by
  obtain ⟨hone', hlinks⟩ := threadInit_links entrypoint stackTop hp (.inr hone)
  have hthreads := threadInit_thread (s := s) (t := t) entrypoint stackTop hp
  have hsame : SameQueue s (threadInit t p entrypoint stackTop s) := threadInit_same hp
  refine ⟨heap_refl hsame.live, hsame.queueLength, hsame.content, hsame.readyQueue,
    fun r hr => hlinks r ?_ ?_, fun q _ => ?_, fun q _ hrun => ?_, fun q _ hnull hrun => ?_,
    fun q _ ho => ?_, fun c hc => ?_⟩
  · exact fun he => by rw [he] at hr; exact hr
  · exact fun he => by rw [he] at hr; exact hr
  · rw [hthreads]
    by_cases hq : q = t
    · rw [if_pos hq, hq, hproc]
    · rw [if_neg hq]
  · by_cases hq : q = t
    · rw [hq]
      exact hruns
    · rwa [hthreads, if_neg hq] at hrun
  · rw [hthreads]
    by_cases hq : q = t
    · rw [if_pos hq]
      exact fun h => absurd h (by simp)
    · rwa [if_neg hq]
  · by_cases hq : q = t
    · rw [hq, hproc]
      exact hone'
    · -- no other thread hangs on the list of this process
      have hqp : ListRef.procThreads (s.threads q).proc ≠ .procThreads p := fun he => by
        have hf := ho.first
        rw [he, hone.first] at hf
        exact hq (ListRef.threadNode.inj hf).symm
      have h1 := hlinks _ hqp (by simp)
      have h2 := hlinks (.threadNode q) (by simp) (by simpa using hq)
      exact ⟨h1.1.trans ho.first, h2.1.trans ho.last, h1.2.trans ho.tail⟩
  · rw [show (threadInit t p entrypoint stackTop s).prev (.procChild c) = s.prev (.procChild c)
      from (hlinks (.procChild c) (by simp) (by simp)).2]
    exact hc

/-- What `exec` does from a process: its thread is initialised again. -/
theorem execProc_run {path : List UInt8} (hrun : execProc path s.currentProc e s = .ok (u, s')) :
    ∃ newMap s1 s4, Quiet s s1 ∧
      Quiet (s1.setProc s.currentProc fun p => { p with vmMap := newMap }) s4 ∧
      s' = threadInit s.currentThread s.currentProc 0 4096 s4 := by
  obtain ⟨newMap, s1, h1, hrun⟩ := Program.bind_ok.mp hrun
  rw [Program.bind_of_ok Program.modify_apply] at hrun
  obtain ⟨_, s3, h3, hrun⟩ := Program.bind_ok.mp hrun
  rw [Program.bind_of_ok Program.gets_apply] at hrun
  obtain ⟨_, s4, hcheck, hrun⟩ := Program.bind_ok.mp hrun
  obtain ⟨-, rfl⟩ := Program.check_ok.mp hcheck
  cases hrun
  have hq1 : Quiet s s1 := quiet_execImage path _ _ _ _ h1
  have hq3 := (still_vmMapDoMapping _ _ _ _ _ h3).quiet
  have hcur : s4.currentThread = s.currentThread := by
    rw [hq3.same]
    show s1.currentThread = _
    rw [hq1.same]
  rw [hcur]
  exact ⟨newMap, s1, s4, hq1, hq3, rfl⟩

/-- `exec` from a process starts its thread again. -/
theorem execProc_inv {path : List UInt8} (h : SchedInv s ns) (hproc : s.currentProc ≠ NULL)
    (hrun : execProc path s.currentProc e s = .ok (u, s')) :
    SchedInv s' ns ∧ s'.currentThread = s.currentThread ∧
      (∀ t, t ∈ s'.created ↔ t ∈ s.created) ∧
      ∀ t, t ≠ s.currentThread → s'.threads t = s.threads t := by
  obtain ⟨newMap, s1, s4, hq1, hq3, rfl⟩ := execProc_run hrun
  have h2 : Agrees s.created s1 (s1.setProc s.currentProc fun p => { p with vmMap := newMap }) :=
    agrees_procs _ rfl
  have ha4 : Agrees s.created s s4 :=
    (agrees _).trans (hq1.agrees _) ((agrees _).trans h2 (hq3.agrees _))
  have hs2 : SameCurrent s1 (s1.setProc s.currentProc fun p => { p with vmMap := newMap }) :=
    ⟨rfl, rfl, rfl, rfl, fun _ => id, id, rfl⟩
  have hs4 : SameCurrent s s4 := sameCurrent.trans hq1.sameCurrent <|
    sameCurrent.trans hs2 hq3.sameCurrent
  have hc4 : s4.created = s.created := by
    rw [hq3.same]
    show s1.created = _
    rw [hq1.same]
  have ht4 : s4.threads = s.threads := by
    rw [hq3.same]
    show s1.threads = _
    rw [hq1.same]
  have hinv : SchedInv s4 ns := h.step ha4 hs4 fun t => by rw [hc4]
  have hcur := h.current.created
  have hone : OneThread s4 s.currentProc s.currentThread := by
    have ho := ha4.listed _ hcur
    rw [← h.current.proc] at ho
    exact ho (h.listed hproc)
  have hproc4 : (s4.threads s.currentThread).proc = s.currentProc := by
    rw [ht4, h.current.proc]
  have hruns4 : (s4.threads s.currentThread).status ≠ -1 := by
    rw [ht4]
    exact h.current.runs
  have hthreads := threadInit_thread (s := s4) (t := s.currentThread) 0 4096 hproc
  have hcreated : ∀ t, t ∈ (threadInit s.currentThread s.currentProc 0 4096 s4).created ↔
      t ∈ s.created := fun t => by
    rw [threadInit_created hproc, hc4, List.mem_insert_iff]
    exact ⟨fun ht => ht.elim (fun he => he ▸ hcur) id, .inr⟩
  refine ⟨hinv.step (threadInit_again 0 4096 hproc hone hproc4 hruns4) ?_ fun t => ?_,
    (threadInit_same hproc).currentThread.trans hs4.thread, hcreated, fun t ht => ?_⟩
  · have hsame : SameQueue s4 (threadInit s.currentThread s.currentProc 0 4096 s4) :=
      threadInit_same hproc
    refine ⟨hsame.currentThread, hsame.currentProc, hsame.saveContext, hsame.loadContext,
      fun t ht => ?_, fun _ => ?_, ?_⟩
    · rw [hcreated, ← hc4]
      exact ht
    · rw [hs4.thread, hthreads, if_pos rfl]
      simp
    · rw [hs4.thread, hthreads, if_pos rfl, hproc4]
  · rw [hcreated, hc4]
  · rw [hthreads, if_neg ht, ht4]

end Raincloud
