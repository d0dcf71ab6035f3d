import Raincloud.Kernel.Frames
import Raincloud.Proc.Sched

/-!
# New threads and processes

What making a thread or a process changes: which links, and which fields of which threads.
The list of threads of a process holds one thread, and stays in order also when `exec` links
that thread in once more.
-/

set_option linter.style.nameCheck false

namespace Raincloud

open Infra Infra.LinkStore Infra.Frame Kernel

variable {e : Env} {s s' : KernelState} {p q t u : Ptr} {r : ListRef} {u₁ : Unit}

theorem lawful : LawfulOn KernelState (Set.univ : Set ListRef) := kernelState_lawfulOn Set.univ

/-! ## Lists of children -/

/-- The list heads that lists of children run through. -/
def ListRef.IsChild : ListRef → Prop
  | .procNode _ | .procChild _ => True
  | _ => False

/-! ## Lists of threads -/

/-- The list of a process holds one thread, as `list_for_each` sees it. -/
structure OneThread (s : KernelState) (p t : Ptr) : Prop where
  first : s.next (.procThreads p) = .threadNode t
  last : s.next (.threadNode t) = .procThreads p
  tail : s.prev (.procThreads p) = .threadNode t

/-- A thread linked into an empty list, or once more into the list it is in. -/
theorem oneThread_listAddBefore (h : s.prev (.procThreads p) = .procThreads p ∨
    s.next (.procThreads p) = .threadNode t ∧ s.prev (.procThreads p) = .threadNode t) :
    OneThread (listAddBefore s (.procThreads p) (.threadNode t)) p t := by
  unfold listAddBefore
  constructor
  · show next (__listAdd s (prev s (.procThreads p)) (.procThreads p) (.threadNode t))
      (ListRef.procThreads p) = _
    rw [next_listAdd lawful trivial trivial trivial trivial, if_neg (by simp)]
    rcases h with h | ⟨h, h'⟩
    · exact if_pos h.symm
    · refine (if_neg ?_).trans h
      show ListRef.procThreads p ≠ s.prev (.procThreads p)
      rw [h']
      simp
  · show next (__listAdd s (prev s (.procThreads p)) (.procThreads p) (.threadNode t))
      (ListRef.threadNode t) = _
    rw [next_listAdd lawful trivial trivial trivial trivial, if_pos rfl]
  · show prev (__listAdd s (prev s (.procThreads p)) (.procThreads p) (.threadNode t))
      (ListRef.procThreads p) = _
    rw [prev_listAdd lawful trivial trivial trivial trivial, if_pos rfl]

/-- Nothing else is linked anew. -/
theorem sameLinks_addThread (h : s.prev (.procThreads p) = .procThreads p ∨
    s.prev (.procThreads p) = .threadNode t) (hp : r ≠ .procThreads p)
    (ht : r ≠ .threadNode t) :
    SameLinks s (listAddBefore s (.procThreads p) (.threadNode t)) r := by
  refine sameLinks_listAdd lawful trivial trivial trivial trivial ht ?_ hp
  rcases h with h | h
  · exact fun he => hp (he.trans h)
  · exact fun he => ht (he.trans h)

/-! ## The threads and the queue -/

/-- A block in use that is not a node of the queue. -/
def OwnBlock (s : KernelState) (ns : List Ptr) (p : Ptr) : Prop := p ∈ s.live ∧ p ∉ ns

/-- A thread, and its process if it has one. -/
structure ThreadOk (s : KernelState) (ns : List Ptr) (t : Ptr) : Prop where
  own : OwnBlock s ns t
  ownProc : (s.threads t).proc ≠ NULL → OwnBlock s ns (s.threads t).proc
  listed : (s.threads t).proc ≠ NULL → OneThread s (s.threads t).proc t
  child : (s.threads t).proc ≠ NULL → (s.prev (.procChild (s.threads t).proc)).IsChild

/-- The ready queue, with nodes `ns`, and the threads `ts`. -/
structure ThreadsOk (s : KernelState) (ns ts : List Ptr) : Prop where
  heap : s.HeapOk
  queue : QueueAt s s.readyQueue ns
  contents : ∀ n ∈ ns, s.content n ∈ ts
  once : (ns.map s.content).Nodup
  runnable : ∀ t ∈ ts, (s.threads t).status ≠ -1 → t ∈ ns.map s.content
  threads : ∀ t ∈ ts, ThreadOk s ns t
  kernel : ∃ k ∈ ts, (s.threads k).proc = NULL ∧ (s.threads k).status ≠ -1

/-- What a step may change without harm to the threads `ts` and the queue. -/
structure Agrees (ts : List Ptr) (s s' : KernelState) : Prop where
  heap : s.HeapOk → s'.HeapOk ∧ ∀ p ∈ s.live, p ∈ s'.live
  queueLength : s'.queueLength = s.queueLength
  content : s'.content = s.content
  readyQueue : s'.readyQueue = s.readyQueue
  links : ∀ r : ListRef, r.IsQueue → SameLinks s s' r
  proc : ∀ t ∈ ts, (s'.threads t).proc = (s.threads t).proc
  stops : ∀ t ∈ ts, (s'.threads t).status ≠ -1 → (s.threads t).status ≠ -1
  runs : ∀ t ∈ ts, (s.threads t).proc = NULL → (s.threads t).status ≠ -1 →
    (s'.threads t).status ≠ -1
  listed : ∀ t ∈ ts, OneThread s (s.threads t).proc t → OneThread s' (s.threads t).proc t
  child : ∀ p, (s.prev (.procChild p)).IsChild → (s'.prev (.procChild p)).IsChild

theorem SameLinks.trans {s t u : KernelState} (h1 : SameLinks s t r) (h2 : SameLinks t u r) :
    SameLinks s u r := ⟨h2.1.trans h1.1, h2.2.trans h1.2⟩

def agrees (ts : List Ptr) : Frame KernelState where
  rel := Agrees ts
  refl _ := ⟨heap_refl rfl, rfl, rfl, rfl, fun _ _ => ⟨rfl, rfl⟩, fun _ _ => rfl,
    fun _ _ => id, fun _ _ _ => id, fun _ _ h => h, fun _ h => h⟩
  trans {s t u} h1 h2 := by
    refine ⟨heap_trans h1.heap h2.heap, h2.queueLength.trans h1.queueLength,
      h2.content.trans h1.content, h2.readyQueue.trans h1.readyQueue,
      fun r hr => SameLinks.trans (h1.links r hr) (h2.links r hr),
      fun v hv => (h2.proc v hv).trans (h1.proc v hv),
      fun v hv h => h1.stops v hv (h2.stops v hv h), fun v hv hp h => ?_, fun v hv h => ?_,
      fun p h => h2.child p (h1.child p h)⟩
    · exact h2.runs v hv ((h1.proc v hv).trans hp) (h1.runs v hv hp h)
    · have h' := h2.listed v hv
      rw [h1.proc v hv] at h'
      exact h' (h1.listed v hv h)

theorem ThreadOk.agrees {ns ts : List Ptr} (h : ThreadOk s ns t) (ht : t ∈ ts)
    (ha : Agrees ts s s') (hheap : s.HeapOk) : ThreadOk s' ns t := by
  have hproc := ha.proc t ht
  have hlive := (ha.heap hheap).2
  constructor
  · exact ⟨hlive t h.own.1, h.own.2⟩
  · rw [hproc]
    exact fun hp => ⟨hlive _ (h.ownProc hp).1, (h.ownProc hp).2⟩
  · rw [hproc]
    exact fun hp => ha.listed t ht (h.listed hp)
  · rw [hproc]
    exact fun hp => ha.child _ (h.child hp)

theorem ThreadsOk.agrees {ns ts : List Ptr} (h : ThreadsOk s ns ts) (ha : Agrees ts s s') :
    ThreadsOk s' ns ts := by
  obtain ⟨hheap, hlive⟩ := ha.heap h.heap
  refine ⟨hheap, ?_, ?_, ?_, ?_, fun t ht => (h.threads t ht).agrees ht ha h.heap, ?_⟩
  · rw [ha.readyQueue]
    exact h.queue.congr ha.links ha.queueLength hlive
  · rw [ha.content]
    exact h.contents
  · rw [ha.content]
    exact h.once
  · intro t ht hs
    rw [ha.content]
    exact h.runnable t ht (ha.stops t ht hs)
  · obtain ⟨k, hk, hproc, hstatus⟩ := h.kernel
    exact ⟨k, hk, (ha.proc k hk).trans hproc, ha.runs k hk hproc hstatus⟩

/-- A step that leaves threads and all lists but those of memory maps alone. -/
theorem Quiet.agrees (h : Quiet s s') (ts : List Ptr) : Agrees ts s s' := by
  have hthreads : s'.threads = s.threads := by rw [h.same]
  refine ⟨h.heap, by rw [h.same], by rw [h.same], by rw [h.same], fun r hr => h.links r ?_,
    fun t _ => by rw [hthreads], fun t _ => by rw [hthreads]; exact id,
    fun t _ _ => by rw [hthreads]; exact id, fun t _ ho => ?_, fun p hp => ?_⟩
  · exact fun hm => by cases r <;> simp_all [ListRef.IsQueue, ListRef.IsVmMap]
  · have h1 := h.links (.procThreads (s.threads t).proc) id
    have h2 := h.links (.threadNode t) id
    exact ⟨h1.1.trans ho.first, h2.1.trans ho.last, h1.2.trans ho.tail⟩
  · rw [show s'.prev (.procChild p) = s.prev (.procChild p) from (h.links (.procChild p) id).2]
    exact hp

/-! ## Duplicated and initialised threads -/

/-- Fields that the functions below leave alone. -/
structure SameQueue (s s' : KernelState) : Prop where
  queueLength : s'.queueLength = s.queueLength
  content : s'.content = s.content
  readyQueue : s'.readyQueue = s.readyQueue
  live : s'.live = s.live
  currentThread : s'.currentThread = s.currentThread
  currentProc : s'.currentProc = s.currentProc
  saveContext : s'.saveContext = s.saveContext
  loadContext : s'.loadContext = s.loadContext

/-- A step that leaves the threads `ts` and their links alone. -/
theorem agrees_of {ts : List Ptr} (hq : SameQueue s s')
    (hthreads : ∀ t ∈ ts, s'.threads t = s.threads t)
    (hlinks : ∀ r : ListRef, r.IsQueue → SameLinks s s' r)
    (hone : ∀ t ∈ ts, SameLinks s s' (.procThreads (s.threads t).proc) ∧
      SameLinks s s' (.threadNode t))
    (hchild : ∀ p, (s.prev (.procChild p)).IsChild → (s'.prev (.procChild p)).IsChild) :
    Agrees ts s s' := by
  refine ⟨heap_refl hq.live, hq.queueLength, hq.content, hq.readyQueue, hlinks,
    fun t ht => by rw [hthreads t ht], fun t ht => by rw [hthreads t ht]; exact id,
    fun t ht _ => by rw [hthreads t ht]; exact id, fun t ht ho => ?_, hchild⟩
  obtain ⟨h1, h2⟩ := hone t ht
  exact ⟨h1.1.trans ho.first, h2.1.trans ho.last, h1.2.trans ho.tail⟩

theorem threadDup_same (t u : Ptr) (s : KernelState) : SameQueue s (threadDup t u s) :=
  ⟨rfl, rfl, rfl, rfl, rfl, rfl, rfl, rfl⟩

theorem threadDup_thread (t u q : Ptr) (s : KernelState) : (threadDup t u s).threads q
    = if q = t then { s.threads u with tid := (tidAlloc s).1 } else s.threads q := by
  by_cases hq : q = t
  · rw [if_pos hq, hq]
    simp [threadDup, KernelState.setThread, tidAlloc, listInit, setNext, setPrev]
  · rw [if_neg hq]
    simp [threadDup, KernelState.setThread, tidAlloc, listInit, setNext, setPrev,
      Function.update_of_ne hq]

theorem threadDup_links (hr : r ≠ .threadNode t) : SameLinks s (threadDup t u s) r :=
  sameLinks_listInit (s := (tidAlloc (s.setThread t fun _ => s.threads u)).2.setThread t _)
    lawful trivial trivial hr

theorem threadDup_agrees {ts : List Ptr} (ht : t ∉ ts) : Agrees ts s (threadDup t u s) := by
  have hlinks : ∀ r : ListRef, r ≠ .threadNode t → SameLinks s (threadDup t u s) r :=
    fun r hr => threadDup_links hr
  refine agrees_of (threadDup_same t u s) (fun q hq => ?_) (fun r hr => hlinks r ?_)
    (fun q hq => ⟨hlinks _ (by simp), hlinks _ ?_⟩) (fun p hp => ?_)
  · have hne : q ≠ t := fun he => ht (he ▸ hq)
    rw [threadDup_thread, if_neg hne]
  · exact fun he => by rw [he] at hr; exact hr
  · exact fun he => ht (ListRef.threadNode.inj he ▸ hq)
  · rw [show (threadDup t u s).prev (.procChild p) = s.prev (.procChild p) from
      (hlinks (.procChild p) (by simp)).2]
    exact hp

theorem threadAttach_same (t p : Ptr) (s : KernelState) : SameQueue s (threadAttach t p s) :=
  ⟨rfl, rfl, rfl, rfl, rfl, rfl, rfl, rfl⟩

theorem threadAttach_threads (t p : Ptr) (s : KernelState) :
    (threadAttach t p s).threads = Function.update s.threads t { s.threads t with proc := p } :=
  rfl

/-- A thread linked into a list that is not that of one of `ts`. -/
theorem addThread_agrees {ts : List Ptr} (hq : SameQueue s s')
    (hlinks : ∀ r, r ≠ .procThreads p → r ≠ .threadNode t → SameLinks s s' r)
    (hthreads : ∀ q ∈ ts, s'.threads q = s.threads q) (ht : t ∉ ts)
    (hp : ∀ q ∈ ts, (s.threads q).proc ≠ p) : Agrees ts s s' := by
  refine agrees_of hq hthreads (fun r hr => hlinks r ?_ ?_)
    (fun q hqt => ⟨hlinks _ ?_ (by simp), hlinks _ (by simp) ?_⟩) (fun c hc => ?_)
  · exact fun he => by rw [he] at hr; exact hr
  · exact fun he => by rw [he] at hr; exact hr
  · exact fun he => hp q hqt (ListRef.procThreads.inj he)
  · exact fun he => ht (ListRef.threadNode.inj he ▸ hqt)
  · rw [show s'.prev (.procChild c) = s.prev (.procChild c) from
      (hlinks (.procChild c) (by simp) (by simp)).2]
    exact hc

theorem threadAttach_agrees {ts : List Ptr} (hempty : s.prev (.procThreads p) = .procThreads p)
    (ht : t ∉ ts) (hp : ∀ q ∈ ts, (s.threads q).proc ≠ p) :
    Agrees ts s (threadAttach t p s) ∧ OneThread (threadAttach t p s) p t := by
  refine ⟨addThread_agrees (threadAttach_same t p s) (fun r hrp hrt => ?_) (fun q hq => ?_) ht hp,
    oneThread_listAddBefore (.inl hempty)⟩
  · exact sameLinks_addThread (s := s.setThread t fun t => { t with proc := p }) (.inl hempty)
      hrp hrt
  · have hne : q ≠ t := fun he => ht (he ▸ hq)
    rw [threadAttach_threads, Function.update_of_ne hne]

/-! ## `thread_init` -/

/-- `thread_init` before it links the thread in. -/
def threadSetup (t p : Ptr) (entrypoint stackTop : Nat) (s : KernelState) : KernelState :=
  let s := clearThread t s
  let r := tidAlloc s
  let s := listInit r.2 (.threadNode t)
  let s := s.setThread t fun _ => ⟨r.1, 0, p, initialContext p entrypoint stackTop⟩
  { s with created := s.created.insert t }

theorem threadInit_eq {entrypoint stackTop : Nat} (hp : p ≠ NULL) :
    threadInit t p entrypoint stackTop s
      = listAddBefore (threadSetup t p entrypoint stackTop s) (.procThreads p) (.threadNode t) :=
  if_pos hp

theorem threadSetup_links (p entrypoint stackTop : Nat) (hr : r ≠ .threadNode t) :
    SameLinks s (threadSetup t p entrypoint stackTop s) r := by
  have h1 : SameLinks s (tidAlloc (clearThread t s)).2 r :=
    ⟨Function.update_of_ne hr _ _, Function.update_of_ne hr _ _⟩
  exact SameLinks.trans h1 (sameLinks_listInit (s := (tidAlloc (clearThread t s)).2) lawful
    trivial trivial hr)

theorem threadInit_same {entrypoint stackTop : Nat} (hp : p ≠ NULL) :
    SameQueue s (threadInit t p entrypoint stackTop s) := by
  rw [threadInit_eq hp]
  exact ⟨rfl, rfl, rfl, rfl, rfl, rfl, rfl, rfl⟩

theorem threadInit_created {entrypoint stackTop : Nat} (hp : p ≠ NULL) :
    (threadInit t p entrypoint stackTop s).created = s.created.insert t := by
  rw [threadInit_eq hp]
  rfl

theorem threadInit_thread (entrypoint stackTop : Nat) (hp : p ≠ NULL) (q : Ptr) :
    (threadInit t p entrypoint stackTop s).threads q = if q = t then
      ⟨(tidAlloc s).1, 0, p, initialContext p entrypoint stackTop⟩ else s.threads q := by
  rw [threadInit_eq hp]
  by_cases hq : q = t
  · rw [if_pos hq, hq]
    simp [listAddBefore, __listAdd, threadSetup, clearThread, KernelState.setThread, tidAlloc,
      listInit, setNext, setPrev]
  · rw [if_neg hq]
    simp [listAddBefore, __listAdd, threadSetup, clearThread, KernelState.setThread, tidAlloc,
      listInit, setNext, setPrev, Function.update_of_ne hq]

/-- The links of `thread_init`, for a new thread and for the one thread of a process. -/
theorem threadInit_links (entrypoint stackTop : Nat) (hp : p ≠ NULL)
    (h : s.prev (.procThreads p) = .procThreads p ∨ OneThread s p t) :
    OneThread (threadInit t p entrypoint stackTop s) p t ∧
      ∀ r, r ≠ .procThreads p → r ≠ .threadNode t →
        SameLinks s (threadInit t p entrypoint stackTop s) r := by
  rw [threadInit_eq hp]
  have hne : ListRef.procThreads p ≠ .threadNode t := by simp
  obtain ⟨hn, hpv⟩ := threadSetup_links (s := s) p entrypoint stackTop hne
  constructor
  · refine oneThread_listAddBefore ?_
    rcases h with h | h
    · exact .inl (hpv.trans h)
    · exact .inr ⟨hn.trans h.first, hpv.trans h.tail⟩
  · intro r hrp hrt
    refine SameLinks.trans (threadSetup_links p entrypoint stackTop hrt)
      (sameLinks_addThread ?_ hrp hrt)
    rcases h with h | h
    · exact .inl (hpv.trans h)
    · exact .inr (hpv.trans h.tail)

/-! ## `proc_init` -/

section ProcInit

variable {parent args envs vmMap : Ptr}

/-- `proc_init` before it links the process in. -/
def procSetup (p parent args envs vmMap : Ptr) (s : KernelState) : KernelState :=
  let r := pidAlloc s
  let s := listInit r.2 (.procNode p)
  let s := listInit s (.procThreads p)
  let s := listInit s (.procChild p)
  s.setProc p fun q =>
    { q with
      pid := r.1, parent := parent, nice := 0, status := 0, args := args, envs := envs
      vmMap := vmMap
      fdTable := if parent ≠ NULL then (s.procs parent).fdTable else fun _ => NULL }

theorem procInit_eq : procInit p parent args envs vmMap s
    = if parent ≠ NULL then
        listAddBefore (procSetup p parent args envs vmMap s) (.procChild parent) (.procNode p)
      else procSetup p parent args envs vmMap s := rfl

theorem procInit_same : SameQueue s (procInit p parent args envs vmMap s) := by
  rw [procInit_eq]
  split <;> exact ⟨rfl, rfl, rfl, rfl, rfl, rfl, rfl, rfl⟩

theorem procInit_created : (procInit p parent args envs vmMap s).created = s.created := by
  rw [procInit_eq]
  split <;> rfl

theorem procInit_threads : (procInit p parent args envs vmMap s).threads = s.threads := by
  rw [procInit_eq]
  split <;> rfl

theorem procSetup_links (hrc : r ≠ .procChild p) (hrn : r ≠ .procNode p)
    (hrt : r ≠ .procThreads p) : SameLinks s (procSetup p parent args envs vmMap s) r := by
  have h1 := sameLinks_listInit (s := (pidAlloc s).2) lawful trivial trivial hrn
  have h2 := sameLinks_listInit (s := listInit (pidAlloc s).2 (.procNode p)) lawful trivial
    trivial hrt
  have h3 := sameLinks_listInit (s := listInit (listInit (pidAlloc s).2 (.procNode p))
    (.procThreads p)) lawful trivial trivial hrc
  exact SameLinks.trans (SameLinks.trans h1 h2) h3

theorem procSetup_child {c : Ptr} (h : c = p ∨ (s.prev (.procChild c)).IsChild) :
    ((procSetup p parent args envs vmMap s).prev (.procChild c)).IsChild := by
  by_cases hc : c = p
  · have hself : (procSetup p parent args envs vmMap s).prev (.procChild p) = .procChild p := by
      show prev (listInit (listInit (listInit (pidAlloc s).2 (ListRef.procNode p))
        (ListRef.procThreads p)) (ListRef.procChild p)) (ListRef.procChild p) = _
      rw [prev_listInit lawful trivial trivial, if_pos rfl]
    rw [hc, hself]
    trivial
  · rw [show (procSetup p parent args envs vmMap s).prev (.procChild c) = s.prev (.procChild c)
      from (procSetup_links (by simpa using hc) (by simp) (by simp)).2]
    exact h.resolve_left hc

theorem procSetup_threads : (procSetup p parent args envs vmMap s).prev (.procThreads p)
    = .procThreads p := by
  show prev (listInit (listInit (listInit (pidAlloc s).2 (ListRef.procNode p))
    (ListRef.procThreads p)) (ListRef.procChild p)) (ListRef.procThreads p) = _
  rw [prev_listInit lawful trivial trivial, if_neg (by simp), prev_listInit lawful trivial trivial,
    if_pos rfl]

/-- A process linked last among the children of its parent. -/
theorem addChild_links (h : (s.prev (.procChild parent)).IsChild) :
    (∀ r : ListRef, ¬r.IsChild →
      SameLinks s (listAddBefore s (.procChild parent) (.procNode p)) r) ∧
    ∀ c, (s.prev (.procChild c)).IsChild →
      ((listAddBefore s (.procChild parent) (.procNode p)).prev (.procChild c)).IsChild := by
  constructor
  · intro r hr
    refine sameLinks_listAdd lawful trivial trivial trivial trivial ?_ ?_ ?_
    · exact fun he => hr (by rw [he]; trivial)
    · exact fun he => hr (by rw [he]; exact h)
    · exact fun he => hr (by rw [he]; trivial)
  · intro c hc
    show (prev (__listAdd s (prev s (ListRef.procChild parent)) (ListRef.procChild parent)
      (ListRef.procNode p)) (ListRef.procChild c)).IsChild
    rw [prev_listAdd lawful trivial trivial trivial trivial]
    split
    · trivial
    · rw [if_neg (by simp)]
      exact hc

theorem procInit_links (args envs vmMap : Ptr)
    (hparent : parent ≠ NULL → (s.prev (.procChild parent)).IsChild) :
    (∀ r : ListRef, ¬r.IsChild → r ≠ .procThreads p →
      SameLinks s (procInit p parent args envs vmMap s) r) ∧
    (procInit p parent args envs vmMap s).prev (.procThreads p) = .procThreads p ∧
    ∀ c, c = p ∨ (s.prev (.procChild c)).IsChild →
      ((procInit p parent args envs vmMap s).prev (.procChild c)).IsChild := by
  have hsetup : ∀ r : ListRef, ¬r.IsChild → r ≠ .procThreads p →
      SameLinks s (procSetup p parent args envs vmMap s) r := fun r hr hrt =>
    procSetup_links (fun he => hr (by rw [he]; trivial)) (fun he => hr (by rw [he]; trivial)) hrt
  rw [procInit_eq]
  by_cases hnull : parent ≠ NULL
  · rw [if_pos hnull]
    obtain ⟨hl, hc⟩ := addChild_links (s := procSetup p parent args envs vmMap s) (p := p)
      (procSetup_child (.inr (hparent hnull)))
    refine ⟨fun r hr hrt => SameLinks.trans (hsetup r hr hrt) (hl r hr), ?_, fun c h =>
      hc c (procSetup_child h)⟩
    exact (hl (.procThreads p) (fun h => h)).2.trans procSetup_threads
  · rw [if_neg hnull]
    exact ⟨hsetup, procSetup_threads, fun c h => procSetup_child h⟩

theorem procInit_agrees {ts : List Ptr}
    (hparent : parent ≠ NULL → (s.prev (.procChild parent)).IsChild)
    (hp : ∀ q ∈ ts, (s.threads q).proc ≠ p) :
    Agrees ts s (procInit p parent args envs vmMap s) := by
  obtain ⟨hlinks, -, hchild⟩ := procInit_links (p := p) args envs vmMap hparent
  refine agrees_of procInit_same (fun q _ => by rw [procInit_threads]) (fun r hr => ?_)
    (fun q hq => ⟨?_, ?_⟩) (fun c hc => hchild c (.inr hc))
  · refine hlinks r ?_ ?_
    · exact fun hc => by cases r <;> simp_all [ListRef.IsQueue, ListRef.IsChild]
    · exact fun he => by rw [he] at hr; exact hr
  · exact hlinks _ (fun h => h) fun he => hp q hq (ListRef.procThreads.inj he)
  · exact hlinks _ (fun h => h) (by simp)

end ProcInit

end Raincloud
