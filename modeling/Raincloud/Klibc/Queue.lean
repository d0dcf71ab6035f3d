import Raincloud.Kernel.Objects

/-!
# `queue.c`

A queue is a list head with a counter; each node holds a pointer that the queue does not look
at. Contents leave in the order in which they came.
-/

set_option linter.style.nameCheck false

namespace Raincloud

open Infra Infra.LinkStore Kernel

/-! ## The functions -/

def queueInit (queue : Ptr) (s : KernelState) : KernelState :=
  let s := listInit s (.queueHead queue)
  { s with queueLength := Function.update s.queueLength queue 0 }

def queueIsempty (queue : Ptr) (s : KernelState) : Bool := s.queueLength queue = 0

/-- The writes of `queue_dequeue`, with its node found. -/
def queueUnlink (queue extract : Ptr) (s : KernelState) : KernelState :=
  let s := listDel s (.queueNode extract)
  { s with
    live := s.live.erase extract
    queueLength := Function.update s.queueLength queue (sub64 (s.queueLength queue) 1) }

def queueDequeue (queue : Ptr) : Kernel Ptr := do
  if ← Program.gets (queueIsempty queue) then return NULL
  let extract ← listEntry (← Program.gets fun s => s.next (.queueHead queue)).queueNode?
  let temp ← Program.gets fun s => s.content extract
  Program.modify (queueUnlink queue extract)
  return temp

/-- The writes of `queue_enqueue`, with its node allocated. -/
def queueLink (queue newNode content : Ptr) (s : KernelState) : KernelState :=
  let s := listInit s (.queueNode newNode)
  let s := { s with content := Function.update s.content newNode content }
  let s := listAddBefore s (.queueHead queue) (.queueNode newNode)
  { s with queueLength := Function.update s.queueLength queue (add64 (s.queueLength queue) 1) }

def queueEnqueue (queue content : Ptr) : Kernel Unit := do
  let newNode ← Kernel.malloc
  Program.modify (queueLink queue newNode content)

/-! ## What a queue holds -/

variable {e : Env} {s s' : KernelState} {queue n c : Ptr} {ns cs : List Ptr}

/-- The nodes of a queue, in order. -/
structure QueueAt (s : KernelState) (queue : Ptr) (ns : List Ptr) : Prop where
  ring : Ring s (.queueHead queue) (ns.map .queueNode)
  length : s.queueLength queue = ns.length
  live : ∀ n ∈ ns, n ∈ s.live

/-- The list heads of queues. -/
def ListRef.IsQueue : ListRef → Prop
  | .queueHead _ | .queueNode _ => True
  | _ => False

/-- All a queue function touches: list heads of queues, their fields, and the blocks in use. -/
structure QueueFrame (s s' : KernelState) : Prop where
  same : s' = { s with
    next := s'.next, prev := s'.prev, content := s'.content, queueLength := s'.queueLength,
    live := s'.live }
  links : ∀ r : ListRef, ¬r.IsQueue → SameLinks s s' r

theorem QueueFrame.refl (s : KernelState) : QueueFrame s s := ⟨rfl, fun _ _ => ⟨rfl, rfl⟩⟩

theorem QueueFrame.trans {s'' : KernelState} (h1 : QueueFrame s s') (h2 : QueueFrame s' s'') :
    QueueFrame s s'' := by
  refine ⟨?_, fun r hr => ?_⟩
  · have h := h2.same
    rw [h1.same] at h
    exact h
  · obtain ⟨n1, p1⟩ := h1.links r hr
    obtain ⟨n2, p2⟩ := h2.links r hr
    exact ⟨n2.trans n1, p2.trans p1⟩

theorem QueueAt.nodup (h : QueueAt s queue ns) : ns.Nodup :=
  (List.nodup_cons.mp h.ring.nodup).2.of_map _

theorem queueNode_inj {a b : Ptr} : ListRef.queueNode a = .queueNode b ↔ a = b := by simp

/-- A queue depends on its own list heads, its counter and the blocks in use. -/
theorem QueueAt.congr (h : QueueAt s queue ns)
    (hlinks : ∀ r : ListRef, r.IsQueue → SameLinks s s' r)
    (hlen : s'.queueLength = s.queueLength) (hlive : ∀ n ∈ s.live, n ∈ s'.live) :
    QueueAt s' queue ns := by
  refine ⟨h.ring.congr fun r hr => hlinks r ?_, by rw [hlen, h.length], fun n hn =>
    hlive n (h.live n hn)⟩
  rcases List.mem_cons.mp hr with rfl | hr
  · trivial
  · obtain ⟨n, -, rfl⟩ := List.mem_map.mp hr
    trivial

theorem queueAt_init (queue : Ptr) (s : KernelState) : QueueAt (queueInit queue s) queue [] := by
  have hU := kernelState_lawfulOn Set.univ
  have hr := ring_listInit hU (Set.mem_univ (ListRef.queueHead queue)) (s := s)
  refine ⟨hr.congr fun _ _ => ⟨rfl, rfl⟩, ?_, fun n hn => absurd hn List.not_mem_nil⟩
  simp [queueInit]

theorem queueInit_frame (queue : Ptr) (s : KernelState) : QueueFrame s (queueInit queue s) := by
  refine ⟨rfl, fun r hr => ?_⟩
  have hne : r ≠ .queueHead queue := fun he => hr (by rw [he]; trivial)
  exact sameLinks_listInit (kernelState_lawfulOn Set.univ) trivial trivial hne

/-- The last node of a queue, or its head. -/
theorem QueueAt.isQueue_prev (h : QueueAt s queue ns) : (s.prev (.queueHead queue)).IsQueue := by
  have hp : s.prev (.queueHead queue) = (ns.map ListRef.queueNode).getLastD (.queueHead queue) :=
    h.ring.prev_head
  rw [hp]
  rcases List.mem_cons.mp (Ring.getLastD_mem (.queueHead queue) (ns.map ListRef.queueNode))
    with he | he
  · rw [he]
    trivial
  · obtain ⟨n, -, hn⟩ := List.mem_map.mp he
    rw [← hn]
    trivial

theorem QueueAt.length_lt (h : QueueAt s queue ns) (hheap : s.HeapOk) : ns.length < 2 ^ 64 :=
  hheap.length_lt h.nodup h.live

/-! ## Enqueue -/

theorem queueLink_frame {p : ListRef} (hp : s.prev (.queueHead queue) = p) (hq : p.IsQueue) :
    QueueFrame s (queueLink queue n c s) := by
  refine ⟨rfl, fun r hr => ?_⟩
  have hU := kernelState_lawfulOn Set.univ
  have hhead : r ≠ .queueHead queue := fun he => hr (by rw [he]; trivial)
  have hnode : r ≠ .queueNode n := fun he => hr (by rw [he]; trivial)
  have hlast : r ≠ p := fun he => hr (by rw [he]; exact hq)
  -- the node of the queue before the new one is `p`, or the new one itself
  have hprev : prev (listInit s (.queueNode n)) (.queueHead queue) = p := by
    rw [prev_listInit hU trivial trivial, if_neg (by simp)]
    exact hp
  have h1 := sameLinks_listInit (s := s) hU trivial trivial hnode
  have h2 := sameLinks_listAdd (p := p) (s := { listInit s (.queueNode n) with
    content := Function.update s.content n c }) hU trivial trivial trivial trivial hnode hlast hhead
  unfold queueLink listAddBefore
  refine ⟨?_, ?_⟩
  · have := h2.1.trans h1.1
    rw [← hprev] at this
    exact this
  · have := h2.2.trans h1.2
    rw [← hprev] at this
    exact this

/-- A new node goes last. -/
theorem queueLink_at (h : QueueAt s queue ns) (hheap : s.HeapOk) (hn : n ∉ s.live)
    (hpos : 0 < n) (hlt : n < 2 ^ 64) :
    QueueAt (queueLink queue n c { s with live := n :: s.live }) queue (ns ++ [n]) := by
  have hU := kernelState_lawfulOn Set.univ
  have hnew : ListRef.queueNode n ∉ ListRef.queueHead queue :: ns.map .queueNode := by
    simp only [List.mem_cons, List.mem_map, queueNode_inj, not_or, not_exists, not_and]
    exact ⟨by simp, fun m hm he => hn (he ▸ h.live m hm)⟩
  have hinit : Ring (listInit { s with live := n :: s.live } (.queueNode n)) (.queueHead queue)
      (ns.map .queueNode) := by
    refine h.ring.congr fun r hr => ?_
    have hne : r ≠ .queueNode n := fun he => hnew (he ▸ hr)
    exact sameLinks_listInit (s := { s with live := n :: s.live }) hU trivial trivial hne
  have hcontent : Ring { listInit { s with live := n :: s.live } (.queueNode n) with
      content := Function.update s.content n c } (.queueHead queue) (ns.map .queueNode) :=
    hinit.congr fun _ _ => ⟨rfl, rfl⟩
  have hring := ring_listAddBefore_head hU hcontent (fun _ _ => trivial) trivial hnew
  have hfit : (ns ++ [n]).length < 2 ^ 64 := by
    have hheap' : { s with live := n :: s.live }.HeapOk := hheap.cons hn hpos hlt rfl
    refine hheap'.length_lt ?_ ?_
    · exact List.nodup_append.mpr ⟨h.nodup, by simp, fun a ha b hb he => hn (by
        rw [← List.mem_singleton.mp hb, ← he]
        exact h.live a ha)⟩
    · intro m hm
      rcases List.mem_append.mp hm with hm | hm
      · exact List.mem_cons_of_mem n (h.live m hm)
      · rw [List.mem_singleton.mp hm]
        exact List.mem_cons_self
  refine ⟨?_, ?_, fun m hm => ?_⟩
  · rw [List.map_append, List.map_singleton]
    exact hring.congr fun _ _ => ⟨rfl, rfl⟩
  · show Function.update s.queueLength queue (add64 (s.queueLength queue) 1) queue = _
    rw [Function.update_self, h.length, List.length_append, List.length_singleton, add64_eq]
    simpa using hfit
  · show m ∈ n :: s.live
    rcases List.mem_append.mp hm with hm | hm
    · exact List.mem_cons_of_mem n (h.live m hm)
    · rw [List.mem_singleton.mp hm]
      exact List.mem_cons_self

/-- `queue_enqueue` adds a content at the end. -/
theorem queueEnqueue_ok {u : Unit} (he : e.MallocSucceeds) (h : QueueAt s queue ns)
    (hheap : s.HeapOk) (hrun : queueEnqueue queue c e s = .ok (u, s')) :
    ∃ n, n ∉ s.live ∧ s'.live = n :: s.live ∧ s'.HeapOk ∧ QueueAt s' queue (ns ++ [n]) ∧
      s'.content = Function.update s.content n c ∧ QueueFrame s s' := by
  obtain ⟨n, t, hm, hmod⟩ := Program.bind_ok.mp hrun
  obtain ⟨hn, hpos, hlt, rfl⟩ := malloc_ok he hm
  cases hmod
  refine ⟨n, hn, rfl, hheap.cons hn hpos hlt rfl, queueLink_at h hheap hn hpos hlt, rfl, ?_⟩
  have hf := queueLink_frame (s := { s with live := n :: s.live }) (n := n) (c := c) rfl
    h.isQueue_prev
  exact ⟨hf.same, hf.links⟩

/-! ## Dequeue -/

theorem queueUnlink_frame (h : QueueAt s queue (n :: ns)) :
    QueueFrame s (queueUnlink queue n s) := by
  refine ⟨rfl, fun r hr => ?_⟩
  have hprev : prev s (.queueNode n) = .queueHead queue := h.ring.prev_mem (A := [])
  have hnext : next s (.queueNode n) = (ns.map ListRef.queueNode).headD (.queueHead queue) :=
    h.ring.next_mem (A := [])
  have hq : (next s (.queueNode n)).IsQueue := by
    rw [hnext]
    rcases List.mem_cons.mp (Ring.headD_mem_cons (.queueHead queue) (ns.map ListRef.queueNode))
      with he | he
    · rw [he]
      trivial
    · obtain ⟨m, -, hm⟩ := List.mem_map.mp he
      rw [← hm]
      trivial
  refine sameLinks_listDel (kernelState_lawfulOn Set.univ) trivial trivial trivial ?_ ?_
  · rw [hprev]
    exact fun he => hr (by rw [he]; trivial)
  · exact fun he => hr (by rw [he]; exact hq)

theorem queueUnlink_at (h : QueueAt s queue (n :: ns)) (hheap : s.HeapOk) :
    QueueAt (queueUnlink queue n s) queue ns := by
  have hU := kernelState_lawfulOn Set.univ
  have hring := ring_listDel (A := []) (B := ns.map ListRef.queueNode) hU h.ring
    fun _ _ => Set.mem_univ _
  have hlen := h.length
  have hlt := h.length_lt hheap
  have hnd := List.nodup_cons.mp h.nodup
  refine ⟨hring.congr fun _ _ => ⟨rfl, rfl⟩, ?_, fun m hm => ?_⟩
  · show Function.update s.queueLength queue (sub64 (s.queueLength queue) 1) queue = _
    rw [List.length_cons] at hlen hlt
    rw [Function.update_self, hlen, sub64_eq (by omega) hlt, Nat.add_sub_cancel]
  · have hne : m ≠ n := fun he => hnd.1 (he ▸ hm)
    exact (List.mem_erase_of_ne hne).mpr (h.live m (List.mem_cons_of_mem n hm))

/-- `queue_dequeue` on an empty queue. -/
theorem queueDequeue_nil (h : QueueAt s queue []) : queueDequeue queue e s = .ok (NULL, s) := by
  have hlen : queueIsempty queue s = true := by simp [queueIsempty, h.length]
  rw [queueDequeue, Program.bind_of_ok Program.gets_apply, hlen]
  rfl

/-- `queue_dequeue` takes the first content. -/
theorem queueDequeue_cons (h : QueueAt s queue (n :: ns)) :
    queueDequeue queue e s = .ok (s.content n, queueUnlink queue n s) := by
  have hlen : queueIsempty queue s = false := by simp [queueIsempty, h.length]
  have hnext : s.next (.queueHead queue) = .queueNode n := h.ring.next_head
  rw [queueDequeue, Program.bind_of_ok Program.gets_apply, hlen]
  simp only [Bool.false_eq_true, if_false]
  rw [Program.bind_of_ok Program.gets_apply, hnext]
  rfl

end Raincloud
