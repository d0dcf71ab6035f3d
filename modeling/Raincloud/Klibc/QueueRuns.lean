import Raincloud.Infra.Run
import Raincloud.Klibc.Queue

/-!
# Runs of a queue

From `queue_init` on, any enqueues and dequeues. The contents leave in the order in which they
came, and the nodes, each of them freed when its content leaves, do so too.
-/

set_option linter.style.nameCheck false

namespace Raincloud

open Infra Infra.LinkStore Kernel

inductive QueueCall where
  | enqueue (content : Ptr)
  | dequeue

/-- The kernel, and what has happened to the queue. -/
structure QueueRun where
  kernel : KernelState
  /-- The contents of all enqueues. -/
  enqueued : List Ptr
  /-- What the dequeues returned, as long as there was something to return. -/
  dequeued : List Ptr
  /-- The blocks of all enqueues. -/
  nodes : List Ptr
  /-- The blocks that were in use before a dequeue and not after it. -/
  freed : List Ptr

/-- The blocks in use of `s` that are not in use in `s'`. -/
def lost (s s' : KernelState) : List Ptr := s.live.filter (· ∉ s'.live)

def QueueStep (queue : Ptr) (s : QueueRun) (a : Env × QueueCall) (s' : QueueRun) : Prop :=
  match a.2 with
  | .enqueue content => a.1.MallocSucceeds ∧
      ∃ k, queueEnqueue queue content a.1 s.kernel = .ok ((), k) ∧ s' = { s with
        kernel := k
        enqueued := s.enqueued ++ [content]
        nodes := s.nodes ++ [a.1.malloc s.kernel] }
  | .dequeue => ∃ ret k, queueDequeue queue a.1 s.kernel = .ok (ret, k) ∧ s' = { s with
      kernel := k
      dequeued := if s.dequeued.length < s.enqueued.length then s.dequeued ++ [ret] else s.dequeued
      freed := s.freed ++ lost s.kernel k }

def queueMachine (queue : Ptr) : Machine QueueRun (Env × QueueCall) where
  start s := ∃ k : KernelState, k.HeapOk ∧ s = ⟨queueInit queue k, [], [], [], []⟩
  step := QueueStep queue

/-! ## First in, first out -/

variable {e : Env} {queue c : Ptr} {s s' : QueueRun} {a : Env × QueueCall} {ns : List Ptr}

/-- The nodes `ns` are pending: they, and nothing else, are what the enqueues have left. -/
structure Pending (queue : Ptr) (s : QueueRun) (ns : List Ptr) : Prop where
  /-- From the head through `next`, and back through `prev`. -/
  ring : Ring s.kernel (.queueHead queue) (ns.map .queueNode)
  length : s.kernel.queueLength queue = ns.length
  contents : s.enqueued = s.dequeued ++ ns.map s.kernel.content
  /-- What is not pending has been freed, once and in order. -/
  freed : s.nodes = s.freed ++ ns
  /-- Of the nodes only those in use are linked. -/
  live : ∀ n ∈ s.nodes, n ∈ s.kernel.live ↔ n ∈ ns

/-- The next dequeue returns the first content that is left, or `NULL` and changes nothing. -/
structure DequeueLawful (queue : Ptr) (e : Env) (s : QueueRun) (ret : Ptr) (k : KernelState) :
    Prop where
  run : queueDequeue queue e s.kernel = .ok (ret, k)
  first : ∀ c, s.enqueued[s.dequeued.length]? = some c → ret = c
  null : ret = NULL ↔ s.dequeued = s.enqueued ∨ s.enqueued[s.dequeued.length]? = some NULL
  same : k = s.kernel ↔ s.dequeued = s.enqueued

/-! ## Steps -/

structure QueueInv (queue : Ptr) (s : QueueRun) (ns : List Ptr) : Prop where
  queue : QueueAt s.kernel queue ns
  heap : s.kernel.HeapOk
  contents : s.enqueued = s.dequeued ++ ns.map s.kernel.content
  freed : s.nodes = s.freed ++ ns
  live : ∀ n ∈ s.nodes, n ∈ s.kernel.live → n ∈ ns

theorem QueueInv.pending (h : QueueInv queue s ns) : Pending queue s ns :=
  ⟨h.queue.ring, h.queue.length, h.contents, h.freed,
    fun n hn => ⟨h.live n hn, h.queue.live n⟩⟩

/-- The one block that a dequeue frees. -/
theorem lost_erase {s s' : KernelState} {n : Ptr} (h : s.HeapOk) (hn : n ∈ s.live)
    (hlive : s'.live = s.live.erase n) : lost s s' = [n] := by
  unfold lost
  rw [hlive]
  have hmem : ∀ m ∈ s.live, decide (m ∉ s.live.erase n) = (m == n) := fun m hm => by
    rw [beq_eq_decide, decide_eq_decide, h.nodup.mem_erase_iff]
    tauto
  rw [List.filter_congr hmem, List.filter_beq, List.count_eq_one_of_mem h.nodup hn]
  rfl

/-- The contents of a pending queue: some are left, or the dequeues have returned them all. -/
theorem QueueInv.dequeue (h : QueueInv queue s ns) (e : Env) : ∃ ret k,
    DequeueLawful queue e s ret k ∧ ∃ ns', QueueInv queue { s with
      kernel := k
      dequeued := if s.dequeued.length < s.enqueued.length then s.dequeued ++ [ret] else s.dequeued
      freed := s.freed ++ lost s.kernel k } ns' := by
  cases ns with
  | nil =>
    have hall : s.dequeued = s.enqueued := by
      rw [h.contents, List.map_nil, List.append_nil]
    have hnone : s.enqueued[s.dequeued.length]? = none := by rw [hall, List.getElem?_length]
    have hlost : lost s.kernel s.kernel = [] := by
      unfold lost
      exact List.filter_eq_nil_iff.mpr fun n hn => by simp [hn]
    refine ⟨NULL, s.kernel, ⟨queueDequeue_nil h.queue, fun c hc => ?_, iff_of_true rfl (.inl hall),
      iff_of_true rfl hall⟩, [], ?_⟩
    · rw [hnone] at hc
      cases hc
    · rw [if_neg (by rw [hall]; exact Nat.lt_irrefl _), hlost, List.append_nil]
      exact h
  | cons n ns =>
    obtain ⟨hq, hheap, hcontents, hfreed, hlive⟩ := h
    have hn : n ∈ s.kernel.live := hq.live n List.mem_cons_self
    have hnd := List.nodup_cons.mp hq.nodup
    have hlt : s.dequeued.length < s.enqueued.length := by
      rw [hcontents, List.length_append, List.length_map, List.length_cons]
      omega
    have hfirst : s.enqueued[s.dequeued.length]? = some (s.kernel.content n) := by
      rw [hcontents, List.getElem?_append_right (Nat.le_refl _), Nat.sub_self]
      rfl
    have hleft : s.dequeued ≠ s.enqueued := fun he => by
      rw [he] at hlt
      exact Nat.lt_irrefl _ hlt
    have hat := queueUnlink_at hq hheap
    refine ⟨s.kernel.content n, queueUnlink queue n s.kernel,
      ⟨queueDequeue_cons hq, fun c hc => Option.some.inj (hfirst.symm.trans hc), ?_, ?_⟩, ns,
      hat, hheap.erase rfl, ?_, ?_, fun m hm hml => ?_⟩
    · rw [hfirst, Option.some.injEq, or_iff_right hleft]
    · refine iff_of_false (fun he => ?_) hleft
      have h1 := hat.length
      rw [he, hq.length, List.length_cons] at h1
      omega
    · show s.enqueued = (if _ then _ else _) ++ ns.map s.kernel.content
      rw [if_pos hlt, hcontents, List.map_cons, List.append_assoc]
      rfl
    · show s.nodes = s.freed ++ lost s.kernel (queueUnlink queue n s.kernel) ++ ns
      rw [lost_erase hheap hn rfl, hfreed, List.append_assoc]
      rfl
    · have hml : m ∈ s.kernel.live.erase n := hml
      rw [hheap.nodup.mem_erase_iff] at hml
      exact (List.mem_cons.mp (hlive m hm hml.2)).resolve_left hml.1

theorem QueueInv.enqueue {k : KernelState} (h : QueueInv queue s ns) (he : e.MallocSucceeds)
    (hrun : queueEnqueue queue c e s.kernel = .ok ((), k)) : ∃ ns', QueueInv queue { s with
      kernel := k
      enqueued := s.enqueued ++ [c]
      nodes := s.nodes ++ [e.malloc s.kernel] } ns' := by
  obtain ⟨n, t, hm, hmod⟩ := Program.bind_ok.mp hrun
  obtain rfl : n = e.malloc s.kernel := (malloc_cases hm).1
  obtain ⟨n, hn, hlive, hheap, hat, hcontent, -⟩ := queueEnqueue_ok he h.queue h.heap hrun
  obtain ⟨-, -, -, ht⟩ := malloc_ok he hm
  have hnode : n = e.malloc s.kernel := by
    cases hmod
    have hcons : n :: s.kernel.live = e.malloc s.kernel :: s.kernel.live := by
      rw [← hlive, ht]
      rfl
    exact (List.cons.inj hcons).1
  subst hnode
  have hother : ∀ m ∈ ns, k.content m = s.kernel.content m := fun m hm => by
    have hne : m ≠ e.malloc s.kernel := fun hmn => hn (hmn ▸ h.queue.live m hm)
    rw [hcontent, Function.update_of_ne hne]
  refine ⟨ns ++ [e.malloc s.kernel], hat, hheap, ?_, ?_, fun m hm hml => ?_⟩
  · rw [List.map_append, List.map_congr_left hother, List.map_singleton, hcontent,
      Function.update_self, ← List.append_assoc, ← h.contents]
  · rw [h.freed, List.append_assoc]
  · rcases List.mem_append.mp hm with hm | hm
    · rw [hlive] at hml
      rcases List.mem_cons.mp hml with rfl | hml
      · exact List.mem_append_right ns List.mem_cons_self
      · exact List.mem_append_left _ (h.live m hm hml)
    · exact List.mem_append_right ns hm

theorem QueueInv.step (h : QueueInv queue s ns) (hstep : QueueStep queue s a s') :
    ∃ ns', QueueInv queue s' ns' := by
  obtain ⟨e, call⟩ := a
  cases call with
  | enqueue content =>
    obtain ⟨he, k, hrun, rfl⟩ := hstep
    exact h.enqueue he hrun
  | dequeue =>
    obtain ⟨ret, k, hrun, rfl⟩ := hstep
    obtain ⟨ret', k', hlaw, hinv⟩ := h.dequeue e
    obtain ⟨rfl, rfl⟩ := Prod.mk.inj (Except.ok.inj (hrun.symm.trans hlaw.run))
    exact hinv

/-! ## Runs -/

theorem queueInv_of_reachable (h : (queueMachine queue).Reachable s) :
    ∃ ns, QueueInv queue s ns := by
  refine h.invariant (fun s => ∃ ns, QueueInv queue s ns) ?_ fun s a s' ⟨ns, hs⟩ hstep =>
    hs.step hstep
  rintro s ⟨k, hheap, rfl⟩
  refine ⟨[], queueAt_init queue k, ⟨hheap.nodup, hheap.range⟩, rfl, rfl, fun n hn => ?_⟩
  exact absurd hn List.not_mem_nil

/--
In every run from `queue_init` the pending nodes hang on the ring in order, what was dequeued
with what is pending is what was enqueued, and what was freed with what is pending is what was
allocated. Each call returns, and a dequeue gives the first content that is left.
-/
theorem queue_fifo (h : (queueMachine queue).Reachable s) : (∃ ns, Pending queue s ns) ∧
    (∀ e, ∃ ret k, DequeueLawful queue e s ret k) ∧
      ∀ e c, e.MallocSucceeds →
        Program.Ends (· = .environment) (queueEnqueue queue c) e s.kernel fun _ _ => True := by
  obtain ⟨ns, hinv⟩ := queueInv_of_reachable h
  refine ⟨⟨ns, hinv.pending⟩, fun e => ?_, fun e c he => ?_⟩
  · obtain ⟨ret, k, hlaw, -⟩ := hinv.dequeue e
    exact ⟨ret, k, hlaw⟩
  · refine Program.ends_bind (malloc_ends he (Q := fun _ _ => True) fun _ _ _ _ => trivial)
      fun _ _ _ => ?_
    exact Program.ends_ok Program.modify_apply trivial

/-- A heap that only grows. -/
def freshBlocks : Env := ⟨fun s => s.live.length + 1, fun _ m => (0, m), fun _ _ m => m⟩

/-- A content on the queue of an empty kernel. -/
theorem queue_fifo_one : ∃ s, s.enqueued = [7] ∧ (∃ ns, Pending 1 s ns) ∧
    (∀ e, ∃ ret k, DequeueLawful 1 e s ret k) ∧
      ∀ e c, e.MallocSucceeds →
        Program.Ends (· = .environment) (queueEnqueue 1 c) e s.kernel fun _ _ => True := by
  obtain ⟨k, hk⟩ : ∃ k, queueEnqueue 1 7 freshBlocks (queueInit 1 bootState) = .ok ((), k) :=
    ⟨_, rfl⟩
  have hheap : bootState.HeapOk := ⟨List.nodup_nil, fun _ hp => absurd hp List.not_mem_nil⟩
  have hstart : (queueMachine 1).Reachable ⟨queueInit 1 bootState, [], [], [], []⟩ :=
    .start ⟨bootState, hheap, rfl⟩
  exact ⟨_, rfl, queue_fifo (hstart.step (a := (freshBlocks, .enqueue 7))
    ⟨fun _ => Nat.succ_ne_zero _, k, hk, rfl⟩)⟩

end Raincloud
