import Raincloud.Proc.Making

/-!
# What `sched` does

The loop drops the stopped threads at the front of the ready queue and takes the first other
one, which then goes to the back.
-/

set_option linter.style.nameCheck false

namespace Raincloud

open Infra Infra.LinkStore Infra.Frame Kernel

variable {e : Env} {s s' : KernelState} {t n : Ptr} {ns ts : List Ptr} {u : Unit}

/-! ## The loop -/

/-- Nodes taken off the front of the ready queue. -/
structure Dequeued (s s' : KernelState) (ns rest : List Ptr) : Prop where
  queue : QueueAt s' s.readyQueue rest
  heap : s'.HeapOk
  content : s'.content = s.content
  live : ∀ p ∈ s.live, p ∉ ns → p ∈ s'.live
  frame : QueueFrame s s'

theorem dequeued_cons {rest : List Ptr} (h : QueueAt s s.readyQueue (n :: rest))
    (hheap : s.HeapOk) : Dequeued s (queueUnlink s.readyQueue n s) (n :: rest) rest := by
  refine ⟨queueUnlink_at h hheap, hheap.erase rfl, rfl, fun p hp hnot => ?_,
    queueUnlink_frame h⟩
  have hne : p ≠ n := fun he => hnot (he ▸ List.mem_cons_self)
  exact (List.mem_erase_of_ne hne).mpr hp

theorem QueueFrame.threads (h : QueueFrame s s') : s'.threads = s.threads := by rw [h.same]

theorem QueueFrame.readyQueue (h : QueueFrame s s') : s'.readyQueue = s.readyQueue := by
  rw [h.same]

/-- The loop of `sched` finds the first thread that is not stopped. -/
theorem schedLoop_ok {fuel : Nat} (hfuel : ns.length < fuel) (h : QueueAt s s.readyQueue ns)
    (hheap : s.HeapOk) (hnull : ∀ m ∈ ns, s.content m ≠ NULL)
    (hrun : ∃ m ∈ ns, (s.threads (s.content m)).status ≠ -1) :
    ∃ dead n rest s', ns = dead ++ n :: rest ∧
      (∀ m ∈ dead, (s.threads (s.content m)).status = -1) ∧
      (s.threads (s.content n)).status ≠ -1 ∧
      schedLoop fuel e s = .ok (s.content n, s') ∧ Dequeued s s' ns rest := by
  induction ns generalizing fuel s with
  | nil => exact absurd hrun.choose_spec.1 List.not_mem_nil
  | cons n ns ih =>
    cases fuel with
    | zero => exact absurd hfuel (Nat.not_lt_zero _)
    | succ fuel =>
      have hdq := dequeued_cons h hheap
      have hstep : schedLoop (fuel + 1) e s
          = if (s.threads (s.content n)).status = -1
            then schedLoop fuel e (queueUnlink s.readyQueue n s)
            else .ok (s.content n, queueUnlink s.readyQueue n s) := by
        rw [schedLoop, Program.bind_of_ok Program.gets_apply,
          Program.bind_of_ok (queueDequeue_cons h),
          Program.bind_of_ok (Program.check_of (hnull n List.mem_cons_self)),
          Program.bind_of_ok Program.gets_apply]
        show (if (s.threads (s.content n)).status = -1 then schedLoop fuel
          else pure (s.content n) : Kernel Ptr) e _ = _
        split <;> rfl
      by_cases hs : (s.threads (s.content n)).status = -1
      · obtain ⟨m, hm, hstatus⟩ := hrun
        have hmn : m ∈ ns := by
          rcases List.mem_cons.mp hm with rfl | hm
          · exact absurd hs hstatus
          · exact hm
        obtain ⟨dead, k, rest, s', hns, hdead, hk, hloop, hdq'⟩ := ih
          (s := queueUnlink s.readyQueue n s) (Nat.lt_of_succ_lt_succ hfuel) hdq.queue hdq.heap
          (fun m hm => hnull m (List.mem_cons_of_mem n hm)) ⟨m, hmn, hstatus⟩
        refine ⟨n :: dead, k, rest, s', by rw [hns]; rfl, ?_, hk, ?_, ?_⟩
        · intro m hm
          rcases List.mem_cons.mp hm with rfl | hm
          · exact hs
          · exact hdead m hm
        · rw [hstep, if_pos hs, hloop]
          rfl
        · refine ⟨hdq'.queue, hdq'.heap, hdq'.content, fun p hp hnot => ?_,
            hdq.frame.trans hdq'.frame⟩
          simp only [List.mem_cons, not_or] at hnot
          exact hdq'.live p (hdq.live p hp (by simp [hnot])) hnot.2
      · exact ⟨[], n, ns, _, rfl, fun m hm => absurd hm List.not_mem_nil, hs,
          by rw [hstep, if_neg hs], hdq⟩

/-! ## The switch -/

/-- What a switch to the thread `t` changes besides the queue. -/
structure Switched (s s' : KernelState) (t : Ptr) : Prop where
  same : s' = { s with
    next := s'.next, prev := s'.prev, content := s'.content, queueLength := s'.queueLength,
    live := s'.live, loadContext := t, saveContext := t, currentThread := t,
    currentProc := (s.threads t).proc }
  links : ∀ r : ListRef, ¬r.IsQueue → SameLinks s s' r

/-- A thread is as well off with another queue that leaves its blocks alone. -/
theorem ThreadOk.switch {ns' : List Ptr} (h : ThreadOk s ns t)
    (hown : ∀ p, OwnBlock s ns p → OwnBlock s' ns' p) (hthreads : s'.threads = s.threads)
    (hlinks : ∀ r : ListRef, ¬r.IsQueue → SameLinks s s' r) : ThreadOk s' ns' t := by
  constructor
  · exact hown t h.own
  · rw [hthreads]
    exact fun hp => hown _ (h.ownProc hp)
  · rw [hthreads]
    intro hp
    have ho := h.listed hp
    have h1 := hlinks (.procThreads (s.threads t).proc) id
    have h2 := hlinks (.threadNode t) id
    exact ⟨h1.1.trans ho.first, h2.1.trans ho.last, h1.2.trans ho.tail⟩
  · rw [hthreads]
    intro hp
    rw [show s'.prev (.procChild (s.threads t).proc) = s.prev (.procChild (s.threads t).proc) from
      (hlinks (.procChild (s.threads t).proc) id).2]
    exact h.child hp

theorem Switched.threads (h : Switched s s' t) : s'.threads = s.threads := by rw [h.same]

/-- The contents of the queue after a switch: the stopped ones in front gone, `t` at the back. -/
structure Rotated (s s' : KernelState) (ns ns' : List Ptr) (t : Ptr) : Prop where
  split : ∃ dead rest, ns.map s.content = dead ++ t :: rest ∧
    (∀ d ∈ dead, (s.threads d).status = -1) ∧ ns'.map s'.content = rest ++ [t]
  runs : (s.threads t).status ≠ -1

/-- The thread `sched` takes: the first one in the ready queue that is not stopped. -/
def NextThread (s : KernelState) (t : Ptr) : Prop :=
  ∃ ns dead rest, QueueAt s s.readyQueue ns ∧ ns.map s.content = dead ++ t :: rest ∧
    (∀ d ∈ dead, (s.threads d).status = -1) ∧ (s.threads t).status ≠ -1

theorem Rotated.nextThread {ns' : List Ptr} (h : Rotated s s' ns ns' t)
    (hq : QueueAt s s.readyQueue ns) : NextThread s t := by
  obtain ⟨dead, rest, hns, hdead, -⟩ := h.split
  exact ⟨ns, dead, rest, hq, hns, hdead, h.runs⟩

/-- The rotated queue is as good for the threads as the one before. -/
theorem ThreadsOk.rotate {ns' : List Ptr} (h : ThreadsOk s ns ts) (hr : Rotated s s' ns ns' t)
    (hs : Switched s s' t) (hheap : s'.HeapOk) (hq : QueueAt s' s.readyQueue ns')
    (hown : ∀ p, OwnBlock s ns p → OwnBlock s' ns' p) : ThreadsOk s' ns' ts := by
  obtain ⟨dead, rest, hns, hdead, hns'⟩ := hr.split
  have hthreads := hs.threads
  have honce := h.once
  rw [hns] at honce
  obtain ⟨-, honce', -⟩ := List.nodup_append.mp honce
  have hsub : ∀ c, c ∈ ns'.map s'.content → c ∈ ns.map s.content := fun c hc => by
    rw [hns'] at hc
    rw [hns]
    simp only [List.mem_append, List.mem_cons, List.not_mem_nil, or_false] at hc ⊢
    tauto
  refine ⟨hheap, ?_, fun m hm => ?_, ?_, fun q hq hrun => ?_, fun q hq => ?_, ?_⟩
  · rw [show s'.readyQueue = s.readyQueue by rw [hs.same]]
    exact hq
  · obtain ⟨n, hn, hc⟩ := List.mem_map.mp (hsub _ (List.mem_map_of_mem hm))
    rw [← hc]
    exact h.contents n hn
  · rw [hns']
    exact (List.perm_append_singleton t rest).nodup_iff.mpr honce'
  · rw [hthreads] at hrun
    have hmem := h.runnable q hq hrun
    rw [hns] at hmem
    rw [hns']
    simp only [List.mem_append, List.mem_cons, List.not_mem_nil, or_false] at hmem ⊢
    rcases hmem with hd | he | hm
    · exact absurd (hdead q hd) hrun
    · exact .inr he
    · exact .inl hm
  · exact (h.threads q hq).switch hown hthreads hs.links
  · rw [hthreads]
    exact h.kernel

/-- The loop of `sched` always finds a thread: the kernel thread is never stopped. -/
theorem schedLoop_found (e : Env) (h : ThreadsOk s ns ts) :
    ∃ dead n rest s', ns = dead ++ n :: rest ∧
      (∀ m ∈ dead, (s.threads (s.content m)).status = -1) ∧
      (s.threads (s.content n)).status ≠ -1 ∧
      schedLoop walkFuel e s = .ok (s.content n, s') ∧ Dequeued s s' ns rest := by
  have hnull : ∀ m ∈ ns, s.content m ≠ NULL := fun m hm hc => by
    have hl := (h.threads _ (h.contents m hm)).own.1
    rw [hc] at hl
    exact h.heap.not_null hl
  obtain ⟨k, hk, -, hks⟩ := h.kernel
  obtain ⟨m, hm, hmk⟩ := List.mem_map.mp (h.runnable k hk hks)
  have hfuel : ns.length < walkFuel := h.queue.length_lt h.heap
  exact schedLoop_ok hfuel h.queue h.heap hnull ⟨m, hm, by rwa [hmk]⟩

/-- The switch succeeds when `malloc` does, and takes the first thread that is not stopped. -/
theorem schedSwitch_ok (h : ThreadsOk s ns ts) (he : e.MallocSucceeds)
    (hrun : schedSwitch e s = .ok (u, s')) :
    ∃ t ns', t ∈ ts ∧ Switched s s' t ∧ Rotated s s' ns ns' t ∧ ThreadsOk s' ns' ts := by
  obtain ⟨dead, n, rest, s1, hns, hdead, hstatus, hloop, hdq⟩ := schedLoop_found e h
  rw [schedSwitch, Program.bind_of_ok hloop, Program.bind_of_ok Program.modify_apply,
    Program.bind_of_ok Program.gets_apply] at hrun
  obtain ⟨v, s2, henq, hrun⟩ := Program.bind_ok.mp hrun
  cases hrun
  have hready := hdq.frame.readyQueue
  have hq1 : QueueAt { s1 with loadContext := s.content n, saveContext := s.content n }
      s1.readyQueue rest := by
    rw [hready]
    exact hdq.queue.congr (fun _ _ => ⟨rfl, rfl⟩) rfl fun _ => id
  obtain ⟨n', hnew, hlive, hheap', hq', hcontent, hframe⟩ := queueEnqueue_ok he hq1
    ⟨hdq.heap.nodup, hdq.heap.range⟩ henq
  rw [hready] at hq'
  have hrest : ∀ m ∈ rest, m ≠ n' := fun m hm he => hnew (he ▸ hdq.queue.live m hm)
  have hsw : Switched s { s2 with
      currentThread := s.content n, currentProc := (s2.threads (s.content n)).proc }
      (s.content n) := by
    refine ⟨?_, fun r hr => SameLinks.trans (hdq.frame.links r hr) (hframe.links r hr)⟩
    have h2 := hframe.same
    have h1 := hdq.frame.same
    rw [h2, h1]
  have hrot : Rotated s { s2 with
      currentThread := s.content n, currentProc := (s2.threads (s.content n)).proc }
      ns (rest ++ [n']) (s.content n) := by
    refine ⟨⟨dead.map s.content, rest.map s.content, by rw [hns]; simp, fun d hd => ?_, ?_⟩,
      hstatus⟩
    · obtain ⟨m, hm, rfl⟩ := List.mem_map.mp hd
      exact hdead m hm
    · show (rest ++ [n']).map s2.content = _
      rw [hcontent, List.map_append, List.map_singleton, Function.update_self]
      refine congrArg (· ++ [s.content n]) (List.map_congr_left fun m hm => ?_)
      rw [Function.update_of_ne (hrest m hm)]
      exact congrFun hdq.content m
  refine ⟨s.content n, rest ++ [n'], h.contents n (by rw [hns]; simp), hsw, hrot,
    h.rotate hrot hsw ⟨hheap'.nodup, hheap'.range⟩
      (hq'.congr (fun _ _ => ⟨rfl, rfl⟩) rfl fun _ => id) fun p hp => ?_⟩
  have hp1 := hdq.live p hp.1 hp.2
  refine ⟨?_, fun hmem => ?_⟩
  · show p ∈ s2.live
    rw [hlive]
    exact List.mem_cons_of_mem n' hp1
  · rcases List.mem_append.mp hmem with hmem | hmem
    · exact hp.2 (by rw [hns]; simp [hmem])
    · exact hnew (List.mem_singleton.mp hmem ▸ hp1)

end Raincloud
