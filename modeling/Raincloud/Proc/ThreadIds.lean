import Raincloud.Proc.Family

/-!
# Lists of threads and thread ids

Each process has a list of its threads and each thread an id that is marked in a table.
Nothing is ever taken off the list and no id given back, so both are right as long as no thread
stops, none is initialised twice and the ids do not run out.
-/

set_option linter.style.nameCheck false

namespace Raincloud

open Infra Infra.LinkStore Kernel

variable {e : Env} {s s' : KernelState} {ns : List Ptr} {p t : Ptr} {u : Unit}

/-! ## The books of the threads -/

/-- A thread that is not stopped. -/
def Runs (s : KernelState) (t : Ptr) : Prop := t ∈ s.created ∧ (s.threads t).status ≠ -1

/-- The lists of threads, the ids and the table of ids. -/
structure ThreadIdsOk (s : KernelState) : Prop where
  list : ∀ p, IsProc s p → ∃ ts : List Ptr, Ring s (.procThreads p) (ts.map .threadNode) ∧
    ∀ t, t ∈ ts ↔ t ∈ s.created ∧ (s.threads t).proc = p
  distinct : ∀ t u, Runs s t → Runs s u → (s.threads t).tid = (s.threads u).tid → t = u
  range : ∀ t, Runs s t → 0 ≤ (s.threads t).tid ∧ (s.threads t).tid < maxTid
  table : ∀ i < maxTid, s.tidTable i ≠ 0 ↔ ∃ t, Runs s t ∧ (s.threads t).tid = i

/-- What holds as long as no thread stops: each one is alone on its list. -/
structure IdsInv (s : KernelState) : Prop where
  back : ∀ t ∈ s.created, (s.threads t).proc ≠ NULL →
    s.prev (.threadNode t) = .procThreads (s.threads t).proc
  runs : ∀ t ∈ s.created, (s.threads t).status ≠ -1
  distinct : ∀ t ∈ s.created, ∀ u ∈ s.created, (s.threads t).tid = (s.threads u).tid → t = u
  table : ∀ i, s.tidTable i ≠ 0 ↔ ∃ t ∈ s.created, (s.threads t).tid = i
  range : ∀ t ∈ s.created, 0 ≤ (s.threads t).tid ∧ (s.threads t).tid < maxPid

theorem IdsInv.ok (h : IdsInv s) (hs : SchedInv s ns) : ThreadIdsOk s := by
  have hruns : ∀ t, Runs s t ↔ t ∈ s.created := fun t => and_iff_left_of_imp (h.runs t)
  refine ⟨fun p ⟨hp0, t, ht, hp⟩ => ⟨[t], ⟨?_, ?_⟩, fun v => ?_⟩, fun t v ht hv he => ?_,
    fun t ht => ?_, fun i _ => ?_⟩
  · simp
  · have ho := (hs.threads.threads t ht).listed (hp ▸ hp0)
    have hb := h.back t ht (hp ▸ hp0)
    rw [hp] at ho hb
    exact .cons_cons ⟨ho.first, hb⟩ (.cons_cons ⟨ho.last, ho.tail⟩ (.singleton _))
  · rw [List.mem_singleton]
    refine ⟨fun hv => hv ▸ ⟨ht, hp⟩, fun ⟨hv, hvp⟩ => ?_⟩
    have h1 := (hs.threads.threads t ht).listed (hp ▸ hp0)
    have h2 := (hs.threads.threads v hv).listed (hvp ▸ hp0)
    rw [hp] at h1
    rw [hvp] at h2
    exact ListRef.threadNode.inj (h2.first.symm.trans h1.first)
  · exact h.distinct t ((hruns t).mp ht) v ((hruns v).mp hv) he
  · obtain ⟨h0, hlt⟩ := h.range t ((hruns t).mp ht)
    exact ⟨h0, hlt.trans (by decide)⟩
  · rw [h.table]
    exact exists_congr fun t => and_congr_left fun _ => (hruns t).symm

theorem IdsInv.books (h : IdsInv s) (hs : SameBooks s s') : IdsInv s' := by
  have hmem : ∀ t, t ∈ s'.created ↔ t ∈ s.created := fun t => by rw [hs.created]
  refine ⟨fun t ht hp => ?_, fun t ht => ?_, fun t ht v hv => ?_, fun i => ?_, fun t ht => ?_⟩
  · rw [hs.proc] at hp ⊢
    exact (hs.links (.threadNode t) trivial).2.trans (h.back t ((hmem t).mp ht) hp)
  · rw [hs.status]
    exact h.runs t ((hmem t).mp ht)
  · rw [hs.tid, hs.tid]
    exact h.distinct t ((hmem t).mp ht) v ((hmem v).mp hv)
  · rw [hs.tidTable, h.table]
    exact exists_congr fun t => by rw [hmem, hs.tid]
  · rw [hs.tid]
    exact h.range t ((hmem t).mp ht)

/-! ## A new id -/

/-- One of the ids that `tid_alloc` looks at is free. -/
def TidFree (s : KernelState) : Prop := ∃ i < maxPid, s.tidTable i = 0

theorem tidAlloc_free (h : TidFree s) : ∃ i : Nat, i < maxPid ∧ s.tidTable i = 0 ∧
    (tidAlloc s).1 = i ∧ (tidAlloc s).2.tidTable = Function.update s.tidTable i 1 := by
  obtain ⟨j, hj, hfree⟩ := h
  unfold tidAlloc __idAlloc
  cases hfind : (List.range maxPid).find? fun i => s.tidTable i = 0 with
  | none =>
    have := List.find?_eq_none.mp hfind j (List.mem_range.mpr hj)
    exact absurd (decide_eq_true hfree) this
  | some i =>
    refine ⟨i, List.mem_range.mp (List.mem_of_find?_eq_some hfind), ?_, rfl, rfl⟩
    have hp := List.find?_some (p := fun i => decide (s.tidTable i = 0)) hfind
    exact of_decide_eq_true hp

theorem Born.ids (hb : Born s s' t p) (h : IdsInv s) (hfree : TidFree s) : IdsInv s' := by
  obtain ⟨i, hi, hzero, htid, htable⟩ := tidAlloc_free hfree
  have hnew : (s'.threads t).tid = i := hb.tid.trans htid
  have hold : ∀ v ∈ s'.created, v ≠ t → v ∈ s.created := fun v hv hvt =>
    ((hb.created v).mp hv).resolve_left hvt
  -- no thread has the id that was free
  have hother : ∀ v ∈ s.created, (s.threads v).tid ≠ i := fun v hv he =>
    (h.table i).mpr ⟨v, hv, he⟩ hzero
  have hne : ∀ v ∈ s.created, v ≠ t := fun v hv he => hb.fresh (he ▸ hv)
  refine ⟨fun v hv hp => ?_, fun v hv => ?_, fun v hv w hw he => ?_, fun j => ?_, fun v hv => ?_⟩
  · by_cases hvt : v = t
    · rw [hvt, hb.proc]
      exact hb.back
    · rw [(hb.others v hvt).2.2] at hp ⊢
      exact (hb.links v hvt).2.trans (h.back v (hold v hv hvt) hp)
  · by_cases hvt : v = t
    · rw [hvt]
      exact hb.runs
    · rw [(hb.others v hvt).2.1]
      exact h.runs v (hold v hv hvt)
  · by_cases hvt : v = t <;> by_cases hwt : w = t
    · rw [hvt, hwt]
    · rw [hvt, hnew, (hb.others w hwt).1] at he
      exact absurd he.symm (hother w (hold w hw hwt))
    · rw [hwt, hnew, (hb.others v hvt).1] at he
      exact absurd he (hother v (hold v hv hvt))
    · rw [(hb.others v hvt).1, (hb.others w hwt).1] at he
      exact h.distinct v (hold v hv hvt) w (hold w hw hwt) he
  · rw [hb.table, htable, Function.update_apply]
    by_cases hj : j = i
    · rw [if_pos hj, hj]
      exact ⟨fun _ => ⟨t, (hb.created t).mpr (.inl rfl), hnew⟩, fun _ => by decide⟩
    · rw [if_neg hj, h.table]
      constructor
      · rintro ⟨v, hv, hvj⟩
        exact ⟨v, (hb.created v).mpr (.inr hv), (hb.others v (hne v hv)).1.trans hvj⟩
      · rintro ⟨v, hv, hvj⟩
        by_cases hvt : v = t
        · rw [hvt, hnew] at hvj
          exact absurd (Int.natCast_inj.mp hvj).symm hj
        · exact ⟨v, hold v hv hvt, (hb.others v hvt).1.symm.trans hvj⟩
  · by_cases hvt : v = t
    · rw [hvt, hnew]
      exact ⟨Int.natCast_nonneg i, Int.ofNat_lt.mpr hi⟩
    · rw [(hb.others v hvt).1]
      exact h.range v (hold v hv hvt)

/-- The first thread takes the first id. -/
theorem FirstThread.ids (h : FirstThread s s' t) (hzero : s.tidTable = fun _ => 0) :
    IdsInv s' := by
  obtain ⟨i, hi, -, htid, htable⟩ := tidAlloc_free (s := s) ⟨0, by decide, by rw [hzero]⟩
  have hmem : ∀ v, v ∈ s'.created ↔ v = t := fun v => by rw [h.created, List.mem_singleton]
  have hnew : (s'.threads t).tid = i := h.tid.trans htid
  refine ⟨fun v hv hp => ?_, fun v hv => ?_, fun v hv w hw _ => ?_, fun j => ?_, fun v hv => ?_⟩
  · rw [(hmem v).mp hv] at hp
    exact absurd h.proc hp
  · rw [(hmem v).mp hv]
    exact h.runs
  · rw [(hmem v).mp hv, (hmem w).mp hw]
  · rw [h.table, htable, hzero, Function.update_apply]
    by_cases hj : j = i
    · rw [if_pos hj, hj]
      exact ⟨fun _ => ⟨t, (hmem t).mpr rfl, hnew⟩, fun _ => by decide⟩
    · rw [if_neg hj]
      refine ⟨fun hc => absurd rfl hc, fun ⟨v, hv, hvj⟩ => ?_⟩
      rw [(hmem v).mp hv, hnew] at hvj
      exact absurd (Int.natCast_inj.mp hvj).symm hj
  · rw [(hmem v).mp hv, hnew]
    exact ⟨Int.natCast_nonneg i, Int.ofNat_lt.mpr hi⟩

/-! ## Every run -/

/-- The machine of the scheduler, with the table of ids all free before `sched_init`. -/
def idMachine : Infra.Machine KernelState SchedCall where
  start s := ∃ e s₀, e.MallocSucceeds ∧ s₀.HeapOk ∧ s₀.created = [] ∧
    (s₀.tidTable = fun _ => 0) ∧ schedInit e s₀ = .ok ((), s)
  step := schedMachine.step

/-- No exit, no `exec` from a process, and an id for each new thread. -/
def KeepsIds (s : KernelState) : SchedCall → Prop
  | .tick => True
  | .fork => TidFree s
  | .exit _ => False
  | .exec _ => s.currentProc = NULL ∧ TidFree s

theorem schedCall_ids (h : SchedInv s ns) (hids : IdsInv s) {c : SchedCall} (hc : c.Enabled s)
    (hok : KeepsIds s c) (he : e.MallocSucceeds) (hrun : c.run e s = .ok (u, s')) : IdsInv s' := by
  cases c with
  | tick => exact hids.books (sched_books h.threads he hrun)
  | fork =>
    obtain ⟨r, t, hfork, hrun⟩ := Program.bind_ok.mp hrun
    cases hrun
    obtain ⟨nt, np, hsteps⟩ := fork_steps h hc he hfork
    exact (hsteps.born h).ids hids hok
  | exit status => exact hok.elim
  | exec path =>
    rw [SchedCall.run, exec, Program.bind_of_ok Program.gets_apply, if_pos hok.1] at hrun
    obtain ⟨nt, np, hsteps⟩ := execKernel_steps h he hrun
    exact (hsteps.born h).ids hids hok.2

/--
In every run without an exit, with `exec` from the kernel thread only and an id for each new
thread, the lists of threads, the ids and the table of ids are right.
-/
theorem idMachine_threads (h : (idMachine.restrict KeepsIds).Reachable s) : ThreadIdsOk s := by
  have hinv : (∃ ns, SchedInv s ns) ∧ IdsInv s := by
    refine h.invariant (fun s => (∃ ns, SchedInv s ns) ∧ IdsInv s) ?_ ?_
    · rintro s ⟨e, s₀, he, hheap, hnone, hzero, hrun⟩
      obtain ⟨t, hfirst⟩ := schedInit_first hnone hrun
      exact ⟨schedInit_inv hheap hnone he hrun, hfirst.ids hzero⟩
    · rintro s c s' ⟨⟨ns, hinv⟩, hids⟩ ⟨hok, hc, e, he, hrun⟩
      exact ⟨schedCall_inv hinv hc he hrun, schedCall_ids hinv hids hc hok he hrun⟩
  obtain ⟨⟨ns, hns⟩, hids⟩ := hinv
  exact hids.ok hns

theorem OrphanRun.idStart {s0 s1 s2 s3 s4 s5 : KernelState} (h : OrphanRun s0 s1 s2 s3 s4 s5) :
    idMachine.start s0 := ⟨bumpEnv, bootState, bumpEnv_malloc, bootState_heap, rfl, rfl, h.init⟩

theorem OrphanRun.idReachable {s0 s1 s2 s3 s4 s5 : KernelState}
    (h : OrphanRun s0 s1 s2 s3 s4 s5) : (idMachine.restrict KeepsIds).Reachable s4 :=
  h.reachable h.idStart rfl ⟨h.kernel, 255, by decide, h.ids.1⟩ (fun _ => trivial)
    ⟨255, by decide, h.ids.2⟩

/-- A process that has forked. -/
theorem idMachine_threads_fork : ∃ s, (idMachine.restrict KeepsIds).Reachable s ∧
    s.currentProc ≠ NULL ∧ ThreadIdsOk s := by
  obtain ⟨s0, s1, s2, s3, s4, s5, hrun⟩ := orphanRun_ok
  exact ⟨s4, hrun.idReachable, hrun.procs.2, idMachine_threads hrun.idReachable⟩

/-- The id of a thread that has exited stays marked. -/
theorem idMachine_not_threads : ∃ s, idMachine.Reachable s ∧ ¬ ThreadIdsOk s := by
  obtain ⟨s0, s1, s2, s3, s4, s5, hrun⟩ := orphanRun_ok
  refine ⟨s5, .step hrun.idReachable.of_restrict hrun.last, fun hok => ?_⟩
  obtain ⟨hmarked, hnone⟩ := hrun.lost
  obtain ⟨t, ⟨ht, hruns⟩, htid⟩ := (hok.table 1 (by decide)).mp hmarked
  exact hnone t ht hruns htid

end Raincloud
