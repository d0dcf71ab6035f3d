import Raincloud.Proc.Books

/-!
# Parents and children

The tree of processes is kept twice: each process has a parent pointer and hangs on the list of
children of its parent. Creation keeps both in step. `exit` hands the children of a process to
its parent, but only by the pointer, so they stay on the list of the process that exits.
-/

set_option linter.style.nameCheck false

namespace Raincloud

open Infra Infra.LinkStore Infra.Frame Kernel

variable {e : Env} {s s' : KernelState} {ns : List Ptr} {p q t : Ptr} {u : Unit}

/-! ## The tree -/

/-- A process: every process has a thread. -/
def IsProc (s : KernelState) (p : Ptr) : Prop := p ≠ NULL ∧ ∃ t ∈ s.created, (s.threads t).proc = p

/-- Parent pointers and lists of children say the same. -/
structure FamilyOk (s : KernelState) : Prop where
  /-- On the list of children of a process are those whose parent it is. -/
  children : ∀ p, IsProc s p → ∃ qs : List Ptr, Ring s (.procChild p) (qs.map .procNode) ∧
    ∀ q, q ∈ qs ↔ IsProc s q ∧ (s.procs q).parent = p
  /-- A process that has a parent, the first one or one it was handed to, is on its list. -/
  handed : ∀ q, IsProc s q → (s.procs q).parent ≠ NULL →
    ∃ qs : List Ptr, Ring s (.procChild (s.procs q).parent) (qs.map .procNode) ∧ q ∈ qs

/-- The same for the processes of a set, with the list of each. -/
structure FamilyOn (s : KernelState) (P : Set Ptr) (kids : Ptr → List Ptr) : Prop where
  ring : ∀ p ∈ P, Ring s (.procChild p) ((kids p).map .procNode)
  kids : ∀ p ∈ P, ∀ q, q ∈ kids p ↔ q ∈ P ∧ (s.procs q).parent = p
  parent : ∀ q ∈ P, (s.procs q).parent ≠ NULL → (s.procs q).parent ∈ P

variable {P : Set Ptr} {kids : Ptr → List Ptr}

theorem FamilyOn.ok (h : FamilyOn s {p | IsProc s p} kids) : FamilyOk s := by
  refine ⟨fun p hp => ⟨kids p, h.ring p hp, h.kids p hp⟩, fun q hq hnull => ?_⟩
  have hparent := h.parent q hq hnull
  exact ⟨kids _, h.ring _ hparent, (h.kids _ hparent q).mpr ⟨hq, rfl⟩⟩

theorem ListRef.IsChild.book {r : ListRef} (h : r.IsChild) : r.IsBook := by
  cases r <;> first | exact h | exact h.elim

/-- A step that leaves the lists of children and the parent pointers alone. -/
theorem FamilyOn.congr (h : FamilyOn s P kids) (hlinks : ∀ r : ListRef, r.IsChild → SameLinks s s' r)
    (hparent : ∀ p, (s'.procs p).parent = (s.procs p).parent) : FamilyOn s' P kids := by
  refine ⟨fun p hp => (h.ring p hp).congr fun r hr => hlinks r ?_, fun p hp q => ?_,
    fun q hq hnull => ?_⟩
  · rcases List.mem_cons.mp hr with rfl | hr
    · trivial
    · obtain ⟨c, -, rfl⟩ := List.mem_map.mp hr
      trivial
  · rw [hparent]
    exact h.kids p hp q
  · rw [hparent] at hnull ⊢
    exact h.parent q hq hnull

theorem FamilyOn.books (h : FamilyOn s P kids) (hs : SameBooks s s') : FamilyOn s' P kids :=
  h.congr (fun r hr => hs.links r hr.book) hs.parent

theorem isProc_books (hs : SameBooks s s') : IsProc s' p ↔ IsProc s p := by
  unfold IsProc
  rw [hs.created]
  simp only [hs.proc]

/-- The list of children starts and ends with list heads of children. -/
theorem FamilyOn.last (h : FamilyOn s P kids) (hp : p ∈ P) : (s.prev (.procChild p)).IsChild := by
  have hmem : s.prev (.procChild p) ∈ ListRef.procChild p :: (kids p).map .procNode := by
    rw [show s.prev (.procChild p) = _ from (h.ring p hp).prev_head]
    exact Ring.getLastD_mem _ _
  rcases List.mem_cons.mp hmem with he | hm
  · rw [he]
    trivial
  · obtain ⟨c, -, hc⟩ := List.mem_map.mp hm
    rw [← hc]
    trivial

/-! ## A new process -/

section NewProcess

variable {parent args envs vmMap : Ptr}

theorem procInit_parent (p parent args envs vmMap q : Ptr) (s : KernelState) :
    ((procInit p parent args envs vmMap s).procs q).parent
      = if q = p then parent else (s.procs q).parent := by
  have hsetup : ((procSetup p parent args envs vmMap s).procs q).parent
      = if q = p then parent else (s.procs q).parent := by
    simp only [procSetup, KernelState.setProc]
    rw [Function.update_apply]
    by_cases hq : q = p
    · rw [if_pos hq, if_pos hq]
    · rw [if_neg hq, if_neg hq]
      rfl
  rw [procInit_eq]
  split <;> exact hsetup

/-- The lists of children after `proc_init`. -/
def kidsWith (kids : Ptr → List Ptr) (p parent : Ptr) : Ptr → List Ptr := fun c =>
  if c = p then [] else if c = parent then kids c ++ [p] else kids c

/-- Before the new process is linked in it has no children, and the others have theirs. -/
theorem FamilyOn.setup (h : FamilyOn s P kids) (hp : p ∉ P) {c : Ptr} (hc : c ∈ insert p P) :
    Ring (procSetup p parent args envs vmMap s) (.procChild c)
      ((if c = p then [] else kids c).map .procNode) := by
  by_cases hcp : c = p
  · rw [if_pos hcp, hcp]
    exact (ring_listInit (s := listInit (listInit (pidAlloc s).2 (.procNode p)) (.procThreads p))
      (x := ListRef.procChild p) lawful trivial).congr fun _ _ => ⟨rfl, rfl⟩
  · have hcP := Set.mem_of_mem_insert_of_ne hc hcp
    rw [if_neg hcp]
    refine (h.ring c hcP).congr fun r hr => procSetup_links ?_ ?_ ?_
    · rintro rfl
      rcases List.mem_cons.mp hr with he | hm
      · exact hcp (ListRef.procChild.inj he).symm
      · obtain ⟨d, -, hd⟩ := List.mem_map.mp hm
        cases hd
    · rintro rfl
      rcases List.mem_cons.mp hr with he | hm
      · cases he
      · obtain ⟨d, hd, he⟩ := List.mem_map.mp hm
        exact hp (ListRef.procNode.inj he ▸ ((h.kids c hcP d).mp hd).1)
    · rintro rfl
      rcases List.mem_cons.mp hr with he | hm
      · cases he
      · obtain ⟨d, -, hd⟩ := List.mem_map.mp hm
        cases hd

/-- `proc_init` puts the new process last among the children of its parent. -/
theorem FamilyOn.ring_procInit (h : FamilyOn s P kids) (hp : p ∉ P)
    (hparent : parent = NULL ∨ parent ∈ P) {c : Ptr} (hc : c ∈ insert p P) (hc0 : c ≠ NULL) :
    Ring (procInit p parent args envs vmMap s) (.procChild c)
      ((kidsWith kids p parent c).map .procNode) := by
  have hsetup : ∀ c ∈ insert p P, Ring (procSetup p parent args envs vmMap s) (.procChild c)
      ((if c = p then [] else kids c).map .procNode) := fun c hc => h.setup hp hc
  have hkids : ∀ c d, c ∈ insert p P → d ∈ (if c = p then [] else kids c) →
      d ≠ p ∧ (s.procs d).parent = c := fun c d hc hd => by
    by_cases hcp : c = p
    · rw [if_pos hcp] at hd
      cases hd
    · rw [if_neg hcp] at hd
      obtain ⟨hd, he⟩ := (h.kids c (Set.mem_of_mem_insert_of_ne hc hcp) d).mp hd
      exact ⟨fun hdp => hp (hdp ▸ hd), he⟩
  rw [procInit_eq]
  by_cases hpar : parent ≠ NULL
  · have hparP : parent ∈ P := hparent.resolve_left hpar
    have hparp : parent ≠ p := fun he => hp (he ▸ hparP)
    rw [if_pos hpar]
    have hring := hsetup parent (Set.mem_insert_of_mem p hparP)
    by_cases hcpar : c = parent
    · rw [hcpar, kidsWith, if_neg hparp, if_pos rfl, List.map_append, List.map_singleton]
      rw [if_neg hparp] at hring
      refine ring_listAddBefore_head lawful hring (fun _ _ => trivial) trivial fun hmem => ?_
      rcases List.mem_cons.mp hmem with he | hm
      · cases he
      · obtain ⟨d, hd, he⟩ := List.mem_map.mp hm
        exact (hkids parent d (Set.mem_insert_of_mem p hparP)
          (by rw [if_neg hparp]; exact hd)).1 (ListRef.procNode.inj he)
    · -- the list of another process has no node in common with that of the parent
      have hlist : kidsWith kids p parent c = if c = p then [] else kids c := by
        rw [kidsWith, if_neg hcpar]
      have hlast := hring.prev_head
      rw [hlist]
      refine (hsetup c hc).congr fun r hr => ?_
      refine sameLinks_listAdd lawful trivial trivial trivial trivial ?_ ?_ ?_
      · rintro rfl
        rcases List.mem_cons.mp hr with he | hm
        · cases he
        · obtain ⟨d, hd, he⟩ := List.mem_map.mp hm
          exact (hkids c d hc hd).1 (ListRef.procNode.inj he)
      · intro he
        have hmem := Ring.getLastD_mem (ListRef.procChild parent)
          ((if parent = p then [] else kids parent).map .procNode)
        rw [← hlast, ← he] at hmem
        rcases List.mem_cons.mp hr with rfl | hm
        · rcases List.mem_cons.mp hmem with he' | hm'
          · exact hcpar (ListRef.procChild.inj he')
          · obtain ⟨d, -, hd⟩ := List.mem_map.mp hm'
            cases hd
        · obtain ⟨d, hd, rfl⟩ := List.mem_map.mp hm
          rcases List.mem_cons.mp hmem with he' | hm'
          · cases he'
          · obtain ⟨d', hd', he'⟩ := List.mem_map.mp hm'
            have h1 := (hkids c d hc hd).2
            have h2 := (hkids parent d' (Set.mem_insert_of_mem p hparP) hd').2
            rw [ListRef.procNode.inj he'] at h2
            exact hcpar (h1.symm.trans h2)
      · rintro rfl
        rcases List.mem_cons.mp hr with he | hm
        · exact hcpar (ListRef.procChild.inj he).symm
        · obtain ⟨d, -, hd⟩ := List.mem_map.mp hm
          cases hd
  · rw [if_neg hpar]
    have hlist : kidsWith kids p parent c = if c = p then [] else kids c := by
      rw [kidsWith, not_not.mp hpar]
      exact if_congr Iff.rfl rfl (if_neg hc0)
    rw [hlist]
    exact hsetup c hc

theorem FamilyOn.procInit (h : FamilyOn s P kids) (hp : p ∉ P) (hp0 : p ≠ NULL) (hnull : NULL ∉ P)
    (hparent : parent = NULL ∨ parent ∈ P) :
    FamilyOn (procInit p parent args envs vmMap s) (insert p P) (kidsWith kids p parent) := by
  have hparp : parent ≠ p := fun he => hparent.elim (fun h0 => hp0 (he ▸ h0)) fun hm => hp (he ▸ hm)
  have hnew : ∀ q ∈ P, q ≠ p := fun q hq he => hp (he ▸ hq)
  refine ⟨fun c hc => h.ring_procInit hp hparent hc ?_, fun c hc q => ?_, fun q hq hq0 => ?_⟩
  · exact fun he => hc.elim (fun h0 => hp0 (h0 ▸ he)) fun hm => hnull (he ▸ hm)
  · rw [procInit_parent]
    by_cases hcp : c = p
    · -- the new process has no children
      rw [kidsWith, if_pos hcp, hcp]
      refine ⟨fun hm => absurd hm List.not_mem_nil, fun ⟨hq, he⟩ => ?_⟩
      by_cases hqp : q = p
      · rw [if_pos hqp] at he
        exact absurd he hparp
      · rw [if_neg hqp] at he
        have hqP := Set.mem_of_mem_insert_of_ne hq hqp
        exact absurd (he ▸ h.parent q hqP (he ▸ hp0)) hp
    · have hcP := Set.mem_of_mem_insert_of_ne hc hcp
      have hk := h.kids c hcP q
      rw [kidsWith, if_neg hcp]
      by_cases hqp : q = p
      · rw [if_pos hqp, hqp]
        have hpk : p ∉ kids c := fun hm => hp ((h.kids c hcP p).mp hm).1
        by_cases hcpar : c = parent
        · rw [if_pos hcpar]
          simp [hcpar]
        · rw [if_neg hcpar]
          exact ⟨fun hm => absurd hm hpk, fun ⟨_, he⟩ => absurd he.symm hcpar⟩
      · rw [if_neg hqp]
        have hins : q ∈ insert p P ↔ q ∈ P := Set.mem_insert_iff.trans (or_iff_right hqp)
        rw [hins, ← hk]
        by_cases hcpar : c = parent
        · rw [if_pos hcpar]
          simp [hqp]
        · rw [if_neg hcpar]
  · rw [procInit_parent] at hq0 ⊢
    by_cases hqp : q = p
    · rw [if_pos hqp] at hq0 ⊢
      exact Set.mem_insert_of_mem p (hparent.resolve_left hq0)
    · rw [if_neg hqp] at hq0 ⊢
      exact Set.mem_insert_of_mem p (h.parent q (Set.mem_of_mem_insert_of_ne hq hqp) hq0)

end NewProcess

/-! ## The calls -/

theorem not_isProc_null : NULL ∉ {p | IsProc s p} := fun h => h.1 rfl

/-- A process is a block in use. -/
theorem SchedInv.proc_live (h : SchedInv s ns) (hp : IsProc s p) : p ∈ s.live := by
  obtain ⟨hp0, t, ht, rfl⟩ := hp
  exact ((h.threads.threads t ht).ownProc hp0).1

theorem SchedInv.currentProc (h : SchedInv s ns) (hproc : s.currentProc ≠ NULL) :
    IsProc s s.currentProc :=
  ⟨hproc, _, h.current.created, h.current.proc.symm⟩

/-- One new thread, of the new process. -/
theorem isProc_insert (ht : t ∉ s.created) (hp : p ≠ NULL)
    (hc : ∀ q, q ∈ s'.created ↔ q = t ∨ q ∈ s.created) (htp : (s'.threads t).proc = p)
    (hold : ∀ q, q ≠ t → (s'.threads q).proc = (s.threads q).proc) :
    {q | IsProc s' q} = insert p {q | IsProc s q} := by
  ext q
  constructor
  · rintro ⟨hq, v, hv, hvq⟩
    by_cases hvt : v = t
    · exact .inl (hvq.symm.trans (hvt ▸ htp))
    · exact .inr ⟨hq, v, ((hc v).mp hv).resolve_left hvt, (hold v hvt).symm.trans hvq⟩
  · rintro (rfl | ⟨hq, v, hv, hvq⟩)
    · exact ⟨hp, t, (hc t).mpr (.inl rfl), htp⟩
    · have hvt : v ≠ t := fun he => ht (he ▸ hv)
      exact ⟨hq, v, (hc v).mpr (.inr hv), (hold v hvt).trans hvq⟩

/-- Every process is in the tree. -/
def FamilyInv (s : KernelState) : Prop := ∃ kids, FamilyOn s {p | IsProc s p} kids

theorem FamilyInv.books (h : FamilyInv s) (hs : SameBooks s s') : FamilyInv s' := by
  obtain ⟨kids, h⟩ := h
  have hset : {p | IsProc s' p} = {p | IsProc s p} := Set.ext fun p => isProc_books hs
  exact ⟨kids, hset ▸ h.books hs⟩

theorem Born.isProc {nt np : Ptr} (h : Born s s' nt np) :
    {q | IsProc s' q} = insert np {q | IsProc s q} :=
  isProc_insert h.fresh h.proc_ne h.created h.proc fun q hq => (h.others q hq).2.2

/-- `thread_init` leaves the tree alone. -/
theorem FamilyOn.threadInit (h : FamilyOn s P kids) (hp : p ≠ NULL)
    (hlist : s.prev (.procThreads p) = .procThreads p ∨ OneThread s p t) :
    FamilyOn (threadInit t p 0 4096 s) P kids := by
  obtain ⟨-, hlinks⟩ := threadInit_links (t := t) 0 4096 hp hlist
  refine h.congr (fun r hr => hlinks r (fun he => ?_) fun he => ?_) fun q => ?_
  · rw [he] at hr
    exact hr
  · rw [he] at hr
    exact hr
  · rw [threadInit_eq hp]
    rfl

theorem ForkSteps.family {nt np : Ptr} (hf : ForkSteps s s' nt np) (h : SchedInv s ns)
    (hproc : s.currentProc ≠ NULL) (hfam : FamilyInv s) : FamilyInv s' := by
  have hborn := hf.born h
  obtain ⟨-, ⟨hnp, -⟩, args, envs, vmMap, s1, q, hs1, hsq, hchild, hs'⟩ := hf
  obtain ⟨kids, hfam⟩ := hfam
  have hcur := h.currentProc hproc
  -- up to the new process
  have hdup : FamilyOn (threadDup nt s.currentThread s1) {p | IsProc s p} kids := by
    refine (hfam.books hs1).congr (fun r hr => threadDup_links fun he => ?_) fun _ => rfl
    rw [he] at hr
    exact hr
  have hnew : np ∉ {p | IsProc s p} := fun hp => hnp (h.proc_live hp)
  have hinit : FamilyOn (procInit np s.currentProc args envs vmMap q)
      (insert np {p | IsProc s p}) (kidsWith kids np s.currentProc) :=
    (hdup.books hsq).procInit hnew hborn.proc_ne not_isProc_null (.inr hcur)
  -- the thread is attached to it
  obtain ⟨-, hempty, -⟩ := procInit_links (p := np) args envs vmMap fun _ => hchild
  have hlinks : ∀ r : ListRef, r.IsChild → SameLinks (procInit np s.currentProc args envs vmMap q)
      (threadAttach nt np (procInit np s.currentProc args envs vmMap q)) r := fun r hr =>
    sameLinks_addThread (.inl hempty) (fun he => by rw [he] at hr; exact hr)
      fun he => by rw [he] at hr; exact hr
  refine ⟨kidsWith kids np s.currentProc, ?_⟩
  rw [hborn.isProc]
  exact (hinit.congr hlinks fun _ => rfl).books hs'

theorem ExecSteps.family {nt np : Ptr} (hf : ExecSteps s s' nt np) (h : SchedInv s ns)
    (hfam : FamilyInv s) : FamilyInv s' := by
  have hborn := hf.born h
  obtain ⟨-, ⟨hnp, -⟩, args, envs, vmMap, s4, s6, hs4, hs6, hs'⟩ := hf
  obtain ⟨kids, hfam⟩ := hfam
  have hnew : np ∉ {p | IsProc s p} := fun hp => hnp (h.proc_live hp)
  have hinit : FamilyOn (procInit np NULL args envs vmMap s4) (insert np {p | IsProc s p})
      (kidsWith kids np NULL) :=
    (hfam.books hs4).procInit hnew hborn.proc_ne not_isProc_null (.inl rfl)
  obtain ⟨-, hempty, -⟩ := procInit_links (s := s4) (p := np) args envs vmMap
    fun hc : NULL ≠ NULL => absurd rfl hc
  have hempty6 : s6.prev (.procThreads np) = .procThreads np :=
    (hs6.links (.procThreads np) trivial).2.trans hempty
  refine ⟨kidsWith kids np NULL, ?_⟩
  rw [hborn.isProc]
  exact ((hinit.books hs6).threadInit hborn.proc_ne (.inl hempty6)).books hs'

/-- `exec` from a process makes no process. -/
theorem execProc_family {path : List UInt8} (h : SchedInv s ns) (hproc : s.currentProc ≠ NULL)
    (hfam : FamilyInv s) (hrun : execProc path s.currentProc e s = .ok (u, s')) :
    FamilyInv s' := by
  obtain ⟨-, -, hcreated, hothers⟩ := execProc_inv h hproc hrun
  obtain ⟨s4, hs4, rfl⟩ := execProc_steps hrun
  obtain ⟨kids, hfam⟩ := hfam
  have hone : OneThread s4 s.currentProc s.currentThread := by
    have ho := h.listed hproc
    obtain ⟨hn, hp⟩ := hs4.links (.procThreads s.currentProc) trivial
    exact ⟨hn.trans ho.first, (hs4.links (.threadNode s.currentThread) trivial).1.trans ho.last,
      hp.trans ho.tail⟩
  have hset : {q | IsProc (threadInit s.currentThread s.currentProc 0 4096 s4) q}
      = {q | IsProc s q} := by
    ext q
    refine and_congr_right fun _ => exists_congr fun t => and_congr (hcreated t) ?_
    by_cases ht : t = s.currentThread
    · rw [ht, threadInit_thread 0 4096 hproc, if_pos rfl, h.current.proc]
    · rw [hothers t ht]
  refine ⟨kids, ?_⟩
  rw [hset]
  exact (hfam.books hs4).threadInit hproc (.inr hone)

/-! ## Every run -/

/-- An exit is by a process that has no children. -/
def Childless (s : KernelState) : SchedCall → Prop
  | .exit _ => s.next (.procChild s.currentProc) = .procChild s.currentProc
  | _ => True

/-- Without children `exit` only stops its thread. -/
theorem exit_family {status : Int} (h : SchedInv s ns) (hproc : s.currentProc ≠ NULL)
    (he : e.MallocSucceeds) (hfam : FamilyInv s)
    (hempty : s.next (.procChild s.currentProc) = .procChild s.currentProc)
    (hrun : exit status e s = .ok (u, s')) : FamilyInv s' := by
  rw [exit_eq status h hproc] at hrun
  obtain ⟨_, s1, hchildren, hsched⟩ := Program.bind_ok.mp hrun
  obtain ⟨hok, -⟩ := exitChildren_ok h hproc hchildren
  have hs1 : s1 = exitStop status s := by
    obtain ⟨fuel, hfuel⟩ : ∃ fuel, walkFuel = fuel + 1 := ⟨2 ^ 64 - 1, by decide⟩
    have hnext : (exitStop status s).next (.procChild s.currentProc) = .procChild s.currentProc :=
      hempty
    rw [exitChildren, listForEach, hfuel, Program.bind_of_ok Program.gets_apply, hnext,
      listForEachFrom, if_pos rfl] at hchildren
    cases hchildren
    rfl
  rw [hs1] at hok hsched
  obtain ⟨kids, hfam⟩ := hfam
  have hparent : ∀ q, ((exitStop status s).procs q).parent = (s.procs q).parent := fun q => by
    rw [show (exitStop status s).procs = (s.setProc s.currentProc fun p =>
      { p with status := -1, xstat := (status % 256).toNat }).procs from rfl]
    exact setProc_parent fun _ => rfl
  have howner : ∀ t, ((exitStop status s).threads t).proc = (s.threads t).proc := fun t => by
    show (Function.update s.threads s.currentThread _ t).proc = _
    by_cases ht : t = s.currentThread
    · rw [ht, Function.update_self]
      rfl
    · rw [Function.update_of_ne ht]
  have hset : {q | IsProc (exitStop status s) q} = {q | IsProc s q} := by
    ext q
    exact and_congr_right fun _ => exists_congr fun t => and_congr_right fun _ => by rw [howner]
  refine FamilyInv.books ⟨kids, ?_⟩ (sched_books hok he hsched)
  rw [hset]
  exact hfam.congr (fun _ _ => ⟨rfl, rfl⟩) hparent

theorem schedCall_family (h : SchedInv s ns) (hfam : FamilyInv s) {c : SchedCall}
    (hc : c.Enabled s) (hok : Childless s c) (he : e.MallocSucceeds)
    (hrun : c.run e s = .ok (u, s')) : FamilyInv s' := by
  cases c with
  | tick => exact hfam.books (sched_books h.threads he hrun)
  | fork =>
    obtain ⟨r, t, hfork, hrun⟩ := Program.bind_ok.mp hrun
    cases hrun
    obtain ⟨nt, np, hsteps⟩ := fork_steps h hc he hfork
    exact hsteps.family h hc hfam
  | exit status => exact exit_family h hc he hfam hok hrun
  | exec path =>
    rw [SchedCall.run, exec, Program.bind_of_ok Program.gets_apply] at hrun
    by_cases hproc : s.currentProc = NULL
    · rw [if_pos hproc] at hrun
      obtain ⟨nt, np, hsteps⟩ := execKernel_steps h he hrun
      exact hsteps.family h hfam
    · rw [if_neg hproc] at hrun
      exact execProc_family h hproc hfam hrun

/-- At the start there is no process. -/
theorem FirstThread.family (h : FirstThread s s' t) : FamilyInv s' := by
  have hset : {q | IsProc s' q} = ∅ := by
    refine Set.eq_empty_iff_forall_notMem.mpr fun q ⟨hq, v, hv, hvq⟩ => ?_
    rw [h.created, List.mem_singleton] at hv
    rw [hv, h.proc] at hvq
    exact hq hvq.symm
  refine ⟨fun _ => [], ?_⟩
  rw [hset]
  exact ⟨fun p hp => absurd hp (Set.notMem_empty p), fun p hp => absurd hp (Set.notMem_empty p),
    fun p hp => absurd hp (Set.notMem_empty p)⟩

/--
In every run in which only processes without children exit, parent pointers and lists of
children say the same.
-/
theorem schedMachine_family (h : (schedMachine.restrict Childless).Reachable s) : FamilyOk s := by
  have hinv : (∃ ns, SchedInv s ns) ∧ FamilyInv s := by
    refine h.invariant (fun s => (∃ ns, SchedInv s ns) ∧ FamilyInv s) ?_ ?_
    · rintro s ⟨e, s₀, he, hheap, hnone, hrun⟩
      obtain ⟨t, hfirst⟩ := schedInit_first hnone hrun
      exact ⟨schedInit_inv hheap hnone he hrun, hfirst.family⟩
    · rintro s c s' ⟨⟨ns, hinv⟩, hfam⟩ ⟨hok, hc, e, he, hrun⟩
      exact ⟨schedCall_inv hinv hc he hrun, schedCall_family hinv hfam hc hok he hrun⟩
  obtain ⟨kids, hfam⟩ := hinv.2
  exact hfam.ok

/-! ## An orphan -/

/--
The kernel thread starts a process, which is switched to at the second tick, forks and exits.
Also the states after the start, before the fork and after it.
-/
def orphanRun : Kernel (KernelState × KernelState × KernelState) := do
  schedInit
  let start ← Program.gets id
  exec []
  sched
  sched
  let before ← Program.gets id
  let _ ← fork
  let after ← Program.gets id
  exit 0
  return (start, before, after)

/-- The parent of a process on a list of children is another one. -/
def Orphan (s : KernelState) (p : Ptr) : Prop :=
  p ≠ NULL ∧ (∃ t ∈ s.created, (s.threads t).proc = p) ∧ ∃ child ∈ s.live,
    s.next (.procChild p) = .procNode child ∧ (s.procs child).parent ≠ p

/-- An id that is taken, though no thread that runs has it. -/
def IdLost (s : KernelState) (i : Nat) : Prop :=
  s.tidTable i ≠ 0 ∧ ∀ t ∈ s.created, (s.threads t).status ≠ -1 → (s.threads t).tid ≠ i

instance (s : KernelState) (p : Ptr) : Decidable (Orphan s p) := inferInstanceAs (Decidable (_ ∧ _))

instance (s : KernelState) (i : Nat) : Decidable (IdLost s i) := inferInstanceAs (Decidable (_ ∧ _))

/-- The calls of that run. -/
structure OrphanRun (s0 s1 s2 s3 s4 s5 : KernelState) : Prop where
  init : schedInit bumpEnv bootState = .ok ((), s0)
  exec : exec [] bumpEnv s0 = .ok ((), s1)
  tick1 : sched bumpEnv s1 = .ok ((), s2)
  tick2 : sched bumpEnv s2 = .ok ((), s3)
  fork : SchedCall.fork.run bumpEnv s3 = .ok ((), s4)
  exit : exit 0 bumpEnv s4 = .ok ((), s5)
  kernel : s0.currentProc = NULL
  ids : s0.tidTable 255 = 0 ∧ s3.tidTable 255 = 0
  procs : s3.currentProc ≠ NULL ∧ s4.currentProc ≠ NULL
  orphan : Orphan s5 s4.currentProc
  lost : IdLost s5 1

theorem orphanRun_calls {start before after : KernelState}
    (h : orphanRun e s = .ok ((start, before, after), s')) : ∃ s1 s2,
      schedInit e s = .ok ((), start) ∧ exec [] e start = .ok ((), s1) ∧
      sched e s1 = .ok ((), s2) ∧ sched e s2 = .ok ((), before) ∧
      SchedCall.fork.run e before = .ok ((), after) ∧ exit 0 e after = .ok ((), s') := by
  obtain ⟨_, s0, hinit, h⟩ := Program.bind_ok.mp h
  rw [Program.bind_of_ok Program.gets_apply] at h
  obtain ⟨_, s1, hexec, h⟩ := Program.bind_ok.mp h
  obtain ⟨_, s2, htick1, h⟩ := Program.bind_ok.mp h
  obtain ⟨_, s3, htick2, h⟩ := Program.bind_ok.mp h
  rw [Program.bind_of_ok Program.gets_apply] at h
  obtain ⟨r, s4, hfork, h⟩ := Program.bind_ok.mp h
  rw [Program.bind_of_ok Program.gets_apply] at h
  obtain ⟨_, s5, hexit, h⟩ := Program.bind_ok.mp h
  cases h
  exact ⟨s1, s2, hinit, hexec, htick1, htick2, Program.bind_ok.mpr ⟨r, s4, hfork, rfl⟩, hexit⟩

theorem orphanRun_ok : ∃ s0 s1 s2 s3 s4 s5, OrphanRun s0 s1 s2 s3 s4 s5 := by
  have h : (match orphanRun bumpEnv bootState with
      | .ok ((s0, s3, s4), s5) => decide (s0.currentProc = NULL ∧
        (s0.tidTable 255 = 0 ∧ s3.tidTable 255 = 0) ∧
        (s3.currentProc ≠ NULL ∧ s4.currentProc ≠ NULL) ∧
        Orphan s5 s4.currentProc ∧ IdLost s5 1)
      | .error _ => false) = true := by
    decide +kernel
  split at h
  · next s0 s3 s4 s5 hrun =>
    obtain ⟨hkernel, hids, hprocs, horphan, hlost⟩ := of_decide_eq_true h
    obtain ⟨s1, s2, hinit, hexec, htick1, htick2, hfork, hexit⟩ := orphanRun_calls hrun
    exact ⟨s0, s1, s2, s3, s4, s5, hinit, hexec, htick1, htick2, hfork, hexit, hkernel, hids,
      hprocs, horphan, hlost⟩
  · cases h

section

variable {s0 s1 s2 s3 s4 s5 : KernelState}

theorem OrphanRun.start (h : OrphanRun s0 s1 s2 s3 s4 s5) : schedMachine.start s0 :=
  ⟨bumpEnv, bootState, bumpEnv_malloc, bootState_heap, rfl, h.init⟩

/-- The condition a machine is held to is met by the first calls. -/
theorem OrphanRun.reachable (h : OrphanRun s0 s1 s2 s3 s4 s5)
    {M : Infra.Machine KernelState SchedCall} {ok : KernelState → SchedCall → Prop}
    (hstart : M.start s0) (hstep : M.step = schedMachine.step) (hexec : ok s0 (.exec []))
    (htick : ∀ s, ok s .tick) (hfork : ok s3 .fork) : (M.restrict ok).Reachable s4 := by
  have h0 : (M.restrict ok).Reachable s0 := .start hstart
  have h1 : (M.restrict ok).Reachable s1 :=
    .step (a := .exec []) h0 ⟨hexec, hstep ▸ ⟨trivial, bumpEnv, bumpEnv_malloc, h.exec⟩⟩
  have h2 : (M.restrict ok).Reachable s2 :=
    .step (a := .tick) h1 ⟨htick s1, hstep ▸ ⟨trivial, bumpEnv, bumpEnv_malloc, h.tick1⟩⟩
  have h3 : (M.restrict ok).Reachable s3 :=
    .step (a := .tick) h2 ⟨htick s2, hstep ▸ ⟨trivial, bumpEnv, bumpEnv_malloc, h.tick2⟩⟩
  exact .step (a := .fork) h3 ⟨hfork, hstep ▸ ⟨h.procs.1, bumpEnv, bumpEnv_malloc, h.fork⟩⟩

theorem OrphanRun.last (h : OrphanRun s0 s1 s2 s3 s4 s5) : schedMachine.step s4 (.exit 0) s5 :=
  ⟨h.procs.2, bumpEnv, bumpEnv_malloc, h.exit⟩

end

/-- After a fork the child is on the list of its parent. -/
theorem schedMachine_family_fork : ∃ s, (schedMachine.restrict Childless).Reachable s ∧
    s.currentProc ≠ NULL ∧ FamilyOk s := by
  obtain ⟨s0, s1, s2, s3, s4, s5, hrun⟩ := orphanRun_ok
  have h : (schedMachine.restrict Childless).Reachable s4 :=
    hrun.reachable hrun.start rfl trivial (fun _ => trivial) trivial
  exact ⟨s4, h, hrun.procs.2, schedMachine_family h⟩

/-- A process that exits keeps the child it has handed on. -/
theorem schedMachine_not_family : ∃ s, schedMachine.Reachable s ∧ ¬ FamilyOk s := by
  obtain ⟨s0, s1, s2, s3, s4, s5, hrun⟩ := orphanRun_ok
  have h : (schedMachine.restrict Childless).Reachable s4 :=
    hrun.reachable hrun.start rfl trivial (fun _ => trivial) trivial
  obtain ⟨hp, hthread, child, -, hnext, hparent⟩ := hrun.orphan
  refine ⟨s5, .step h.of_restrict hrun.last, fun hok => ?_⟩
  obtain ⟨qs, hring, hqs⟩ := hok.children _ ⟨hp, hthread⟩
  have hfirst := hring.next_head
  have hmem : child ∈ qs := by
    cases qs with
    | nil => exact nomatch hnext.symm.trans hfirst
    | cons q qs =>
      have he := ListRef.procNode.inj (hnext.symm.trans hfirst)
      rw [he]
      exact List.mem_cons_self
  exact hparent ((hqs child).mp hmem).2

end Raincloud
