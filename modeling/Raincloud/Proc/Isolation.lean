import Raincloud.Mm.DoMapping
import Raincloud.Proc.RoundRobin

/-!
# The address spaces of the processes

All processes run on one tree of page tables. A switch maps the pages of the process that is
loaded and takes none away, so the pages that user code can reach are those of all the processes
loaded so far.
-/

set_option linter.style.nameCheck false

namespace Raincloud

open Infra Infra.LinkStore Kernel

variable {e : Env} {s s' : KernelState} {ns : List Ptr} {t u p : Ptr} {w : Unit} {v k : Nat}
  {x : VmMapEntry} {xs : List VmMapEntry} {tr : Nat → Option (Nat × Nat)}
  {maps : Ptr → List Ptr} {σ : Nat → KernelState}

/-! ## The pages of a process -/

/-- The address `v` is in the range of the entry. -/
def VmMapEntry.Has (x : VmMapEntry) (v : Nat) : Prop :=
  x.virtAddr ≤ v ∧ v < x.virtAddr + x.pageNums * 4096

/-- A page-aligned range for user code. -/
structure UserEntry (x : VmMapEntry) : Prop where
  aligned : x.virtAddr % 4096 = 0
  low : x.Low
  present : x.flags &&& pagingMaskP ≠ 0
  user : x.flags &&& pagingMaskUS ≠ 0
  word : x.flags < 2 ^ 64

/-- Two ranges that do not overlap. -/
def VmMapEntry.Apart (x y : VmMapEntry) : Prop :=
  x.virtAddr + x.pageNums * 4096 ≤ y.virtAddr ∨ y.virtAddr + y.pageNums * 4096 ≤ x.virtAddr

instance : Std.Symm VmMapEntry.Apart where
  symm _ _ h := h.symm

/-- Ranges for user code that do not overlap. -/
structure UserMap (xs : List VmMapEntry) : Prop where
  entries : ∀ x ∈ xs, UserEntry x
  apart : xs.Pairwise VmMapEntry.Apart

/-- The entries of a process, whose map has the nodes `maps p`. Without a process there are none. -/
def procEntries (s : KernelState) (maps : Ptr → List Ptr) (p : Ptr) : List VmMapEntry :=
  if p = NULL then [] else (maps p).map (entryOf s)

/-- The map of every process has the nodes that `maps` says, and they are good for user code. -/
structure ProcMaps (s : KernelState) (maps : Ptr → List Ptr) : Prop where
  ring : ∀ t ∈ s.created, (s.threads t).proc ≠ NULL →
    Ring s (.vmMapNode (s.procs (s.threads t).proc).vmMap)
      ((maps (s.threads t).proc).map .vmMapNode)
  user : ∀ t ∈ s.created, UserMap (procEntries s maps (s.threads t).proc)

/-- The page addresses of entries. -/
def entryPages (xs : List VmMapEntry) : Set Nat := {v | v % 4096 = 0 ∧ ∃ x ∈ xs, x.Has v}

/-- A translation that user code may use. -/
def UserTranslated (s : KernelState) (v : Nat) : Prop :=
  ∃ phyAddr flags, queryOf s v = some (some (phyAddr, flags)) ∧ flags &&& pagingMaskUS ≠ 0

/-- The page addresses that user code can reach. -/
def userPages (s : KernelState) : Set Nat :=
  {v | v < 0x0000800000000000 ∧ v % 4096 = 0 ∧ UserTranslated s v}

/-- User code reaches the pages of these entries and no others, as the entries ask. -/
structure Isolated (s : KernelState) (xs : List VmMapEntry) : Prop where
  reach : ∀ v, v < 0x0000800000000000 → v % 4096 = 0 → (UserTranslated s v ↔ ∃ x ∈ xs, x.Has v)
  page : ∀ v, v < 0x0000800000000000 → v % 4096 = 0 → ∀ x ∈ xs, x.Has v →
    queryOf s v = some (some (add64 x.phyAddr (v - x.virtAddr), x.flags))

/-! ## Mapping user pages -/

theorem UserEntry.covers_iff (h : UserEntry x) (hv : v < 0x0000800000000000)
    (hal : v % 4096 = 0) : x.Covers v ↔ x.Has v := by
  have haligned := h.aligned
  have hlow : x.virtAddr + x.pageNums * 4096 ≤ 0x0000800000000000 := h.low
  unfold VmMapEntry.Covers VmMapEntry.Has pageOffset pageNumber
  omega

/-- The page of the entry that `v` is. -/
theorem UserEntry.target_eq (h : UserEntry x) (hv : v < 0x0000800000000000)
    (hal : v % 4096 = 0) (hx : x.Has v) :
    x.target v = (add64 x.phyAddr (v - x.virtAddr), x.flags) := by
  have haligned := h.aligned
  obtain ⟨hlo, hhi⟩ := hx
  have hoff : pageOffset x.virtAddr v * 4096 = v - x.virtAddr := by
    unfold pageOffset pageNumber
    omega
  rw [VmMapEntry.target, hoff]

/-- One entry has the page, so it is the last that has it. -/
theorem UserMap.lastEntry (h : UserMap xs) (hv : v < 0x0000800000000000) (hal : v % 4096 = 0)
    (hx : x ∈ xs) (hhas : x.Has v) : lastEntry? xs v = some x := by
  cases hlast : lastEntry? xs v with
  | none =>
    have hnone := List.find?_eq_none.mp hlast x (List.mem_reverse.mpr hx)
    exact absurd (decide_eq_true (((h.entries x hx).covers_iff hv hal).mpr hhas)) hnone
  | some y =>
    obtain ⟨hy, hc⟩ := lastEntry?_mem hlast
    obtain ⟨hlo, hhi⟩ := ((h.entries y hy).covers_iff hv hal).mp hc
    obtain ⟨hlo', hhi'⟩ := hhas
    by_contra hne
    rcases h.apart.forall hy hx fun he => hne (congrArg some he) with hapart | hapart
    · omega
    · omega

/-- What mapping the entries does to a page of user code. -/
theorem UserMap.mapEntries_eq (h : UserMap xs) (hv : v < 0x0000800000000000)
    (hal : v % 4096 = 0) :
    (∀ x ∈ xs, x.Has v → mapEntries xs tr v = some (add64 x.phyAddr (v - x.virtAddr), x.flags)) ∧
      ((∀ x ∈ xs, ¬x.Has v) → mapEntries xs tr v = tr v) := by
  constructor
  · intro x hx hhas
    rw [mapEntries, h.lastEntry hv hal hx hhas]
    exact congrArg some ((h.entries x hx).target_eq hv hal hhas)
  · intro hnone
    unfold mapEntries
    cases hlast : lastEntry? xs v with
    | none => rfl
    | some y =>
      obtain ⟨hy, hc⟩ := lastEntry?_mem hlast
      exact absurd (((h.entries y hy).covers_iff hv hal).mp hc) (hnone y hy)

theorem entryPages_low (h : UserMap xs) (hv : v ∈ entryPages xs) : v < 0x0000800000000000 := by
  obtain ⟨hal, x, hx, hlo, hhi⟩ := hv
  have hlow : x.virtAddr + x.pageNums * 4096 ≤ 0x0000800000000000 := (h.entries x hx).low
  omega

/-- What mapping a map does to the pages of user code. -/
structure MapsUser (s s' : KernelState) (xs : List VmMapEntry) : Prop where
  pages : userPages s' = userPages s ∪ entryPages xs
  target : ∀ v, v < 0x0000800000000000 → v % 4096 = 0 → ∀ x ∈ xs, x.Has v →
    queryOf s' v = some (some (add64 x.phyAddr (v - x.virtAddr), x.flags))

theorem mapsUser_of_mapped {p : PagingState} (h : UserMap xs)
    (htree : PageTree s.paging.mem s.plm4e) (hm : EntriesMapped s xs p) :
    MapsUser s { s with paging := p } xs := by
  have hbefore := queryOf_eq htree
  have hafter : ∀ v, queryOf { s with paging := p } v
      = some (mapEntries xs (translate s.paging.mem s.plm4e) v) := fun v => by
    rw [← hm.translate]
    exact queryOf_eq (s := { s with paging := p }) hm.tree v
  have htarget : ∀ v, v < 0x0000800000000000 → v % 4096 = 0 → ∀ x ∈ xs, x.Has v →
      queryOf { s with paging := p } v
        = some (some (add64 x.phyAddr (v - x.virtAddr), x.flags)) :=
    fun v hv hal x hx hhas => by rw [hafter, (h.mapEntries_eq hv hal).1 x hx hhas]
  have hkept : ∀ v, v < 0x0000800000000000 → v % 4096 = 0 → (¬∃ x ∈ xs, x.Has v) →
      queryOf { s with paging := p } v = queryOf s v := fun v hv hal hx => by
    rw [hafter, hbefore, (h.mapEntries_eq hv hal).2 fun x hx' hhas => hx ⟨x, hx', hhas⟩]
  refine ⟨Set.ext fun v => ⟨fun ⟨hv, hal, huser⟩ => ?_, fun hmem => ?_⟩, htarget⟩
  · by_cases hx : ∃ x ∈ xs, x.Has v
    · exact .inr ⟨hal, hx⟩
    · unfold UserTranslated at huser
      rw [hkept v hv hal hx] at huser
      exact .inl ⟨hv, hal, huser⟩
  · -- a page that user code could reach is not taken away, it may only move
    have hentry : v < 0x0000800000000000 → v % 4096 = 0 → (∃ x ∈ xs, x.Has v) →
        v ∈ userPages { s with paging := p } := fun hv hal ⟨x, hx, hhas⟩ =>
      ⟨hv, hal, _, _, htarget v hv hal x hx hhas, (h.entries x hx).user⟩
    rcases hmem with ⟨hv, hal, huser⟩ | hmem
    · by_cases hx : ∃ x ∈ xs, x.Has v
      · exact hentry hv hal hx
      · refine ⟨hv, hal, ?_⟩
        unfold UserTranslated
        rw [hkept v hv hal hx]
        exact huser
    · exact hentry (entryPages_low h hmem) hmem.1 hmem.2

theorem mapsUser_nil (h : ∀ v, queryOf s' v = queryOf s v) : MapsUser s s' [] := by
  refine ⟨?_, fun _ _ _ x hx => absurd hx List.not_mem_nil⟩
  have hnone : entryPages [] = ∅ := Set.eq_empty_of_forall_notMem
    fun v ⟨_, x, hx, _⟩ => absurd hx List.not_mem_nil
  rw [hnone, Set.union_empty]
  unfold userPages UserTranslated
  simp only [h]

/-- What was mapped before is a matter of the queries. -/
theorem MapsUser.congr {s₁ : KernelState} (h : MapsUser s₁ s' xs)
    (hq : ∀ v, queryOf s₁ v = queryOf s v) : MapsUser s s' xs := by
  refine ⟨?_, h.target⟩
  rw [h.pages]
  unfold userPages UserTranslated
  simp only [hq]

/-- After the switch the process is isolated when there are no pages but its own. -/
theorem MapsUser.isolated_iff (h : UserMap xs) (hm : MapsUser s s' xs) :
    Isolated s' xs ↔ userPages s' = entryPages xs := by
  constructor
  · intro hiso
    refine Set.ext fun v => ⟨fun ⟨hv, hal, huser⟩ => ⟨hal, (hiso.reach v hv hal).mp huser⟩,
      fun hmem => ?_⟩
    have hv := entryPages_low h hmem
    exact ⟨hv, hmem.1, (hiso.reach v hv hmem.1).mpr hmem.2⟩
  · intro heq
    refine ⟨fun v hv hal => ⟨fun huser => ?_, fun hx => ?_⟩, hm.target⟩
    · have hmem : v ∈ userPages s' := ⟨hv, hal, huser⟩
      rw [heq] at hmem
      exact hmem.2
    · have hmem : v ∈ entryPages xs := ⟨hal, hx⟩
      rw [← heq] at hmem
      exact hmem.2.2

/-! ## One switch -/

/-- What the maps and the page tables have to do with stays. -/
structure SameMaps (s s' : KernelState) : Prop where
  threads : s'.threads = s.threads
  procs : s'.procs = s.procs
  created : s'.created = s.created
  mapEntry : s'.mapEntry = s.mapEntry
  entries : s'.entries = s.entries
  plm4e : s'.plm4e = s.plm4e
  links : ∀ n, SameLinks s s' (.vmMapNode n)

theorem SameMaps.procEntries_eq (h : SameMaps s s') (p : Ptr) :
    procEntries s' maps p = procEntries s maps p := by
  have hentry : entryOf s' = entryOf s := by
    funext n
    rw [entryOf, entryOf, h.mapEntry, h.entries]
  rw [procEntries, procEntries, hentry]

theorem SameMaps.procMaps (h : SameMaps s s') (hm : ProcMaps s maps) : ProcMaps s' maps := by
  constructor
  · rw [h.created, h.threads, h.procs]
    intro t ht hp
    refine (hm.ring t ht hp).congr fun r hr => ?_
    rw [← List.map_cons] at hr
    obtain ⟨n, -, rfl⟩ := List.mem_map.mp hr
    exact h.links n
  · rw [h.created, h.threads]
    intro t ht
    rw [h.procEntries_eq]
    exact hm.user t ht

theorem Switched.sameMaps (h : Switched s s' t) : SameMaps s s' := by
  refine ⟨h.threads, ?_, ?_, ?_, ?_, ?_, fun n => h.links (.vmMapNode n) id⟩
  all_goals rw [h.same]

theorem queryOf_congr (hmem : s'.paging.mem = s.paging.mem) (hroot : s'.plm4e = s.plm4e)
    (htree : PageTree s.paging.mem s.plm4e) (v : Nat) : queryOf s' v = queryOf s v := by
  have htree' : PageTree s'.paging.mem s'.plm4e := by rwa [hmem, hroot]
  rw [queryOf_eq htree', queryOf_eq htree, hmem, hroot]

/-- `sched` maps the pages of the process of the thread it loads. -/
structure SwitchMaps (s s' : KernelState) (maps : Ptr → List Ptr) : Prop where
  same : SameMaps s s'
  calls : s.paging.calls <+: s'.paging.calls
  pages : PageTree s.paging.mem s.plm4e → AllFresh s.plm4e s'.paging.calls →
    PageTree s'.paging.mem s'.plm4e ∧ MapsUser s s' (procEntries s maps s'.currentProc)

theorem sched_maps (h : SchedInv s ns) (hmaps : ProcMaps s maps) (he : e.MallocSucceeds)
    (hrun : sched e s = .ok (w, s')) : SwitchMaps s s' maps := by
  obtain ⟨_, s₁, hswitch, hrun⟩ := Program.bind_ok.mp hrun
  obtain ⟨t, ns', ht, hsw, -, -⟩ := schedSwitch_ok h.threads he hswitch
  have hsame := hsw.sameMaps
  have hpaging : s₁.paging = s.paging := by rw [hsw.same]
  have hproc : s₁.currentProc = (s₁.threads t).proc := by rw [hsame.threads, hsw.same]
  have ht₁ : t ∈ s₁.created := by rwa [hsame.created]
  have hmaps₁ := hsame.procMaps hmaps
  have hquery₁ := queryOf_congr (congrArg PagingState.mem hpaging) hsame.plm4e
  rw [Program.bind_of_ok Program.gets_apply] at hrun
  by_cases hnull : s₁.currentProc ≠ NULL
  · rw [if_pos hnull, Program.bind_of_ok Program.gets_apply, hproc] at hrun
    rw [hproc] at hnull
    have huser := hmaps₁.user t ht₁
    rw [procEntries, if_neg hnull] at huser
    obtain ⟨p, rfl, hcalls, hmapped⟩ := vmMapDoMapping_ok (hmaps₁.ring t ht₁ hnull)
      (fun n hn => (huser.entries _ (List.mem_map_of_mem hn)).word) hrun
    refine ⟨⟨hsame.threads, hsame.procs, hsame.created, hsame.mapEntry, hsame.entries,
      hsame.plm4e, hsame.links⟩, by rwa [hpaging] at hcalls, fun htree hfresh => ?_⟩
    have htree₁ : PageTree s₁.paging.mem s₁.plm4e := by rwa [hpaging, hsame.plm4e]
    rw [← hsame.plm4e] at hfresh
    have hm := hmapped htree₁ hfresh
    refine ⟨hm.tree, ?_⟩
    have hentries : procEntries s maps s₁.currentProc
        = (maps (s₁.threads t).proc).map (entryOf s₁) := by
      rw [hproc, ← hsame.procEntries_eq, procEntries, if_neg hnull]
    show MapsUser s _ (procEntries s maps s₁.currentProc)
    rw [hentries]
    exact (mapsUser_of_mapped huser htree₁ hm).congr (hquery₁ htree)
  · rw [if_neg hnull] at hrun
    have hnone : procEntries s maps s₁.currentProc = [] := if_pos (not_not.mp hnull)
    cases hrun
    refine ⟨hsame, by rw [hpaging], fun htree _ => ⟨by rwa [hpaging, hsame.plm4e], ?_⟩⟩
    rw [hnone]
    exact mapsUser_nil (hquery₁ htree)

/-! ## The switches of a run -/

/-- The thread whose turn it is is one. -/
theorem NextThread.unique (h : NextThread s t) (h' : NextThread s u) : t = u := by
  obtain ⟨ns, dead, rest, hq, hns, hdead, ht⟩ := h
  obtain ⟨ns', dead', rest', hq', hns', hdead', hu⟩ := h'
  obtain rfl : ns = ns' := by
    have hr := hq.ring.unique hq'.ring
    exact List.map_injective_iff.mpr (fun _ _ => ListRef.queueNode.inj) hr
  have hfind : ∀ {dead : List Ptr} {t : Ptr} {rest : List Ptr},
      ns.map s.content = dead ++ t :: rest → (∀ d ∈ dead, (s.threads d).status = -1) →
      (s.threads t).status ≠ -1 →
      (ns.map s.content).find? (fun t => (s.threads t).status ≠ -1) = some t :=
    fun heq hdead ht => List.find?_eq_some_iff_append.mpr
      ⟨decide_eq_true ht, _, _, heq, fun d hd => by simp [hdead d hd]⟩
  exact Option.some.inj ((hfind hns hdead ht).symm.trans (hfind hns' hdead' hu))

theorem SameMaps.trans {s₁ : KernelState} (h : SameMaps s s₁) (h' : SameMaps s₁ s') :
    SameMaps s s' :=
  ⟨h'.threads.trans h.threads, h'.procs.trans h.procs, h'.created.trans h.created,
    h'.mapEntry.trans h.mapEntry, h'.entries.trans h.entries, h'.plm4e.trans h.plm4e,
    fun n => SameLinks.trans (h.links n) (h'.links n)⟩

/-- What the calls keep, and what each of them does. -/
structure SwitchRun (σ : Nat → KernelState) (k : Nat) (maps : Ptr → List Ptr) : Prop where
  same : ∀ i ≤ k, SameMaps (σ 0) (σ i)
  step : ∀ i < k, SwitchMaps (σ i) (σ (i + 1)) maps
  next : ∀ i < k, NextThread (σ i) (σ (i + 1)).currentThread ∧
    (σ (i + 1)).currentProc = ((σ 0).threads (σ (i + 1)).currentThread).proc
  created : ∀ i < k, (σ (i + 1)).currentThread ∈ (σ 0).created

theorem SchedCalls.switchRun (hrun : SchedCalls σ k) (h : SchedInv (σ 0) ns)
    (hmaps : ProcMaps (σ 0) maps) : SwitchRun σ k maps := by
  have hinv : ∀ i ≤ k, (∃ ns, SchedInv (σ i) ns) ∧ SameMaps (σ 0) (σ i) := by
    intro i hi
    induction i with
    | zero => exact ⟨⟨ns, h⟩, ⟨rfl, rfl, rfl, rfl, rfl, rfl, fun _ => ⟨rfl, rfl⟩⟩⟩
    | succ i ih =>
      obtain ⟨⟨ms, hms⟩, hsame⟩ := ih (Nat.le_of_succ_le hi)
      obtain ⟨e, he, hcall⟩ := hrun i hi
      have hm := sched_maps hms (hsame.procMaps hmaps) he hcall
      exact ⟨(sched_inv hms.threads he hcall).1, hsame.trans hm.same⟩
  refine ⟨fun i hi => (hinv i hi).2, fun i hi => ?_, fun i hi => ?_, fun i hi => ?_⟩
  · obtain ⟨⟨ms, hms⟩, hsame⟩ := hinv i hi.le
    obtain ⟨e, he, hcall⟩ := hrun i hi
    exact sched_maps hms (hsame.procMaps hmaps) he hcall
  · obtain ⟨⟨ms, hms⟩, hsame⟩ := hinv i hi.le
    obtain ⟨⟨ms', hms'⟩, hsame'⟩ := hinv (i + 1) hi
    obtain ⟨e, he, hcall⟩ := hrun i hi
    refine ⟨(sched_inv hms.threads he hcall).2.2.2, ?_⟩
    rw [hms'.current.proc, hsame'.threads]
  · obtain ⟨⟨ms, hms⟩, hsame⟩ := hinv (i + 1) hi
    rw [← hsame.created]
    exact hms.current.created

/-- The calls of `page_alloc` only get more. -/
theorem SwitchRun.calls (h : SwitchRun σ k maps) {i d : Nat} (hd : i + d ≤ k) :
    (σ i).paging.calls <+: (σ (i + d)).paging.calls := by
  induction d with
  | zero => exact List.prefix_rfl
  | succ d ih => exact (ih (Nat.le_of_succ_le hd)).trans (h.step (i + d) hd).calls

/-- With fresh pages for the tables, every call maps the pages of the process it loads. -/
theorem SwitchRun.mapsUser (h : SwitchRun σ k maps)
    (htree : PageTree (σ 0).paging.mem (σ 0).plm4e)
    (hfresh : AllFresh (σ 0).plm4e (σ k).paging.calls) {i : Nat} (hi : i < k) :
    MapsUser (σ i) (σ (i + 1)) (procEntries (σ 0) maps (σ (i + 1)).currentProc) := by
  have hcalls : ∀ j ≤ k, AllFresh (σ 0).plm4e (σ j).paging.calls := fun j hj => by
    obtain ⟨d, rfl⟩ := Nat.exists_eq_add_of_le hj
    exact hfresh.ofAppend (h.calls le_rfl)
  have hstep : ∀ j < k, PageTree (σ j).paging.mem (σ j).plm4e →
      PageTree (σ (j + 1)).paging.mem (σ (j + 1)).plm4e ∧
        MapsUser (σ j) (σ (j + 1)) (procEntries (σ j) maps (σ (j + 1)).currentProc) :=
    fun j hj htree => (h.step j hj).pages htree (by
      rw [(h.same j hj.le).plm4e]
      exact hcalls (j + 1) hj)
  have htrees : ∀ j ≤ k, PageTree (σ j).paging.mem (σ j).plm4e := by
    intro j hj
    induction j with
    | zero => exact htree
    | succ j ih => exact (hstep j hj (ih (Nat.le_of_succ_le hj))).1
  rw [← (h.same i hi.le).procEntries_eq]
  exact (hstep i hi (htrees i hi.le)).2

/-- The pages of the process that a call switches to. -/
def loadedPages (σ : Nat → KernelState) (maps : Ptr → List Ptr) (i : Nat) : Set Nat :=
  entryPages (procEntries (σ 0) maps (σ (i + 1)).currentProc)

theorem SwitchRun.accumulates (h : SwitchRun σ k maps)
    (htree : PageTree (σ 0).paging.mem (σ 0).plm4e)
    (hfresh : AllFresh (σ 0).plm4e (σ k).paging.calls) (hempty : userPages (σ 0) = ∅) :
    Accumulates k (fun i => userPages (σ i)) (loadedPages σ maps) :=
  ⟨hempty, fun _ hi => (h.mapsUser htree hfresh hi).pages⟩

/--
Processes that share the tables: the map of each process whose turn comes has all the pages of
the processes that were switched to before.
-/
def SharedPages (σ : Nat → KernelState) (k : Nat) (maps : Ptr → List Ptr) : Prop :=
  ∀ i < k, ∀ j < i, ∀ t u, NextThread (σ j) t → NextThread (σ i) u →
    ((σ 0).threads u).proc ≠ NULL →
      entryPages (procEntries (σ 0) maps ((σ 0).threads t).proc)
        ⊆ entryPages (procEntries (σ 0) maps ((σ 0).threads u).proc)

/--
In a run of `sched` calls every process is isolated after the switch to it if and only if its map
has all the pages of the processes before it: no page is ever unmapped.
-/
theorem sched_isolates_iff (h : SchedInv (σ 0) ns) (hmaps : ProcMaps (σ 0) maps)
    (hrun : SchedCalls σ k) (htree : PageTree (σ 0).paging.mem (σ 0).plm4e)
    (hempty : ∀ v, v < 0x0000800000000000 → v % 4096 = 0 → ¬UserTranslated (σ 0) v)
    (hfresh : AllFresh (σ 0).plm4e (σ k).paging.calls) :
    (∀ i < k, (σ (i + 1)).currentProc ≠ NULL →
      Isolated (σ (i + 1)) (procEntries (σ 0) maps (σ (i + 1)).currentProc)) ↔
      SharedPages σ k maps := by
  have hsw := hrun.switchRun h hmaps
  have hnone : userPages (σ 0) = ∅ := Set.eq_empty_of_forall_notMem
    fun v ⟨hv, hal, huser⟩ => hempty v hv hal huser
  have hacc := hsw.accumulates htree hfresh hnone
  have hiso : ∀ i < k, Isolated (σ (i + 1)) (procEntries (σ 0) maps (σ (i + 1)).currentProc) ↔
      ∀ j < i, loadedPages σ maps j ⊆ loadedPages σ maps i := fun i hi => by
    have huser : UserMap (procEntries (σ 0) maps (σ (i + 1)).currentProc) := by
      rw [(hsw.next i hi).2]
      exact hmaps.user _ (hsw.created i hi)
    rw [(hsw.mapsUser htree hfresh hi).isolated_iff huser]
    exact hacc.eq_last_iff hi
  constructor
  · intro hall i hi j hj t u ht hu hproc
    obtain ⟨hnext, hcur⟩ := hsw.next i hi
    obtain ⟨hnext', hcur'⟩ := hsw.next j (hj.trans hi)
    obtain rfl := ht.unique hnext'
    obtain rfl := hu.unique hnext
    rw [← hcur] at hproc ⊢
    rw [← hcur']
    exact (hiso i hi).mp (hall i hi hproc) j hj
  · intro hshared i hi hproc
    obtain ⟨hnext, hcur⟩ := hsw.next i hi
    refine (hiso i hi).mpr fun j hj => ?_
    obtain ⟨hnext', hcur'⟩ := hsw.next j (hj.trans hi)
    have hsub := hshared i hi j hj _ _ hnext' hnext (by rwa [← hcur])
    rwa [← hcur, ← hcur'] at hsub

/-! ## Two processes -/

/-- The links of the ready queue 6, of two processes with a thread each, and of their maps. -/
def pairNext : ListRef → ListRef
  | .queueHead 6 => .queueNode 7
  | .queueNode 7 => .queueNode 8
  | .queueNode 8 => .queueNode 9
  | .queueNode 9 => .queueHead 6
  | .procThreads 4 => .threadNode 2
  | .threadNode 2 => .procThreads 4
  | .procThreads 5 => .threadNode 3
  | .threadNode 3 => .procThreads 5
  | .vmMapNode 10 => .vmMapNode 12
  | .vmMapNode 12 => .vmMapNode 10
  | .vmMapNode 11 => .vmMapNode 13
  | .vmMapNode 13 => .vmMapNode 11
  | r => r

def pairPrev : ListRef → ListRef
  | .queueHead 6 => .queueNode 9
  | .queueNode 7 => .queueHead 6
  | .queueNode 8 => .queueNode 7
  | .queueNode 9 => .queueNode 8
  | r => pairNext r

/-- The kernel thread 1, and the processes 4 and 5 whose threads 2 and 3 are next in turn. -/
def pairBase : KernelState :=
  { bootState with
    next := pairNext
    prev := pairPrev
    threads := fun t =>
      { Thread.zero with proc := if t = 2 then 4 else if t = 3 then 5 else NULL }
    procs := fun p => { bootState.procs p with vmMap := if p = 4 then 10 else 11 }
    queueLength := fun _ => 3
    content := fun n => if n = 7 then 2 else if n = 8 then 3 else 1
    mapEntry := fun n => if n = 12 then 14 else 15
    currentThread := 1
    readyQueue := 6
    saveContext := 1
    loadContext := 1
    paging := ⟨tablesAt 0, []⟩
    live := [1, 2, 3, 4, 5, 6, 7, 8, 9, 10, 11, 12, 13, 14, 15]
    created := [1, 2, 3] }

theorem pairBase_inv : SchedInv pairBase [7, 8, 9] where
  threads := {
    heap := ⟨by decide, by decide⟩
    queue := {
      ring := ⟨by decide, .cons_cons ⟨rfl, rfl⟩ <| .cons_cons ⟨rfl, rfl⟩ <|
        .cons_cons ⟨rfl, rfl⟩ <| .cons_cons ⟨rfl, rfl⟩ <| .singleton _⟩
      length := rfl
      live := by decide }
    contents := by decide
    once := by decide
    runnable := by decide
    threads := by
      intro t ht
      simp only [pairBase, List.mem_cons, List.not_mem_nil, or_false] at ht
      rcases ht with rfl | rfl | rfl
      · exact ⟨⟨by decide, by decide⟩, fun h => absurd rfl h, fun h => absurd rfl h,
          fun h => absurd rfl h⟩
      · exact ⟨⟨by decide, by decide⟩, fun _ => ⟨by decide, by decide⟩,
          fun _ => ⟨rfl, rfl, rfl⟩, fun _ => trivial⟩
      · exact ⟨⟨by decide, by decide⟩, fun _ => ⟨by decide, by decide⟩,
          fun _ => ⟨rfl, rfl, rfl⟩, fun _ => trivial⟩
    kernel := ⟨1, by decide, rfl, by decide⟩ }
  current := ⟨by decide, by decide, rfl, rfl, rfl⟩

/-- The process 4 has the entry `x` in its map, the process 5 has `y`. -/
def pairState (x y : VmMapEntry) : KernelState :=
  { pairBase with entries := fun p => if p = 14 then x else y }

/-- The nodes of the two maps. -/
def pairMaps (p : Ptr) : List Ptr := if p = 4 then [12] else [13]

theorem pairState_inv (x y : VmMapEntry) : SchedInv (pairState x y) [7, 8, 9] :=
  pairBase_inv.quiet ⟨rfl, heap_refl rfl, fun _ _ => ⟨rfl, rfl⟩⟩

theorem userMap_singleton (h : UserEntry x) : UserMap [x] :=
  ⟨fun y hy => by rwa [List.mem_singleton.mp hy], List.pairwise_singleton _ _⟩

theorem pairState_maps {y : VmMapEntry} (hx : UserEntry x) (hy : UserEntry y) :
    ProcMaps (pairState x y) pairMaps := by
  constructor
  · intro t ht hp
    simp only [pairState, pairBase, List.mem_cons, List.not_mem_nil, or_false] at ht
    rcases ht with rfl | rfl | rfl
    · exact absurd rfl hp
    · exact ⟨show [ListRef.vmMapNode 10, .vmMapNode 12].Nodup by decide,
        .cons_cons ⟨rfl, rfl⟩ <| .cons_cons ⟨rfl, rfl⟩ <| .singleton _⟩
    · exact ⟨show [ListRef.vmMapNode 11, .vmMapNode 13].Nodup by decide,
        .cons_cons ⟨rfl, rfl⟩ <| .cons_cons ⟨rfl, rfl⟩ <| .singleton _⟩
  · intro t ht
    simp only [pairState, pairBase, List.mem_cons, List.not_mem_nil, or_false] at ht
    rcases ht with rfl | rfl | rfl
    · exact ⟨fun x hx => absurd hx List.not_mem_nil, List.Pairwise.nil⟩
    · exact userMap_singleton hx
    · exact userMap_singleton hy

/-- The tables have no pages. -/
theorem pairState_empty (x y : VmMapEntry) :
    PageTree (pairState x y).paging.mem (pairState x y).plm4e ∧
      ∀ v, ¬UserTranslated (pairState x y) v := by
  obtain ⟨htree, hnone⟩ := tablesAt_tree (i := 0) (by decide)
  have htree' : PageTree (pairState x y).paging.mem (pairState x y).plm4e := htree
  refine ⟨htree', ?_⟩
  rintro v ⟨phyAddr, flags, hquery, -⟩
  rw [queryOf_eq htree'] at hquery
  cases (hnone v).symm.trans (Option.some.inj hquery)

/-- The states after some ticks. -/
def pairTicks (x y : VmMapEntry) : Nat → KernelState
  | 0 => pairState x y
  | i + 1 => match sched bootEnv (pairTicks x y i) with
    | .ok (_, s) => s
    | .error _ => pairTicks x y i

theorem pairTicks_call {y : VmMapEntry} {i : Nat}
    (h : (sched bootEnv (pairTicks x y i)).toBool = true) :
    sched bootEnv (pairTicks x y i) = .ok ((), pairTicks x y (i + 1)) := by
  rw [pairTicks]
  cases hrun : sched bootEnv (pairTicks x y i) with
  | error err =>
    rw [hrun] at h
    cases h
  | ok r => rfl

theorem pairTicks_calls {y : VmMapEntry}
    (h0 : (sched bootEnv (pairTicks x y 0)).toBool = true)
    (h1 : (sched bootEnv (pairTicks x y 1)).toBool = true) : SchedCalls (pairTicks x y) 2 := by
  intro i hi
  obtain rfl | rfl : i = 0 ∨ i = 1 := by omega
  · exact ⟨bootEnv, bootEnv_malloc, pairTicks_call h0⟩
  · exact ⟨bootEnv, bootEnv_malloc, pairTicks_call h1⟩

/-- The page at 0x1000. -/
def secondPage : VmMapEntry := ⟨0x1000, 0x6000, 1, 0x7, 1⟩

/-- The pages at 0 and 0x1000. -/
def bothPages : VmMapEntry := ⟨0, 0x6000, 2, 0x7, 1⟩

theorem userEntry_pages : UserEntry firstPage ∧ UserEntry secondPage ∧ UserEntry bothPages := by
  refine ⟨⟨rfl, ?_, by decide, by decide, by decide⟩, ⟨rfl, ?_, by decide, by decide, by decide⟩,
    ⟨rfl, ?_, by decide, by decide, by decide⟩⟩ <;> (unfold VmMapEntry.Low; decide)

theorem allFresh_nil {root : Nat} {calls : List PageAllocCall} (h : calls.isEmpty = true) :
    AllFresh root calls := by
  rw [List.isEmpty_iff.mp h]
  exact fun c hc => absurd hc List.not_mem_nil

/-- The second process has the page of the first one: both are isolated when they are loaded. -/
theorem sched_isolates_pair :
    Isolated (pairTicks firstPage bothPages 1) (procEntries (pairState firstPage bothPages)
      pairMaps (pairTicks firstPage bothPages 1).currentProc) ∧
    Isolated (pairTicks firstPage bothPages 2) (procEntries (pairState firstPage bothPages)
      pairMaps (pairTicks firstPage bothPages 2).currentProc) := by
  obtain ⟨hfirst, -, hboth⟩ := userEntry_pages
  have hinv := pairState_inv firstPage bothPages
  have hmaps := pairState_maps hfirst hboth
  obtain ⟨htree, hempty⟩ := pairState_empty firstPage bothPages
  have hcalls : SchedCalls (pairTicks firstPage bothPages) 2 :=
    pairTicks_calls (by decide +kernel) (by decide +kernel)
  have hfresh : (pairTicks firstPage bothPages 2).paging.calls.isEmpty = true := by decide +kernel
  have hproc : (pairTicks firstPage bothPages 1).currentProc ≠ NULL ∧
      (pairTicks firstPage bothPages 2).currentProc ≠ NULL := by decide +kernel
  have hiso := (sched_isolates_iff (σ := pairTicks firstPage bothPages) hinv hmaps hcalls htree
    (fun v _ _ => hempty v) (allFresh_nil hfresh)).mpr fun i hi j hj t u ht hu _ => ?_
  · exact ⟨hiso 0 (by decide) hproc.1, hiso 1 (by decide) hproc.2⟩
  have hsw := SchedCalls.switchRun (σ := pairTicks firstPage bothPages) hcalls hinv hmaps
  obtain ⟨rfl, rfl⟩ : j = 0 ∧ i = 1 := by omega
  have hcur : (pairTicks firstPage bothPages 1).currentThread = 2 ∧
      (pairTicks firstPage bothPages 2).currentThread = 3 := by decide +kernel
  obtain rfl : t = 2 := ht.unique (hcur.1 ▸ (hsw.next 0 (by decide)).1)
  obtain rfl : u = 3 := hu.unique (hcur.2 ▸ (hsw.next 1 (by decide)).1)
  show entryPages [firstPage] ⊆ entryPages [bothPages]
  rintro v ⟨hal, x, hx, hlo, hhi⟩
  obtain rfl := List.mem_singleton.mp hx
  have hhi : v < 0 + 1 * 4096 := hhi
  have hv : v < 0 + 2 * 4096 := hhi.trans (by decide)
  exact ⟨hal, bothPages, List.mem_singleton.mpr rfl, hlo, hv⟩

/-- The second process does not have the page of the first one, and can reach it. -/
theorem sched_not_isolates :
    SchedInv (pairState firstPage secondPage) [7, 8, 9] ∧
      ProcMaps (pairState firstPage secondPage) pairMaps ∧
      SchedCalls (pairTicks firstPage secondPage) 2 ∧
      PageTree (pairState firstPage secondPage).paging.mem
        (pairState firstPage secondPage).plm4e ∧
      (∀ v, ¬UserTranslated (pairState firstPage secondPage) v) ∧
      (pairTicks firstPage secondPage 2).paging.calls = [] ∧
      (pairTicks firstPage secondPage 2).currentProc = 5 ∧
      queryOf (pairTicks firstPage secondPage 2) 0 = some (some (0x5000, 0x7)) ∧
      ¬Isolated (pairTicks firstPage secondPage 2)
        (procEntries (pairState firstPage secondPage) pairMaps 5) := by
  obtain ⟨hfirst, hsecond, -⟩ := userEntry_pages
  obtain ⟨htree, hempty⟩ := pairState_empty firstPage secondPage
  have hquery : queryOf (pairTicks firstPage secondPage 2) 0 = some (some (0x5000, 0x7)) := by
    decide +kernel
  have hcalls : (pairTicks firstPage secondPage 2).paging.calls.isEmpty = true := by
    decide +kernel
  refine ⟨pairState_inv _ _, pairState_maps hfirst hsecond,
    pairTicks_calls (by decide +kernel) (by decide +kernel), htree, hempty,
    List.isEmpty_iff.mp hcalls, by decide +kernel, hquery, fun hiso => ?_⟩
  obtain ⟨x, hx, hlo, -⟩ := (hiso.reach 0 (by decide) rfl).mp ⟨_, _, hquery, by decide⟩
  obtain rfl := List.mem_singleton.mp hx
  exact absurd hlo (by decide)

end Raincloud
