import Raincloud.Mm.VmMap

/-!
# What kernel code leaves alone

Code that copies arguments or memory maps leaves the threads, the processes, the queues and
their lists as they are. `still` is the relation that keeps every list too; `quiet` lets the
lists of memory maps change.
-/

set_option linter.style.nameCheck false

namespace Raincloud

open Infra Infra.LinkStore Infra.Frame Kernel

variable {e : Env} {s s' : KernelState} {α : Type}

/-! ## Loops -/

theorem keeps_listForEachFrom {F : Frame KernelState} {head : ListRef}
    {body : ListRef → Kernel Unit} (hbody : ∀ it, F.Keeps (body it)) :
    ∀ fuel it, F.Keeps (listForEachFrom head body fuel it)
  | 0, _ => keeps_fault _
  | fuel + 1, it => by
    unfold listForEachFrom
    split
    · exact keeps_pure _
    · exact keeps_bind (hbody it) fun _ => keeps_bind (keeps_gets _) fun next =>
        keeps_listForEachFrom hbody fuel next

theorem keeps_listForEach {F : Frame KernelState} {head : ListRef} {body : ListRef → Kernel Unit}
    (hbody : ∀ it, F.Keeps (body it)) : F.Keeps (listForEach head body) :=
  keeps_bind (keeps_gets _) fun it => keeps_listForEachFrom hbody walkFuel it

theorem keeps_listEntry {F : Frame KernelState} (o : Option Ptr) : F.Keeps (listEntry o) := by
  cases o with
  | none => exact keeps_fault _
  | some p => exact keeps_pure p

/-! ## Lists kept -/

/-- No list changes, and of the objects only those of memory maps and arguments. -/
structure Still (s s' : KernelState) : Prop where
  same : s' = { s with
    mapEntry := s'.mapEntry, entries := s'.entries, pargs := s'.pargs, argv := s'.argv,
    pwd := s'.pwd, strings := s'.strings, paging := s'.paging, live := s'.live }
  heap : s.HeapOk → s'.HeapOk ∧ ∀ p ∈ s.live, p ∈ s'.live

/-- Blocks kept through two steps. -/
theorem heap_trans {s t u : KernelState} (h1 : s.HeapOk → t.HeapOk ∧ ∀ p ∈ s.live, p ∈ t.live)
    (h2 : t.HeapOk → u.HeapOk ∧ ∀ p ∈ t.live, p ∈ u.live) (h : s.HeapOk) :
    u.HeapOk ∧ ∀ p ∈ s.live, p ∈ u.live := by
  obtain ⟨ht, hst⟩ := h1 h
  obtain ⟨hu, htu⟩ := h2 ht
  exact ⟨hu, fun p hp => htu p (hst p hp)⟩

/-- The blocks in use as they were. -/
theorem heap_refl (h : s'.live = s.live) (hs : s.HeapOk) :
    s'.HeapOk ∧ ∀ p ∈ s.live, p ∈ s'.live :=
  ⟨⟨h ▸ hs.nodup, h ▸ hs.range⟩, fun _ hp => h ▸ hp⟩

def still : Frame KernelState where
  rel := Still
  refl _ := ⟨rfl, heap_refl rfl⟩
  trans h1 h2 := by
    refine ⟨?_, heap_trans h1.heap h2.heap⟩
    have h := h2.same
    rw [h1.same] at h
    exact h

theorem still_malloc : still.Keeps Kernel.malloc := by
  intro e s p s' h
  obtain ⟨-, ⟨-, rfl⟩ | ⟨hnew, hpos, hlt, rfl⟩⟩ := malloc_cases h
  · exact still.refl s'
  · exact ⟨rfl, fun hheap => ⟨hheap.cons hnew hpos hlt rfl, fun q hq =>
      List.mem_cons_of_mem p hq⟩⟩

theorem still_modify {f : KernelState → KernelState} (h : ∀ s, f s = { s with
    mapEntry := (f s).mapEntry, entries := (f s).entries, pargs := (f s).pargs,
    argv := (f s).argv, pwd := (f s).pwd, strings := (f s).strings, paging := (f s).paging }) :
    still.Keeps (Program.modify f : Kernel Unit) := by
  refine keeps_modify fun s => ?_
  have hlive : (f s).live = s.live := by rw [h s]
  refine ⟨?_, heap_refl hlive⟩
  have := h s
  rw [hlive]
  exact this

theorem still_onPaging (x : Paging α) : still.Keeps (onPaging x) := by
  intro e s a s' h
  unfold onPaging at h
  cases hx : x s.paging with
  | mk r p =>
    rw [hx] at h
    cases r with
    | none => cases h
    | some a =>
      cases h
      exact ⟨rfl, heap_refl rfl⟩

theorem still_pageAlloc (n : Nat) : still.Keeps (Kernel.pageAlloc n) := by
  intro e s a s' h
  cases h
  exact ⟨rfl, heap_refl rfl⟩

theorem still_mapChunk (entry : VmMapEntry) : still.Keeps (mapChunk entry) :=
  fun e s a s' h => still_onPaging _ e s a s' h

theorem still_vmMapDoMapping (vmMap : Ptr) : still.Keeps (vmMapDoMapping vmMap) :=
  keeps_listForEach fun _ => keeps_bind (keeps_listEntry _) fun _ => keeps_bind (keeps_gets _)
    fun _ => keeps_bind (keeps_check _ _) fun _ => keeps_bind (keeps_check _ _) fun _ =>
    keeps_bind (keeps_check _ _) fun _ => keeps_bind (still_mapChunk _) fun _ => keeps_pure _

theorem still_copyPages (new old pageNums : Nat) : still.Keeps (copyPages new old pageNums) := by
  unfold copyPages
  split
  · exact still_modify fun _ => rfl
  · exact keeps_fault _

theorem still_vmMapEntryDup (newEntry oldEntry : Ptr) :
    still.Keeps (vmMapEntryDup newEntry oldEntry) :=
  keeps_bind (keeps_gets _) fun _ => keeps_bind (still_pageAlloc _) fun _ =>
    keeps_bind (still_copyPages _ _ _) fun _ => still_modify fun _ => rfl

/-! ## Lists of memory maps -/

def ListRef.IsVmMap : ListRef → Prop
  | .vmMapNode _ => True
  | _ => False

/-- As `Still`, but the lists of memory maps may change. -/
structure Quiet (s s' : KernelState) : Prop where
  same : s' = { s with
    next := s'.next, prev := s'.prev, mapEntry := s'.mapEntry, entries := s'.entries,
    pargs := s'.pargs, argv := s'.argv, pwd := s'.pwd, strings := s'.strings,
    paging := s'.paging, live := s'.live }
  heap : s.HeapOk → s'.HeapOk ∧ ∀ p ∈ s.live, p ∈ s'.live
  links : ∀ r : ListRef, ¬r.IsVmMap → SameLinks s s' r

def quiet : Frame KernelState where
  rel := Quiet
  refl _ := ⟨rfl, heap_refl rfl, fun _ _ => ⟨rfl, rfl⟩⟩
  trans h1 h2 := by
    refine ⟨?_, heap_trans h1.heap h2.heap, fun r hr => ?_⟩
    · have h := h2.same
      rw [h1.same] at h
      exact h
    · obtain ⟨n1, p1⟩ := h1.links r hr
      obtain ⟨n2, p2⟩ := h2.links r hr
      exact ⟨n2.trans n1, p2.trans p1⟩

theorem Still.next_eq (h : Still s s') : s'.next = s.next := by rw [h.same]

theorem Still.prev_eq (h : Still s s') : s'.prev = s.prev := by rw [h.same]

theorem Still.quiet (h : Still s s') : Quiet s s' := by
  refine ⟨?_, h.heap, fun r _ => ⟨congrFun h.next_eq r, congrFun h.prev_eq r⟩⟩
  have hs := h.same
  rw [← h.next_eq, ← h.prev_eq] at hs
  exact hs

/-- A map under construction: its last node is a node of a memory map, and stays one. -/
def building (m : Ptr) : Frame KernelState where
  rel s s' := (s.prev (.vmMapNode m)).IsVmMap →
    (s'.prev (.vmMapNode m)).IsVmMap ∧ Quiet s s'
  refl s h := ⟨h, quiet.refl s⟩
  trans h1 h2 h := by
    obtain ⟨h', hq⟩ := h1 h
    obtain ⟨h'', hq'⟩ := h2 h'
    exact ⟨h'', quiet.trans hq hq'⟩

theorem Still.building (h : Still s s') (m : Ptr) : (Raincloud.building m).rel s s' := fun hm =>
  ⟨(congrFun h.prev_eq (.vmMapNode m)).symm ▸ hm, h.quiet⟩

theorem building_of_still {m : Ptr} {x : Kernel α} (h : still.Keeps x) : (building m).Keeps x :=
  h.mono fun _ _ hs => hs.building m

theorem building_vmMapLink (m newMap entry : Ptr) (s : KernelState) :
    (building m).rel s (vmMapLink m newMap entry s) := by
  intro hm
  have hU := kernelState_lawfulOn Set.univ
  have hprev : (prev (listInit s (ListRef.vmMapNode newMap)) (ListRef.vmMapNode m)).IsVmMap := by
    rw [prev_listInit hU trivial trivial]
    split
    · trivial
    · exact hm
  refine ⟨?_, rfl, heap_refl rfl, fun r hr => ?_⟩
  · show (prev (__listAdd (listInit s (ListRef.vmMapNode newMap)) _ (ListRef.vmMapNode m)
      (ListRef.vmMapNode newMap)) (ListRef.vmMapNode m)).IsVmMap
    rw [prev_listAdd hU trivial trivial trivial trivial, if_pos rfl]
    trivial
  · have hnew : r ≠ .vmMapNode newMap := fun he => hr (by rw [he]; trivial)
    have hhead : r ≠ .vmMapNode m := fun he => hr (by rw [he]; trivial)
    have hlast : r ≠ prev (listInit s (ListRef.vmMapNode newMap)) (ListRef.vmMapNode m) :=
      fun he => hr (by rw [he]; exact hprev)
    have h1 := sameLinks_listInit (s := s) hU trivial trivial hnew
    have h2 := sameLinks_listAdd (s := listInit s (.vmMapNode newMap)) hU trivial trivial trivial
      trivial hnew hlast hhead
    exact ⟨h2.1.trans h1.1, h2.2.trans h1.2⟩

theorem building_vmMapAdd (m entry : Ptr) : (building m).Keeps (vmMapAdd m entry) := by
  refine keeps_bind (building_of_still still_malloc) fun newMap => ?_
  split
  · exact keeps_pure _
  · exact keeps_bind (keeps_modify fun s => building_vmMapLink m newMap entry s)
      fun _ => keeps_pure _

theorem quiet_vmMapInit (m : Ptr) (s : KernelState) :
    Quiet s (vmMapInit m s) ∧ ((vmMapInit m s).prev (.vmMapNode m)).IsVmMap := by
  have hU := kernelState_lawfulOn Set.univ
  refine ⟨⟨rfl, heap_refl rfl, fun r hr => ?_⟩, ?_⟩
  · have hne : r ≠ .vmMapNode m := fun he => hr (by rw [he]; trivial)
    exact sameLinks_listInit (s := s) hU trivial trivial hne
  · show (prev (listInit s (ListRef.vmMapNode m)) (ListRef.vmMapNode m)).IsVmMap
    rw [prev_listInit hU trivial trivial, if_pos rfl]
    trivial

/-- What follows `vm_map_init` builds the map. -/
theorem quiet_ofInit {m : Ptr} {x : Kernel α} (h : (building m).Keeps x) :
    quiet.Keeps (do Program.modify (vmMapInit m); x) := by
  intro e s a s' hrun
  obtain ⟨u, t, hinit, hx⟩ := Program.bind_ok.mp hrun
  cases hinit
  obtain ⟨hq, hm⟩ := quiet_vmMapInit m s
  exact quiet.trans hq (h e _ a s' hx hm).2

theorem quiet_vmMapDup (newVmMap oldVmMap : Ptr) : quiet.Keeps (vmMapDup newVmMap oldVmMap) :=
  quiet_ofInit (keeps_listForEach fun _ => keeps_bind (keeps_listEntry _) fun _ =>
    keeps_bind (keeps_gets _) fun _ => keeps_bind (keeps_check _ _) fun _ =>
    keeps_bind (building_of_still still_malloc) fun _ =>
    keeps_bind (building_of_still (still_vmMapEntryDup _ _)) fun _ =>
    keeps_bind (building_vmMapAdd _ _) fun _ => keeps_pure _)

theorem quiet_of_still {x : Kernel α} (h : still.Keeps x) : quiet.Keeps x :=
  h.mono fun _ _ => Still.quiet

end Raincloud
