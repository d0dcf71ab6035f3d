import Raincloud.Mm.MapDup

/-!
# `vm_map_clear`

The loop gives back the nodes of a map. It does not give back the entries behind them, so a map
that was duplicated and cleared leaves a block behind for each of its entries.
-/

set_option linter.style.nameCheck false

namespace Raincloud

open Infra Infra.LinkStore Kernel

variable {e : Env} {s s' s₁ : KernelState} {mmPool : MmPool} {new old map : Ptr}
  {ns cs : List Ptr} {u : Unit}

/-! ## The loop -/

theorem pageFree_ok {a n : Nat} (hrun : Kernel.pageFree mmPool a n e s = .ok (u, s')) :
    ∃ m, s' = { s with paging := { s.paging with mem := m } } := by
  unfold Kernel.pageFree at hrun
  split at hrun
  · cases hrun
    exact ⟨_, rfl⟩
  · cases hrun

/-- A round takes the first node off the list and frees it. -/
theorem vmMapClearLoop_cons {fuel : Nat} {c : Ptr}
    (hring : Ring s (.vmMapNode map) ((c :: cs).map .vmMapNode))
    (hrun : vmMapClearLoop mmPool map (fuel + 1) e s = .ok (u, s')) : ∃ t,
    Ring t (.vmMapNode map) (cs.map .vmMapNode) ∧ t.live = s.live.erase c ∧
      vmMapClearLoop mmPool map fuel e t = .ok (u, s') := by
  have hempty : listEmpty s (ListRef.vmMapNode map) ≠ true := fun h => by
    rw [listEmpty_iff hring] at h
    simp at h
  have hnext : s.next (.vmMapNode map) = .vmMapNode c := hring.next_head
  rw [vmMapClearLoop, Program.bind_of_ok Program.gets_apply, if_neg hempty,
    Program.bind_of_ok Program.gets_apply, hnext,
    show listEntry (ListRef.vmMapNode c).vmMap? = pure c from rfl,
    Program.bind_of_ok Program.pure_apply, Program.bind_of_ok Program.gets_apply] at hrun
  obtain ⟨v, s₂, hfree, hrun⟩ := Program.bind_ok.mp hrun
  obtain ⟨m, rfl⟩ := pageFree_ok hfree
  rw [Program.bind_of_ok Program.modify_apply] at hrun
  obtain ⟨v, s₃, hfree, hrun⟩ := Program.bind_ok.mp hrun
  cases hfree
  refine ⟨_, ?_, rfl, hrun⟩
  have hring' : Ring { s with paging := { s.paging with mem := m } } (.vmMapNode map)
      ([] ++ ListRef.vmMapNode c :: cs.map .vmMapNode) := hring.congr fun _ _ => ⟨rfl, rfl⟩
  exact (ring_listDel (kernelState_lawfulOn Set.univ) hring' fun _ _ => trivial).congr
    fun _ _ => ⟨rfl, rfl⟩

theorem vmMapClearLoop_nil {fuel : Nat} (hring : Ring s (.vmMapNode map) []) :
    vmMapClearLoop mmPool map (fuel + 1) e s = .ok ((), s) := by
  have hempty : listEmpty s (ListRef.vmMapNode map) = true := (listEmpty_iff hring).mpr rfl
  rw [vmMapClearLoop, Program.bind_of_ok Program.gets_apply, if_pos hempty]
  rfl

/-- What is no node of the map is not freed. -/
theorem vmMapClearLoop_live {fuel : Nat} {p : Ptr}
    (hring : Ring s (.vmMapNode map) (cs.map .vmMapNode))
    (hrun : vmMapClearLoop mmPool map fuel e s = .ok (u, s')) (hp : p ∈ s.live) (hcs : p ∉ cs) :
    p ∈ s'.live := by
  induction cs generalizing fuel s with
  | nil =>
    cases fuel with
    | zero => cases hrun
    | succ fuel =>
      rw [vmMapClearLoop_nil hring] at hrun
      cases hrun
      exact hp
  | cons c cs ih =>
    cases fuel with
    | zero => cases hrun
    | succ fuel =>
      obtain ⟨t, hring', hlive, hrun'⟩ := vmMapClearLoop_cons hring hrun
      rw [List.mem_cons, not_or] at hcs
      refine ih hring' hrun' ?_ hcs.2
      rw [hlive]
      exact (List.mem_erase_of_ne hcs.1).mpr hp

/-! ## Duplicated and cleared -/

/-- Everything is as before the duplication, and the new map is empty. -/
structure Undone (mmPool : MmPool) (s s' : KernelState) (new old : Ptr) (ns : List Ptr) :
    Prop where
  empty : MapOf s' new []
  pages : ∀ t bs, PoolAt mmPool s.paging.mem t bs →
    ∃ bs', PoolAt mmPool s'.paging.mem t bs' ∧ freePages bs' = freePages bs
  live : ∀ p, p ∈ s'.live ↔ p ∈ s.live
  oldMap : MapOf s' old ns
  oldEntries : ∀ n ∈ ns, s'.mapEntry n = s.mapEntry n ∧ entryOf s' n = entryOf s n

theorem walkFuel_succ : ∃ fuel, walkFuel = fuel + 1 := ⟨2 ^ 64 - 1, rfl⟩

/-- A loop over the empty list. -/
theorem listForEach_nil {head : ListRef} {body : ListRef → Kernel Unit} (hring : Ring s head []) :
    listForEach head body e s = .ok ((), s) := by
  obtain ⟨fuel, hfuel⟩ := walkFuel_succ
  have hnext : s.next head = head := hring.next_head
  rw [listForEach, Program.bind_of_ok Program.gets_apply, hnext, hfuel, listForEachFrom, if_pos rfl]
  rfl

/-- An empty map: nothing is taken and nothing given back. -/
theorem vmMapClear_undoes_nil (h : MapOf s old []) (hnew : new ∈ s.live) (hne : new ∉ [old])
    (hrun : vmMapDup new old e s = .ok (u, s₁)) :
    ∃ s', vmMapClear mmPool new e s₁ = .ok ((), s') ∧ Undone mmPool s s' new old [] := by
  have hold := h.keep (vmMapInit_sameMap h hne)
  have hnil := vmMapInit_mapOf hnew
  obtain ⟨fuel, hfuel⟩ := walkFuel_succ
  rw [vmMapDup_eq, Program.bind_of_ok Program.modify_apply, listForEach_nil hold.ring] at hrun
  cases hrun
  refine ⟨_, by rw [vmMapClear, hfuel, vmMapClearLoop_nil hnil.ring], hnil,
    fun t bs hpool => ⟨bs, hpool, rfl⟩, fun _ => Iff.rfl, hold,
    fun n hn => absurd hn List.not_mem_nil⟩

/-- The entry behind a copied node is a block that was not in use before and is in use after. -/
theorem DupShape.leaks (h : DupShape s new old ns ns s₁ cs) (hns : ns ≠ [])
    (hrun : vmMapClear mmPool new e s₁ = .ok (u, s')) : ∃ p ∈ s'.live, p ∉ s.live := by
  obtain ⟨n, ns', rfl⟩ := List.exists_cons_of_ne_nil hns
  obtain ⟨c, cs', -, -, rfl⟩ := List.forall₂_cons_left_iff.mp h.copies
  obtain ⟨hnew, hnode⟩ := h.blocks c List.mem_cons_self
  refine ⟨_, vmMapClearLoop_live h.new.ring hrun (h.new.entries c List.mem_cons_self) hnode, hnew⟩

/--
A map duplicated and then cleared leaves everything as it was if and only if it has no entries:
`vm_map_clear` never frees an entry.
-/
theorem vmMapClear_undoes_iff (mmPool : MmPool) (hb : BuiltMap old s ns) (he : e.MallocSucceeds)
    (hnew : new ∈ s.live) (hne : new ∉ old :: ns) (hrun : vmMapDup new old e s = .ok (u, s₁)) :
    (∃ s', vmMapClear mmPool new e s₁ = .ok ((), s') ∧ Undone mmPool s s' new old ns) ↔
      ns = [] := by
  obtain ⟨hmap, hheap⟩ := hb.mapOf
  constructor
  · rintro ⟨s', hclear, hundone⟩
    obtain ⟨cs, hshape, -⟩ :=
      vmMapDup_shape (fun _ _ => True) ∅ he hmap hheap hnew hne hrun
    by_contra hns
    obtain ⟨p, hp, hnot⟩ := hshape.leaks hns hclear
    exact hnot ((hundone.live p).mp hp)
  · rintro rfl
    exact vmMapClear_undoes_nil hmap hnew hne hrun

/-- The empty map at 1, duplicated to 2 and cleared. -/
theorem vmMapClear_undoes_empty : ∃ s₁ s',
    vmMapDup 2 1 twoPagesEnv (vmMapInit 1 oneEntryState) = .ok ((), s₁) ∧
      vmMapClear mmPoolAtImageBase 2 twoPagesEnv s₁ = .ok ((), s') ∧
      Undone mmPoolAtImageBase (vmMapInit 1 oneEntryState) s' 2 1 [] := by
  have hb : BuiltMap 1 (vmMapInit 1 oneEntryState) [] := .init ⟨by decide, by decide⟩ (by decide)
  obtain ⟨s₁, hrun⟩ : ∃ s₁, vmMapDup 2 1 twoPagesEnv (vmMapInit 1 oneEntryState)
      = .ok ((), s₁) := ⟨_, rfl⟩
  obtain ⟨s', hclear, hundone⟩ := (vmMapClear_undoes_iff mmPoolAtImageBase hb twoPagesEnv_malloc
    (show 2 ∈ (vmMapInit 1 oneEntryState).live by decide) (by decide) hrun).mpr rfl
  exact ⟨s₁, s', hrun, hclear, hundone⟩

/-- The map at 1 with one entry, duplicated to 2: it returns, and clearing does not undo it. -/
theorem vmMapClear_leaks : ∃ s₁,
    vmMapDup 2 1 twoPagesEnv oneEntryMap = .ok ((), s₁) ∧
      ¬∃ s', vmMapClear mmPoolAtImageBase 2 twoPagesEnv s₁ = .ok ((), s') ∧
        Undone mmPoolAtImageBase oneEntryMap s' 2 1 [4] := by
  have hok : (match vmMapDup 2 1 twoPagesEnv oneEntryMap with
      | .ok _ => true
      | .error _ => false) = true := by decide +kernel
  obtain ⟨hmap, hheap⟩ := builtMap_oneEntry.mapOf
  cases hrun : vmMapDup 2 1 twoPagesEnv oneEntryMap with
  | error err =>
    rw [hrun] at hok
    cases hok
  | ok r =>
    refine ⟨r.2, rfl, ?_⟩
    rintro ⟨s', hclear, hundone⟩
    obtain ⟨cs, hshape, -⟩ := vmMapDup_shape (fun _ _ => True) ∅ twoPagesEnv_malloc hmap hheap
      (show 2 ∈ oneEntryMap.live by decide) (by decide) hrun
    obtain ⟨p, hp, hnot⟩ := hshape.leaks (List.cons_ne_nil 4 []) hclear
    exact hnot ((hundone.live p).mp hp)

end Raincloud
