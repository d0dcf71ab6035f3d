import Raincloud.Kernel.ListLoop
import Raincloud.Mm.VmMap

/-!
# The list of a memory map

The nodes of a memory map are blocks of their own, each with a pointer to its entry. `MapOf`
says which nodes a map has. `vm_map_init` makes the empty list and `vm_map_add` adds a new node
at the end; neither touches the nodes of another map.
-/

set_option linter.style.nameCheck false

namespace Raincloud

open Infra Infra.LinkStore Kernel

variable {e : Env} {s s' : KernelState} {map other n x : Ptr} {ns ms : List Ptr} {r : Int}

/-- The nodes `ns` hang on the map in this order. All blocks of the map are in use. -/
structure MapOf (s : KernelState) (map : Ptr) (ns : List Ptr) : Prop where
  ring : Ring s (.vmMapNode map) (ns.map .vmMapNode)
  live : ∀ n ∈ map :: ns, n ∈ s.live
  entries : ∀ n ∈ ns, s.mapEntry n ∈ s.live

/-- The entry behind a node. -/
def entryOf (s : KernelState) (n : Ptr) : VmMapEntry := s.entries (s.mapEntry n)

/-! ## What leaves a map alone -/

/-- The nodes and entry pointers of a map stay, and its blocks stay in use. -/
structure SameMap (s s' : KernelState) (map : Ptr) (ns : List Ptr) : Prop where
  links : ∀ n ∈ map :: ns, SameLinks s s' (.vmMapNode n)
  mapEntry : ∀ n ∈ ns, s'.mapEntry n = s.mapEntry n
  live : ∀ p ∈ map :: ns ++ ns.map s.mapEntry, p ∈ s'.live

theorem MapOf.keep (h : MapOf s map ns) (hs : SameMap s s' map ns) : MapOf s' map ns where
  ring := h.ring.congr fun y hy => by
    rw [← List.map_cons] at hy
    obtain ⟨n, hn, rfl⟩ := List.mem_map.mp hy
    exact hs.links n hn
  live n hn := hs.live n (List.mem_append_left _ hn)
  entries n hn := by
    rw [hs.mapEntry n hn]
    exact hs.live _ (List.mem_append_right _ (List.mem_map_of_mem hn))

/-- The blocks of a map: its head, its nodes and its entries. -/
theorem MapOf.alive (h : MapOf s map ns) {p : Ptr} (hp : p ∈ map :: ns ++ ns.map s.mapEntry) :
    p ∈ s.live := by
  rcases List.mem_append.mp hp with hp | hp
  · exact h.live p hp
  · obtain ⟨n, hn, rfl⟩ := List.mem_map.mp hp
    exact h.entries n hn

theorem MapOf.not_mem (h : MapOf s map ns) : map ∉ ns := fun hin =>
  h.ring.not_mem (List.mem_map_of_mem hin)

theorem MapOf.nodup (h : MapOf s map ns) : ns.Nodup :=
  List.Nodup.of_map _ (List.nodup_cons.mp h.ring.nodup).2

theorem MapOf.length_lt (h : MapOf s map ns) (hheap : s.HeapOk) : ns.length < walkFuel :=
  hheap.length_lt h.nodup fun n hn => h.live n (List.mem_cons_of_mem map hn)

/-- The node of a round of a loop over a map. -/
theorem exists_node {rs tail : List ListRef} {r : ListRef} {done rest : List Ptr}
    (hrs : rs = done.map ListRef.vmMapNode) (hns : ns = done ++ rest)
    (he : ns.map ListRef.vmMapNode = rs ++ r :: tail) :
    ∃ k rest', rest = k :: rest' ∧ r = .vmMapNode k := by
  rw [hns, List.map_append, hrs, List.append_cancel_left_eq] at he
  obtain ⟨k, rest', rfl, hr, -⟩ := List.map_eq_cons_iff.mp he
  exact ⟨k, rest', rfl, hr.symm⟩

/-! ## `vm_map_init` -/

theorem vmMapInit_mapOf (h : map ∈ s.live) : MapOf (vmMapInit map s) map [] where
  ring := by
    have hring : Ring (listInit s (ListRef.vmMapNode map)) (.vmMapNode map) [] :=
      ring_listInit (kernelState_lawfulOn Set.univ) trivial
    exact hring.congr fun _ _ => ⟨rfl, rfl⟩
  live n hn := by
    obtain rfl := List.mem_singleton.mp hn
    exact h
  entries n hn := absurd hn List.not_mem_nil

/-- `vm_map_init` keeps every other map. -/
theorem vmMapInit_sameMap (h : MapOf s other ms) (hne : map ∉ other :: ms) :
    SameMap s (vmMapInit map s) other ms where
  links n hn := by
    have hr : ListRef.vmMapNode n ≠ .vmMapNode map := fun he =>
      hne (ListRef.vmMapNode.inj he ▸ hn)
    exact sameLinks_listInit (s := s) (kernelState_lawfulOn Set.univ) trivial trivial hr
  mapEntry n hn := by
    have hnm : n ≠ map := fun he => hne (he ▸ List.mem_cons_of_mem _ hn)
    exact Function.update_of_ne hnm _ _
  live _ hp := h.alive hp

/-! ## `vm_map_add` -/

/-- The node `n`, in use and on no list, linked in at the end. -/
theorem vmMapLink_mapOf (h : MapOf s map ns) (hn : n ∉ map :: ns) (hlive : n ∈ s.live)
    (hx : x ∈ s.live) : MapOf (vmMapLink map n x s) map (ns ++ [n]) where
  ring := by
    have hU := kernelState_lawfulOn Set.univ
    have hnode : ∀ y ∈ ListRef.vmMapNode map :: ns.map .vmMapNode, y ≠ .vmMapNode n := by
      intro y hy he
      rw [← List.map_cons] at hy
      obtain ⟨k, hk, rfl⟩ := List.mem_map.mp hy
      exact hn (ListRef.vmMapNode.inj he ▸ hk)
    have hring : Ring (listInit s (ListRef.vmMapNode n)) (.vmMapNode map) (ns.map .vmMapNode) :=
      h.ring.congr fun y hy => sameLinks_listInit hU trivial trivial (hnode y hy)
    rw [List.map_append]
    have hadd := ring_listAddBefore_head hU hring (fun _ _ => trivial)
      (show ListRef.vmMapNode n ∈ Set.univ from trivial) fun hin => hnode _ hin rfl
    exact hadd.congr fun _ _ => ⟨rfl, rfl⟩
  live p hp := by
    rw [← List.cons_append, List.mem_append, List.mem_singleton] at hp
    rcases hp with hp | rfl
    · exact h.live p hp
    · exact hlive
  entries p hp := by
    show Function.update s.mapEntry n x p ∈ s.live
    rcases List.mem_append.mp hp with hp | hp
    · have hpn : p ≠ n := fun he => hn (he ▸ List.mem_cons_of_mem _ hp)
      rw [Function.update_of_ne hpn]
      exact h.entries p hp
    · rw [List.mem_singleton.mp hp, Function.update_self]
      exact hx

/-- A node linked into one map leaves every other map alone. -/
theorem vmMapLink_sameMap (h : MapOf s map ns) (ho : MapOf s other ms)
    (hn : n ∉ other :: ms) (hapart : ∀ k ∈ map :: ns, k ∉ other :: ms) :
    SameMap s (vmMapLink map n x s) other ms where
  links k hk := by
    have hU := kernelState_lawfulOn Set.univ
    have hkn : ListRef.vmMapNode k ≠ .vmMapNode n := fun he =>
      hn (ListRef.vmMapNode.inj he ▸ hk)
    have hkm : ListRef.vmMapNode k ≠ .vmMapNode map := fun he =>
      hapart map List.mem_cons_self (ListRef.vmMapNode.inj he ▸ hk)
    have h₁ := sameLinks_listInit (s := s) hU trivial trivial hkn
    have hlast : ListRef.vmMapNode k
        ≠ prev (listInit s (ListRef.vmMapNode n)) (ListRef.vmMapNode map) := by
      rw [prev_listInit hU trivial trivial]
      split
      · exact hkn
      · rw [h.ring.prev_head]
        intro he
        have hmem := Ring.getLastD_mem (ListRef.vmMapNode map) (ns.map ListRef.vmMapNode)
        rw [← he, ← List.map_cons] at hmem
        obtain ⟨j, hj, hjk⟩ := List.mem_map.mp hmem
        exact hapart j hj (ListRef.vmMapNode.inj hjk ▸ hk)
    have h₂ := sameLinks_listAdd (s := listInit s (ListRef.vmMapNode n)) hU trivial trivial
      trivial trivial hkn hlast hkm
    exact ⟨h₂.1.trans h₁.1, h₂.2.trans h₁.2⟩
  mapEntry k hk := by
    have hkn : k ≠ n := fun he => hn (he ▸ List.mem_cons_of_mem _ hk)
    exact Function.update_of_ne hkn _ _
  live _ hp := ho.alive hp

/-- `vm_map_add` takes a new block for its node. -/
theorem vmMapAdd_ok (he : e.MallocSucceeds) (hrun : vmMapAdd map x e s = .ok (r, s')) :
    ∃ n, n = e.malloc s ∧ n ∉ s.live ∧ 0 < n ∧ n < 2 ^ 64 ∧
      s' = vmMapLink map n x { s with live := n :: s.live } := by
  obtain ⟨n, s₁, hm, hrun⟩ := Program.bind_ok.mp hrun
  obtain ⟨hn, hpos, hlt, rfl⟩ := malloc_ok he hm
  have hnull : n ≠ NULL := Nat.pos_iff_ne_zero.mp hpos
  rw [if_neg hnull, Program.bind_of_ok Program.modify_apply] at hrun
  cases hrun
  exact ⟨n, (malloc_cases hm).1, hn, hpos, hlt, rfl⟩

/-! ## Maps that are built -/

/--
A map made by `vm_map_init` and any number of `vm_map_add` calls, with its nodes. In between the
rest of the kernel runs, which leaves the nodes alone.
-/
inductive BuiltMap (map : Ptr) : KernelState → List Ptr → Prop
  | init {s : KernelState} (hheap : s.HeapOk) (hlive : map ∈ s.live) :
      BuiltMap map (vmMapInit map s) []
  | add {e : Env} {s s' : KernelState} {ns : List Ptr} {x : Ptr} {r : Int}
      (h : BuiltMap map s ns) (he : e.MallocSucceeds) (hx : x ∈ s.live)
      (hrun : vmMapAdd map x e s = .ok (r, s')) : BuiltMap map s' (ns ++ [e.malloc s])
  | other {s s' : KernelState} {ns : List Ptr} (h : BuiltMap map s ns)
      (hs : SameMap s s' map ns) (hheap : s'.HeapOk) : BuiltMap map s' ns

theorem BuiltMap.mapOf (h : BuiltMap map s ns) : MapOf s map ns ∧ s.HeapOk := by
  induction h with
  | init hheap hlive => exact ⟨vmMapInit_mapOf hlive, hheap.nodup, hheap.range⟩
  | @add e s s' ns x r _ he hx hrun ih =>
    obtain ⟨hmap, hheap⟩ := ih
    obtain ⟨n, hn, hnew, hpos, hlt, rfl⟩ := vmMapAdd_ok he hrun
    obtain rfl := hn
    have hmap' : MapOf { s with live := e.malloc s :: s.live } map ns :=
      hmap.keep ⟨fun _ _ => ⟨rfl, rfl⟩, fun _ _ => rfl, fun _ hp =>
        List.mem_cons_of_mem _ (hmap.alive hp)⟩
    exact ⟨vmMapLink_mapOf hmap' (fun hin => hnew (hmap.live _ hin)) List.mem_cons_self
      (List.mem_cons_of_mem _ hx), hheap.cons hnew hpos hlt rfl⟩
  | other _ hs hheap ih => exact ⟨ih.1.keep hs, hheap⟩

end Raincloud
