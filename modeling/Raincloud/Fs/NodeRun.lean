import Raincloud.Fs.FindNode
import Raincloud.Infra.Run

/-!
# Runs of `fs_mknode` and `fs_rmnode`

Both keep the nodes in a tree, until the root itself is removed. `fs_mknode` hangs a new node
last on the list of children of its parent, `fs_rmnode` takes a node without children off.
-/

set_option linter.style.nameCheck false

namespace Raincloud

open Infra Infra.LinkStore

variable {e : FsEnv} {s s' : FsState} {n m p t : Ptr} {c : List UInt8} {type : Nat}
  {K : Ptr → List Ptr}

/-! ## A tree and its children -/

/-- The children of each node are those of `K`, and each node knows its parent. -/
structure TreeOf (s : FsState) (K : Ptr → List Ptr) : Prop where
  nodup : s.live.Nodup
  range : ∀ n ∈ s.live, 0 < n ∧ n < 2 ^ 64
  root : s.root ∈ s.live
  ring : ∀ n ∈ s.live, Ring s (.children n) ((K n).map .list)
  live : ∀ n ∈ s.live, ∀ m ∈ K n, m ∈ s.live
  depth : ∃ depth : Ptr → Nat, ∀ n ∈ s.live, ∀ m ∈ K n, depth n < depth m
  parent : ∀ n ∈ s.live, ∀ m ∈ K n, (s.nodes m).parent = n
  top : ∀ n ∈ s.live, s.root ∉ K n

/-- A tree in which each node knows its parent. -/
def GrownTree (s : FsState) : Prop := TreeOf s s.kids

theorem TreeOf.kids (h : TreeOf s K) (hn : n ∈ s.live) : s.kids n = K n :=
  kids_eq (h.ring n hn) <| length_lt_walkFuel (nodup_of_ring (h.ring n hn)) fun m hm =>
    h.range m (h.live n hn m hm)

theorem TreeOf.grown (h : TreeOf s K) : GrownTree s := by
  obtain ⟨depth, hdepth⟩ := h.depth
  refine ⟨h.nodup, h.range, h.root, fun n hn => ?_, fun n hn => ?_, ⟨depth, fun n hn => ?_⟩,
    fun n hn => ?_, fun n hn => ?_⟩
  all_goals rw [h.kids hn]
  · exact h.ring n hn
  · exact h.live n hn
  · exact hdepth n hn
  · exact h.parent n hn
  · exact h.top n hn

theorem GrownTree.tree (h : GrownTree s) : NodeTree s :=
  ⟨h.nodup, h.range, h.root, h.ring, h.live, h.depth⟩

/-- A list head of a node is in one ring at most. -/
theorem TreeOf.mem_ring (h : TreeOf s K) (hn : n ∈ s.live) {r : NodeRef}
    (hr : r ∈ NodeRef.children n :: (K n).map .list) :
    r = .children n ∨ ∃ m ∈ K n, r = .list m ∧ m ∈ s.live ∧ (s.nodes m).parent = n := by
  rcases List.mem_cons.mp hr with rfl | hr
  · exact .inl rfl
  · obtain ⟨m, hm, rfl⟩ := List.mem_map.mp hr
    exact .inr ⟨m, hm, rfl, h.live n hn m hm, h.parent n hn m hm⟩

/-- Two rings have no list head in common. -/
theorem TreeOf.ring_disjoint (h : TreeOf s K) (hn : n ∈ s.live) (hm : m ∈ s.live) (hne : n ≠ m)
    {r : NodeRef} (hr : r ∈ NodeRef.children n :: (K n).map .list) :
    r ∉ NodeRef.children m :: (K m).map .list := by
  intro hr'
  rcases h.mem_ring hn hr with rfl | ⟨k, -, rfl, -, hk⟩ <;>
    rcases h.mem_ring hm hr' with he | ⟨k', -, he, -, hk'⟩
  · exact hne (NodeRef.children.inj he)
  · cases he
  · cases he
  · rw [NodeRef.list.inj he] at hk
    exact hne (hk.symm.trans hk')

/-! ## A new node -/

/-- `t` is the new last child of `p`. -/
structure Made (s s' : FsState) (t p : Ptr) (name : List UInt8) (type : Nat) : Prop where
  fresh : t ∉ s.live
  parent : p ∈ s.live
  live : s'.live = t :: s.live
  root : s'.root = s.root
  node : (s'.nodes t).name = name ∧ (s'.nodes t).type = type ∧ (s'.nodes t).parent = p
  others : ∀ n, n ≠ t → s'.nodes n = s.nodes n
  tree : TreeOf s' (Function.update (Function.update s.kids p (s.kids p ++ [t])) t [])

theorem initNode_links (t : Ptr) (s : FsState) : Ring (initNode t s) (.children t) [] ∧
    ∀ r, r ≠ NodeRef.list t → r ≠ NodeRef.children t → SameLinks s (initNode t s) r := by
  constructor
  · exact ring_listInit fsState_lawful trivial
  · intro r hl hc
    have h1 : SameLinks s (listInit (s.setNode t fun _ => FileNode.zero) (.list t)) r :=
      sameLinks_listInit (s := s.setNode t fun _ => FileNode.zero) fsState_lawful trivial trivial hl
    have h2 := sameLinks_listInit (s := listInit (s.setNode t fun _ => FileNode.zero) (.list t))
      fsState_lawful (x := NodeRef.children t) trivial trivial hc
    exact ⟨h2.1.trans h1.1, h2.2.trans h1.2⟩

/-- The rings after a fresh node is linked in. -/
theorem linkNode_ring (h : GrownTree s) (hp : p ∈ s.live) (ht : t ∉ s.live) (name : List UInt8)
    (type : Nat) {s1 : FsState} (hs1 : s1 = { s with live := t :: s.live }) (hn : n ∈ t :: s.live) :
    Ring (linkNode t name type p (initNode t s1)) (.children n)
      ((Function.update (Function.update s.kids p (s.kids p ++ [t])) t [] n).map .list) := by
  obtain ⟨hring0, hlinks⟩ := initNode_links t s1
  obtain ⟨s2, hs2⟩ : ∃ s2, s2 = (initNode t s1).setNode t fun x =>
      { x with name := name, type := type, parent := p } := ⟨_, rfl⟩
  have hsame : ∀ r, r ≠ NodeRef.list t → r ≠ NodeRef.children t → SameLinks s s2 r :=
    fun r h1 h2 => by
      have := hlinks r h1 h2
      rw [hs1] at this
      rw [hs2, hs1]
      exact this
  -- a ring of old nodes is not touched before the new node is linked in
  have hold : ∀ n ∈ s.live, Ring s2 (.children n) ((s.kids n).map .list) := fun n hn =>
    (h.ring n hn).congr fun r hr => hsame r
      (by
        rintro rfl
        rcases h.mem_ring hn hr with he | ⟨m, -, he, hm, -⟩
        · cases he
        · exact ht (NodeRef.list.inj he ▸ hm))
      (by
        rintro rfl
        rcases h.mem_ring hn hr with he | ⟨m, -, he, -, -⟩
        · exact ht (NodeRef.children.inj he ▸ hn)
        · cases he)
  have hpt : p ≠ t := fun he => ht (he ▸ hp)
  have hfresh : NodeRef.list t ∉ NodeRef.children p :: (s.kids p).map .list := fun hm => by
    rcases h.mem_ring hp hm with he | ⟨m, -, he, hm, -⟩
    · cases he
    · exact ht (NodeRef.list.inj he ▸ hm)
  have hlast : prev s2 (NodeRef.children p) ∈ NodeRef.children p :: (s.kids p).map .list := by
    rw [(hold p hp).prev_head]
    exact Ring.getLastD_mem _ _
  rw [show linkNode t name type p (initNode t s1) = listAddBefore s2 (.children p) (.list t) by
    rw [hs2]
    rfl]
  by_cases hnt : n = t
  · rw [hnt, Function.update_self]
    have h0 : Ring s2 (.children t) [] := by
      rw [hs2]
      exact hring0.congr fun _ _ => ⟨rfl, rfl⟩
    refine h0.congr fun r hr => sameLinks_listAdd fsState_lawful trivial trivial trivial trivial ?_
      ?_ ?_
    · rintro rfl
      simp at hr
    · rintro rfl
      rw [List.mem_singleton.mp hr] at hlast
      rcases h.mem_ring hp hlast with he | ⟨m, -, he, -, -⟩
      · exact hpt (NodeRef.children.inj he).symm
      · cases he
    · rintro rfl
      exact hpt (by simpa using hr)
  · have hn : n ∈ s.live := (List.mem_cons.mp hn).resolve_left hnt
    rw [Function.update_of_ne hnt]
    by_cases hnp : n = p
    · rw [hnp, Function.update_self, List.map_append]
      exact ring_listAddBefore_head fsState_lawful (hold p hp) (fun _ _ => trivial) trivial hfresh
    · rw [Function.update_of_ne hnp]
      refine (hold n hn).congr fun r hr =>
        sameLinks_listAdd fsState_lawful trivial trivial trivial trivial ?_ ?_ ?_
      · rintro rfl
        rcases h.mem_ring hn hr with he | ⟨m, -, he, hm, -⟩
        · cases he
        · exact ht (NodeRef.list.inj he ▸ hm)
      · exact fun he => h.ring_disjoint hn hp hnp (he ▸ hr) hlast
      · exact fun he => h.ring_disjoint hn hp hnp (he ▸ hr) List.mem_cons_self

theorem made_linkNode (h : GrownTree s) (hp : p ∈ s.live) (ht : t ∉ s.live) (hpos : 0 < t)
    (hlt : t < 2 ^ 64) (name : List UInt8) (type : Nat) :
    Made s (linkNode t name type p (initNode t { s with live := t :: s.live })) t p name type := by
  have hpt : p ≠ t := fun he => ht (he ▸ hp)
  have hnode : (linkNode t name type p (initNode t { s with live := t :: s.live })).nodes t
      = ⟨name, type, p, fun _ => none⟩ := by
    simp [linkNode, initNode, listAddBefore, __listAdd, listInit, setNext, setPrev,
      FsState.setNode, FileNode.zero]
  have hothers : ∀ n, n ≠ t →
      (linkNode t name type p (initNode t { s with live := t :: s.live })).nodes n = s.nodes n :=
    fun n hn => by
      simp [linkNode, initNode, listAddBefore, __listAdd, listInit, setNext, setPrev,
        FsState.setNode, Function.update_of_ne hn]
  have hmem : ∀ n, n ∈ t :: s.live → ∀ m,
      m ∈ Function.update (Function.update s.kids p (s.kids p ++ [t])) t [] n →
      n ∈ s.live ∧ (n = p ∧ m = t ∨ m ∈ s.kids n ∧ m ∈ s.live) := fun n hn m hm => by
    have hnt : n ≠ t := fun he => by
      rw [he, Function.update_self] at hm
      cases hm
    have hn := (List.mem_cons.mp hn).resolve_left hnt
    rw [Function.update_of_ne hnt] at hm
    refine ⟨hn, ?_⟩
    by_cases hnp : n = p
    · rw [hnp, Function.update_self, List.mem_append, List.mem_singleton] at hm
      rcases hm with hm | rfl
      · exact .inr ⟨hnp ▸ hm, h.live p hp m hm⟩
      · exact .inl ⟨hnp, rfl⟩
    · rw [Function.update_of_ne hnp] at hm
      exact .inr ⟨hm, h.live n hn m hm⟩
  refine ⟨ht, hp, rfl, rfl, by rw [hnode]; exact ⟨rfl, rfl, rfl⟩, hothers, ?_⟩
  obtain ⟨depth, hdepth⟩ := h.depth
  refine ⟨List.nodup_cons.mpr ⟨ht, h.nodup⟩, fun n hn => ?_, List.mem_cons_of_mem t h.root,
    fun n hn => linkNode_ring h hp ht name type rfl hn, fun n hn m hm => ?_,
    ⟨Function.update depth t (depth p + 1), fun n hn m hm => ?_⟩, fun n hn m hm => ?_,
    fun n hn hm => ?_⟩
  · rcases List.mem_cons.mp hn with rfl | hn
    · exact ⟨hpos, hlt⟩
    · exact h.range n hn
  · rcases (hmem n hn m hm).2 with ⟨-, rfl⟩ | ⟨-, hm⟩
    · exact List.mem_cons_self
    · exact List.mem_cons_of_mem t hm
  · obtain ⟨hn, ⟨rfl, rfl⟩ | ⟨hm, hml⟩⟩ := hmem n hn m hm
    · rw [Function.update_of_ne hpt, Function.update_self]
      exact Nat.lt_succ_self _
    · have hnt : n ≠ t := fun he => ht (he ▸ hn)
      have hmt : m ≠ t := fun he => ht (he ▸ hml)
      rw [Function.update_of_ne hnt, Function.update_of_ne hmt]
      exact hdepth n hn m hm
  · obtain ⟨hn, ⟨rfl, rfl⟩ | ⟨hm, hml⟩⟩ := hmem n hn m hm
    · rw [hnode]
    · rw [hothers m fun he => ht (he ▸ hml)]
      exact h.parent n hn m hm
  · obtain ⟨hn, ⟨-, he⟩ | ⟨hm, -⟩⟩ := hmem n hn _ hm
    · exact ht (he ▸ h.root)
    · exact h.top n hn hm

/-! ## A node removed -/

/-- `t`, which has no children, is a child no more. -/
structure Removed (s s' : FsState) (t : Ptr) : Prop where
  live : s'.live = s.live.erase t
  root : s'.root = s.root
  nodes : s'.nodes = s.nodes
  kids : ∀ n ∈ s'.live, s'.kids n = (s.kids n).erase t

theorem listDel_ring (h : GrownTree s) (hp : p ∈ s.live) (ht : t ∈ s.kids p) (hn : n ∈ s.live) :
    Ring (listDel s (.list t)) (.children n) (((s.kids n).erase t).map .list) := by
  obtain ⟨A, B, hAB⟩ := List.mem_iff_append.mp ht
  have hring := h.ring p hp
  have hnd := nodup_of_ring hring
  rw [hAB] at hnd
  have htA : t ∉ A := fun hm =>
    (List.nodup_append.mp hnd).2.2 t hm t List.mem_cons_self rfl
  by_cases hnp : n = p
  · rw [hnp, hAB, List.erase_append_right _ htA, List.erase_cons_head, List.map_append]
    refine ring_listDel fsState_lawful ?_ fun _ _ => trivial
    rw [← List.map_cons, ← List.map_append, ← hAB]
    exact hring
  · have htn : t ∉ s.kids n := fun hm =>
      hnp ((h.parent n hn t hm).symm.trans (h.parent p hp t ht))
    rw [List.erase_of_not_mem htn]
    -- the neighbours of the node are in the other ring
    rw [hAB, List.map_append, List.map_cons] at hring
    have hprev : prev s (NodeRef.list t) ∈ NodeRef.children p :: (s.kids p).map .list := by
      rw [hring.prev_mem, hAB, List.map_append]
      have := Ring.getLastD_mem (NodeRef.children p) (A.map .list)
      simp only [List.mem_cons, List.mem_append] at this ⊢
      tauto
    have hnext : next s (NodeRef.list t) ∈ NodeRef.children p :: (s.kids p).map .list := by
      rw [hring.next_mem, hAB, List.map_append]
      have := Ring.headD_mem_cons (NodeRef.children p) (B.map .list)
      simp only [List.mem_cons, List.mem_append, List.map_cons] at this ⊢
      tauto
    refine (h.ring n hn).congr fun r hr =>
      sameLinks_listDel fsState_lawful trivial trivial trivial ?_ ?_
    · rintro rfl
      exact h.ring_disjoint hn hp hnp hr hprev
    · rintro rfl
      exact h.ring_disjoint hn hp hnp hr hnext

theorem removed_listDel (h : GrownTree s) (hp : p ∈ s.live) (ht : t ∈ s.kids p)
    (hs' : s' = { listDel s (.list t) with live := s.live.erase t }) :
    Removed s s' t ∧ GrownTree s' := by
  have hmem : ∀ n, n ∈ s.live.erase t → n ≠ t ∧ n ∈ s.live := fun n hn =>
    h.nodup.mem_erase_iff.mp hn
  have hkid : ∀ n m, n ∈ s.live → m ∈ (s.kids n).erase t → m ≠ t ∧ m ∈ s.kids n :=
    fun n m hn hm => (nodup_of_ring (h.ring n hn)).mem_erase_iff.mp hm
  have htree : TreeOf s' fun n => (s.kids n).erase t := by
    obtain ⟨depth, hdepth⟩ := h.depth
    rw [hs']
    refine ⟨h.nodup.erase t, fun n hn => h.range n (hmem n hn).2, ?_, fun n hn => ?_,
      fun n hn m hm => ?_, ⟨depth, fun n hn m hm => ?_⟩, fun n hn m hm => ?_, fun n hn hm => ?_⟩
    · have hroot : s.root ≠ t := fun he => h.top p hp (he ▸ ht)
      exact h.nodup.mem_erase_iff.mpr ⟨hroot, h.root⟩
    · exact (listDel_ring h hp ht (hmem n hn).2).congr fun _ _ => ⟨rfl, rfl⟩
    · have hn := (hmem n hn).2
      obtain ⟨hmt, hm⟩ := hkid n m hn hm
      exact h.nodup.mem_erase_iff.mpr ⟨hmt, h.live n hn m hm⟩
    · have hn := (hmem n hn).2
      exact hdepth n hn m (hkid n m hn hm).2
    · have hn := (hmem n hn).2
      exact h.parent n hn m (hkid n m hn hm).2
    · have hn := (hmem n hn).2
      exact h.top n hn (hkid n _ hn hm).2
  refine ⟨⟨by rw [hs'], by rw [hs']; rfl, by rw [hs']; rfl, fun n hn => htree.kids hn⟩,
    htree.grown⟩

/-! ## The calls -/

/-- The node reached from the root, if it is not the root, is the child of some node. -/
theorem GrownTree.child_of (h : GrownTree s) {cs : List (List UInt8)}
    (h0 : s.resolve s.root cs ≠ NULL) : s.resolve s.root cs = s.root ∨
      ∃ p ∈ s.live, s.resolve s.root cs ∈ s.kids p := by
  obtain ⟨path, -, hpath⟩ := h.tree.resolve_path h.root h0
  refine (descend_induct (p := fun m => m ∈ s.live ∧ (m = s.root ∨ ∃ p ∈ s.live, m ∈ s.kids p))
    (fun n c m _ ⟨hn, _⟩ hc => ?_) ⟨h.root, .inl rfl⟩ hpath).2
  exact ⟨h.tree.childNamed_live hn hc, .inr ⟨n, hn, List.mem_of_find?_eq_some hc⟩⟩

/-- Once the root is freed, nothing is found. -/
theorem findNode_rootless (h : s.root ∉ s.live) (path : List UInt8) :
    findNode path e s = .error .useAfterFree := by
  unfold findNode
  rw [Program.bind_of_ok Program.gets_apply, Program.bind_of_ok Program.gets_apply]
  refine Program.bind_error.mpr (.inl ?_)
  exact if_neg h

theorem afterSlash_eq {q : List UInt8} (h : slash ∈ q) :
    afterSlash q e s = .ok (q.rtakeWhile (· ≠ slash), s) := by
  obtain ⟨A, B, rfl, hB⟩ := cut_slash h
  unfold afterSlash
  rw [strrchr_eq_some.mpr ⟨A, B, rfl, hB, rfl⟩, (cut_last A hB).1]
  rfl

theorem afterSlash_ok {q r : List UInt8} (h : afterSlash q e s = .ok (r, s')) :
    slash ∈ q ∧ r = q.rtakeWhile (· ≠ slash) ∧ s' = s := by
  by_cases hq : slash ∈ q
  · rw [afterSlash_eq hq] at h
    cases h
    exact ⟨hq, rfl, rfl⟩
  · unfold afterSlash at h
    rw [strrchr_eq_none.mpr hq] at h
    cases h

theorem stripTailSlash_eq {q : List UInt8} (h : slash ∈ q) :
    stripTailSlash q e s = .ok (stripped q, s) := by
  obtain ⟨A, B, rfl, hB⟩ := cut_slash h
  unfold stripTailSlash stripped
  rw [Program.bind_of_ok (afterSlash_eq h), (cut_last A hB).1]
  cases hB0 : B with
  | nil =>
    rw [if_pos rfl, if_pos (by simp)]
    rfl
  | cons b t =>
    have hlast : (A ++ slash :: b :: t).getLast? = (b :: t).getLast? := by
      simp [List.getLast?_cons]
    have hne : (A ++ slash :: b :: t).getLast? ≠ some slash := fun he => by
      rw [hlast] at he
      exact hB (hB0 ▸ List.mem_of_getLast? he)
    rw [if_neg (by simp), if_neg hne]
    rfl

/-- The path taken apart, the directory looked up. -/
theorem fsMknode_eq (h : GrownTree s) {path : List UInt8} (hne : path ≠ [slash])
    (hpath : slash ∈ path) (hstrip : slash ∈ stripped path) :
    fsMknode path type e s =
      (if s.resolve s.root (components (dirPart path)) = NULL then return -1
      else do
        let newNode ← allocNode
        Program.modify (linkNode newNode (namePart path) type
          (s.resolve s.root (components (dirPart path))))
        return 0 : Fs Int) e s := by
  unfold fsMknode
  have hdir : (stripped path).take ((stripped path).length
      - ((stripped path).rtakeWhile (· ≠ slash)).length) = dirPart path := by
    obtain ⟨A, B, hAB, hB⟩ := cut_slash hstrip
    rw [dirPart, hAB, (cut_last A hB).1, (cut_last A hB).2]
    rw [show A ++ slash :: B = A ++ [slash] ++ B by simp, List.length_append,
      Nat.add_sub_cancel, List.take_left]
  rw [if_neg fun hz => hne (strcmp_eq_zero.mp hz), Program.bind_of_ok (stripTailSlash_eq hpath),
    Program.bind_of_ok (afterSlash_eq hstrip), hdir, Program.bind_of_ok (findNode_eq h.tree _)]
  rfl

theorem mallocNode_ok (hrun : mallocNode e s = .ok (t, s')) (h0 : t ≠ NULL) :
    t ∉ s.live ∧ 0 < t ∧ t < 2 ^ 64 ∧ s' = { s with live := t :: s.live } := by
  rw [mallocNode, Program.bind_of_ok Program.ask_apply] at hrun
  by_cases hnull : e.malloc s = NULL
  · rw [if_pos hnull] at hrun
    cases hrun
    exact absurd rfl h0
  · rw [if_neg hnull, Program.bind_of_ok Program.gets_apply] at hrun
    obtain ⟨_, s1, hcheck, hrun⟩ := Program.bind_ok.mp hrun
    obtain ⟨⟨hnew, hlt⟩, rfl⟩ := Program.check_ok.mp hcheck
    cases hrun
    exact ⟨hnew, Nat.pos_of_ne_zero hnull, hlt, rfl⟩

theorem allocNode_ok (hrun : allocNode e s = .ok (t, s')) :
    t ∉ s.live ∧ 0 < t ∧ t < 2 ^ 64 ∧ s' = initNode t { s with live := t :: s.live } := by
  obtain ⟨q, s1, hm, hrun⟩ := Program.bind_ok.mp hrun
  obtain ⟨_, s2, hcheck, hinit⟩ := Program.bind_ok.mp hrun
  obtain ⟨h0, rfl⟩ := Program.check_ok.mp hcheck
  cases hinit
  obtain ⟨hnew, hpos, hlt, rfl⟩ := mallocNode_ok hm h0
  exact ⟨hnew, hpos, hlt, rfl⟩

/-- `fs_mknode` fails without effect or makes a node. -/
theorem fsMknode_ok {path : List UInt8} {r : Int} (h : GrownTree s)
    (hrun : fsMknode path type e s = .ok (r, s')) :
    r = -1 ∧ s' = s ∨ r = 0 ∧ path ≠ [slash] ∧ slash ∈ stripped path ∧
      s.resolve s.root (components (dirPart path)) ≠ NULL ∧ ∃ t, 0 < t ∧
        Made s s' t (s.resolve s.root (components (dirPart path))) (namePart path) type := by
  by_cases hne : path = [slash]
  · rw [fsMknode, if_pos (strcmp_eq_zero.mpr hne)] at hrun
    cases hrun
    exact .inl ⟨rfl, rfl⟩
  · obtain ⟨hpath, hstrip⟩ : slash ∈ path ∧ slash ∈ stripped path := by
      have hrun' := hrun
      rw [fsMknode, if_neg fun hz => hne (strcmp_eq_zero.mp hz)] at hrun'
      obtain ⟨q, s1, h1, hrun'⟩ := Program.bind_ok.mp hrun'
      obtain ⟨r1, s2, h2, hrun'⟩ := Program.bind_ok.mp hrun'
      obtain ⟨_, _, h3, -⟩ := Program.bind_ok.mp h1
      obtain ⟨hpath, -, -⟩ := afterSlash_ok h3
      rw [stripTailSlash_eq hpath] at h1
      cases h1
      exact ⟨hpath, (afterSlash_ok h2).1⟩
    rw [fsMknode_eq h hne hpath hstrip] at hrun
    by_cases h0 : s.resolve s.root (components (dirPart path)) = NULL
    · rw [if_pos h0] at hrun
      cases hrun
      exact .inl ⟨rfl, rfl⟩
    · rw [if_neg h0] at hrun
      obtain ⟨t, s1, halloc, hrun⟩ := Program.bind_ok.mp hrun
      obtain ⟨ht, hpos, hlt, rfl⟩ := allocNode_ok halloc
      cases hrun
      exact .inr ⟨rfl, hne, hstrip, h0, t, hpos,
        made_linkNode h (h.tree.resolve_live h.root h0) ht hpos hlt _ _⟩

/-- The state after the node `t` is removed. -/
def rmnodeState (t : Ptr) (s : FsState) : FsState :=
  { listDel s (.list t) with live := s.live.erase t }

theorem fsRmnode_eq (h : GrownTree s) (path : List UInt8) : fsRmnode path e s =
    .ok (if path = [slash] ∨ s.resolve s.root (components path) = NULL ∨
        s.kids (s.resolve s.root (components path)) ≠ [] then (-1, s)
      else (0, rmnodeState (s.resolve s.root (components path)) s)) := by
  unfold fsRmnode
  by_cases hne : path = [slash]
  · rw [if_pos (strcmp_eq_zero.mpr hne), if_pos (.inl hne)]
    rfl
  · rw [if_neg fun hz => hne (strcmp_eq_zero.mp hz), Program.bind_of_ok (findNode_eq h.tree _)]
    by_cases h0 : s.resolve s.root (components path) = NULL
    · rw [if_pos h0, if_pos (.inr (.inl h0))]
      rfl
    · have hempty := listEmpty_iff (h.ring _ (h.tree.resolve_live h.root h0))
      rw [List.map_eq_nil_iff] at hempty
      rw [if_neg h0, Program.bind_of_ok Program.gets_apply]
      by_cases hk : s.kids (s.resolve s.root (components path)) = []
      · rw [if_neg (by rw [hempty.mpr hk]; simp), if_neg (by simp [hne, h0, hk])]
        rfl
      · rw [if_pos (by simpa using fun hl => hk (hempty.mp hl)), if_pos (.inr (.inr hk))]
        rfl

/-! ## The start -/

/-- The trees are the same, up to the hooks. -/
structure SameTree (s s' : FsState) : Prop where
  next : s'.next = s.next
  prev : s'.prev = s.prev
  live : s'.live = s.live
  root : s'.root = s.root
  name : ∀ n, (s'.nodes n).name = (s.nodes n).name
  parent : ∀ n, (s'.nodes n).parent = (s.nodes n).parent

theorem SameTree.treeOf (hs : SameTree s s') (h : GrownTree s) : TreeOf s' s.kids := by
  have hlinks : ∀ r : NodeRef, SameLinks s s' r := fun r =>
    ⟨congrFun hs.next r, congrFun hs.prev r⟩
  refine ⟨?_, ?_, ?_, fun n hn => ?_, ?_, ?_, fun n hn m hm => ?_, ?_⟩
  all_goals rw [hs.live] at *
  · exact h.nodup
  · exact h.range
  · rw [hs.root]
    exact h.root
  · exact (h.ring n hn).congr fun r _ => hlinks r
  · exact h.live
  · exact h.depth
  · rw [hs.parent]
    exact h.parent n hn m hm
  · rw [hs.root]
    exact h.top

theorem fsReghook_ok {path : List UInt8} {i : Nat} {hook : Hook} {r : Int} (h : GrownTree s)
    (hrun : fsReghook path i hook e s = .ok (r, s')) : SameTree s s' := by
  unfold fsReghook at hrun
  by_cases hne : path = [slash]
  · rw [if_pos (strcmp_eq_zero.mpr hne)] at hrun
    cases hrun
    exact ⟨rfl, rfl, rfl, rfl, fun _ => rfl, fun _ => rfl⟩
  · rw [if_neg fun hz => hne (strcmp_eq_zero.mp hz),
      Program.bind_of_ok (findNode_eq h.tree _)] at hrun
    by_cases h0 : s.resolve s.root (components path) = NULL
    · rw [if_pos h0] at hrun
      cases hrun
      exact ⟨rfl, rfl, rfl, rfl, fun _ => rfl, fun _ => rfl⟩
    · rw [if_neg h0] at hrun
      obtain ⟨_, s1, hcheck, hrun⟩ := Program.bind_ok.mp hrun
      obtain ⟨-, rfl⟩ := Program.check_ok.mp hcheck
      cases hrun
      refine ⟨rfl, rfl, rfl, rfl, fun n => ?_, fun n => ?_⟩
      all_goals
        simp only [FsState.setNode]
        rw [Function.update_apply]
        split
        · next he => rw [he]
        · rfl

theorem SameTree.trans {u : FsState} (h1 : SameTree s s') (h2 : SameTree s' u) : SameTree s u :=
  ⟨h2.next.trans h1.next, h2.prev.trans h1.prev, h2.live.trans h1.live, h2.root.trans h1.root,
    fun n => (h2.name n).trans (h1.name n), fun n => (h2.parent n).trans (h1.parent n)⟩

theorem fsReghooks_ok {path : List UInt8} : ∀ {hooks : List (Nat × Hook)} {s : FsState} {r : Int},
    GrownTree s → fsReghooks path hooks e s = .ok (r, s') → SameTree s s'
  | [], s, r, h, hrun => by
    cases hrun
    exact ⟨rfl, rfl, rfl, rfl, fun _ => rfl, fun _ => rfl⟩
  | (i, hook) :: hooks, s, r, h, hrun => by
    obtain ⟨ret, s1, hreg, hrun⟩ := Program.bind_ok.mp hrun
    have h1 := fsReghook_ok h hreg
    by_cases hret : ret ≠ 0
    · rw [if_pos hret] at hrun
      cases hrun
      exact h1
    · rw [if_neg hret] at hrun
      exact h1.trans (fsReghooks_ok (h1.treeOf h).grown hrun)

theorem fsMknode_grown {path : List UInt8} {r : Int} (h : GrownTree s)
    (hrun : fsMknode path type e s = .ok (r, s')) : GrownTree s' := by
  rcases fsMknode_ok h hrun with ⟨-, rfl⟩ | ⟨-, -, -, -, t, -, hmade⟩
  · exact h
  · exact hmade.tree.grown

/-- A node made, then hooks set. -/
theorem mknodeHooked_ok {path : List UInt8} {hooks : List (Nat × Hook)} {r : Int}
    (h : GrownTree s) (hrun : mknodeHooked path type hooks e s = .ok (r, s')) :
    ∃ ret s1, fsMknode path type e s = .ok (ret, s1) ∧ GrownTree s1 ∧ SameTree s1 s' := by
  obtain ⟨ret, s1, hmk, hrun⟩ := Program.bind_ok.mp hrun
  have h1 := fsMknode_grown h hmk
  refine ⟨ret, s1, hmk, h1, ?_⟩
  by_cases hret : ret ≠ 0
  · rw [if_pos hret] at hrun
    cases hrun
    exact ⟨rfl, rfl, rfl, rfl, fun _ => rfl, fun _ => rfl⟩
  · rw [if_neg hret] at hrun
    exact fsReghooks_ok h1 hrun

theorem mknodeHooked_grown {path : List UInt8} {hooks : List (Nat × Hook)} {r : Int}
    (h : GrownTree s) (hrun : mknodeHooked path type hooks e s = .ok (r, s')) : GrownTree s' := by
  obtain ⟨ret, s1, -, h1, hs⟩ := mknodeHooked_ok h hrun
  exact (hs.treeOf h1).grown

/-- The root alone. -/
theorem allocNode_root {s1 : FsState} (hempty : s.live = []) (halloc : allocNode e s = .ok (t, s1)) :
    TreeOf (FsState.setNode t (fun n => { n with name := [slash], type := fileTypeRoot })
      { s1 with root := t }) fun _ => [] := by
  obtain ⟨-, hpos, hlt, rfl⟩ := allocNode_ok halloc
  have hmem : ∀ n, n ∈ t :: s.live ↔ n = t := fun n => by
    rw [hempty, List.mem_singleton]
  refine ⟨?_, fun n hn => ?_, ?_, fun n hn => ?_, fun _ _ m hm => absurd hm List.not_mem_nil,
    ⟨fun _ => 0, fun _ _ m hm => absurd hm List.not_mem_nil⟩,
    fun _ _ m hm => absurd hm List.not_mem_nil, fun _ _ => List.not_mem_nil⟩
  · show (t :: s.live).Nodup
    rw [hempty]
    exact List.nodup_singleton t
  · rw [(hmem n).mp hn]
    exact ⟨hpos, hlt⟩
  · exact (hmem t).mpr rfl
  · rw [(hmem n).mp hn]
    exact (initNode_links t _).1.congr fun _ _ => ⟨rfl, rfl⟩

theorem fsInit_grown {u : Unit} (hempty : s.live = []) (hrun : fsInit e s = .ok (u, s')) :
    GrownTree s' := by
  obtain ⟨t, s1, halloc, hrun⟩ := Program.bind_ok.mp hrun
  have hroot := allocNode_root hempty halloc
  rw [Program.bind_of_ok Program.modify_apply, Program.bind_of_ok Program.modify_apply] at hrun
  obtain ⟨_, s2, hstdio, hrun⟩ := Program.bind_ok.mp hrun
  obtain ⟨_, s3, hfat, hrun⟩ := Program.bind_ok.mp hrun
  obtain ⟨_, s4, hpipe, hrun⟩ := Program.bind_ok.mp hrun
  cases hrun
  exact mknodeHooked_grown (mknodeHooked_grown (mknodeHooked_grown hroot.grown hstdio) hfat) hpipe

/-! ## The machine -/

inductive FsCall where
  | mknode (path : List UInt8) (type : Nat)
  | rmnode (path : List UInt8)

def FsCall.run : FsCall → Fs Int
  | mknode path type => fsMknode path type
  | rmnode path => fsRmnode path

def fsMachine : Infra.Machine FsState FsCall where
  start s := ∃ e s₀, s₀.live = [] ∧ fsInit e s₀ = .ok ((), s)
  step s c s' := ∃ e r, c.run e s = .ok (r, s')

/-- The nodes form a tree, or the root itself has been removed. -/
def FsInv (s : FsState) : Prop := GrownTree s ∨ s.root ∉ s.live

/-- Without a root a node is never made. -/
theorem rootless_mknode (h : s.root ∉ s.live) {path : List UInt8} {r : Int}
    (hrun : fsMknode path type e s = .ok (r, s')) : r = -1 ∧ s' = s := by
  rw [fsMknode] at hrun
  by_cases hne : path = [slash]
  · rw [if_pos (strcmp_eq_zero.mpr hne)] at hrun
    cases hrun
    exact ⟨rfl, rfl⟩
  · rw [if_neg fun hz => hne (strcmp_eq_zero.mp hz)] at hrun
    obtain ⟨q, s1, h1, hrun⟩ := Program.bind_ok.mp hrun
    obtain ⟨_, _, h2, -⟩ := Program.bind_ok.mp h1
    rw [stripTailSlash_eq (afterSlash_ok h2).1] at h1
    cases h1
    obtain ⟨name, s1, h3, hlookup⟩ := Program.bind_ok.mp hrun
    obtain ⟨-, -, rfl⟩ := afterSlash_ok h3
    obtain ⟨_, _, hfind, -⟩ := Program.bind_ok.mp hlookup
    rw [findNode_rootless h] at hfind
    cases hfind

theorem rootless_rmnode (h : s.root ∉ s.live) {path : List UInt8} (hne : path ≠ [slash]) :
    fsRmnode path e s = .error .useAfterFree := by
  rw [fsRmnode, if_neg fun hz => hne (strcmp_eq_zero.mp hz)]
  exact Program.bind_error.mpr (.inl (findNode_rootless h path))

theorem fsRmnode_slash : fsRmnode [slash] e s = .ok (-1, s) := by
  rw [fsRmnode, if_pos (strcmp_eq_zero.mpr rfl)]
  rfl

/-- Without a root a call has no effect. -/
theorem rootless_step (h : s.root ∉ s.live) {call : FsCall} {r : Int}
    (hrun : call.run e s = .ok (r, s')) : s' = s := by
  cases call with
  | mknode path type => exact (rootless_mknode h hrun).2
  | rmnode path =>
    rw [FsCall.run] at hrun
    by_cases hne : path = [slash]
    · rw [hne, fsRmnode_slash] at hrun
      cases hrun
      rfl
    · rw [rootless_rmnode h hne] at hrun
      cases hrun

/-- A node that is not the root is removed, or the root, which leaves no tree. -/
theorem rmnodeState_cases (h : GrownTree s) {path : List UInt8}
    (h0 : s.resolve s.root (components path) ≠ NULL) :
    s.resolve s.root (components path) = s.root ∧
        (rmnodeState (s.resolve s.root (components path)) s).root
          ∉ (rmnodeState (s.resolve s.root (components path)) s).live ∨
      s.resolve s.root (components path) ≠ s.root ∧
        Removed s (rmnodeState (s.resolve s.root (components path)) s)
          (s.resolve s.root (components path)) ∧
        GrownTree (rmnodeState (s.resolve s.root (components path)) s) := by
  by_cases hroot : s.resolve s.root (components path) = s.root
  · refine .inl ⟨hroot, ?_⟩
    rw [hroot]
    exact fun hmem => (h.nodup.mem_erase_iff.mp hmem).1 rfl
  · obtain ⟨p, hp, ht⟩ := (h.child_of h0).resolve_left hroot
    obtain ⟨hremoved, hgrown⟩ := removed_listDel h hp ht rfl
    exact .inr ⟨hroot, hremoved, hgrown⟩

theorem fsCall_inv (h : FsInv s) {call : FsCall} {r : Int} (hrun : call.run e s = .ok (r, s')) :
    FsInv s' := by
  rcases h with h | h
  · cases call with
    | mknode path type => exact .inl (fsMknode_grown h hrun)
    | rmnode path =>
      rw [FsCall.run, fsRmnode_eq h] at hrun
      split at hrun
      · cases hrun
        exact .inl h
      · next hcond =>
        cases hrun
        rw [not_or, not_or] at hcond
        rcases rmnodeState_cases h hcond.2.1 with ⟨-, hroot⟩ | ⟨-, -, hgrown⟩
        · exact .inr hroot
        · exact .inl hgrown
  · rw [rootless_step h hrun]
    exact .inr h

/-- Every run keeps the tree. -/
theorem fsMachine_inv (h : fsMachine.Reachable s) : FsInv s := by
  refine h.invariant FsInv ?_ ?_
  · rintro s ⟨e, s₀, hempty, hrun⟩
    exact .inl (fsInit_grown hempty hrun)
  · rintro s c s' hinv ⟨e, r, hrun⟩
    exact fsCall_inv hinv hrun

end Raincloud
