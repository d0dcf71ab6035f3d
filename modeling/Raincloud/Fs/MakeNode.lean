import Raincloud.Fs.RemoveNode

/-!
# What `fs_mknode` makes resolvable

A node that is made can be out of reach, behind an older child of the same name or without a name.
Where it is in reach, it is so by its own path and also by that path with its name once more,
since `find_node` skips the name.
-/

set_option linter.style.nameCheck false

namespace Raincloud

open Infra Infra.LinkStore

variable {e : FsEnv} {s s' : FsState} {n m p t : Ptr} {c name path : List UInt8} {type : Nat}
  {cs : List (List UInt8)}

/-! ## The claim on one call -/

/-- The node `t` is made at the path. -/
structure MadeAt (e : FsEnv) (s s' : FsState) (path : List UInt8) (type : Nat) (t : Ptr) :
    Prop where
  absent : s.nodeAt path = none
  fresh : t ∉ s.live ∧ t ∈ s'.live
  found : fsGetnode (withoutTail path) e s' = .ok (t, s')
  type : (s'.nodes t).type = type
  parent : descend s.childNamed s.root (components path).dropLast = some (s'.nodes t).parent
  others : ∀ q, q.head? = some slash → components q ≠ components path →
    ∀ v, fsGetnode q e s = .ok (v, s) → fsGetnode q e s' = .ok (v, s')

/-- A call that succeeds makes a node at the path, one that fails changes nothing. -/
def MkNodeOk (e : FsEnv) (s : FsState) (path : List UInt8) (type : Nat) : Prop :=
  ∀ r s', fsMknode path type e s = .ok (r, s') →
    (r = 0 → ∃ t, MadeAt e s s' path type t) ∧ (r = -1 → s' = s)

/-! ## The children after a node is made -/

theorem find_names {l : List Ptr} (h : ∀ m ∈ l, (s'.nodes m).name = (s.nodes m).name) :
    (l.find? fun m => (s'.nodes m).name = c) = l.find? fun m => (s.nodes m).name = c :=
  List.find?_congr fun m hm => by rw [h m hm]

theorem Made.old_name (h : Made s s' t p name type) (hm : m ∈ s.live) :
    (s'.nodes m).name = (s.nodes m).name := by
  rw [h.others m fun he => h.fresh (he ▸ hm)]

theorem Made.kids (h : Made s s' t p name type) (hn : n ∈ s'.live) :
    s'.kids n = Function.update (Function.update s.kids p (s.kids p ++ [t])) t [] n :=
  h.tree.kids hn

theorem Made.childNamed_new (h : Made s s' t p name type) : s'.childNamed t c = none := by
  rw [FsState.childNamed, h.kids (by rw [h.live]; exact List.mem_cons_self), Function.update_self]
  rfl

theorem Made.childNamed_old (h : Made s s' t p name type) (hs : GrownTree s) (hn : n ∈ s.live) :
    s'.childNamed n c = if n = p then
        (s.childNamed p c).or (if name = c then some t else none) else s.childNamed n c := by
  have hnt : n ≠ t := fun he => h.fresh (he ▸ hn)
  have hold : ∀ m ∈ s.kids n, (s'.nodes m).name = (s.nodes m).name := fun m hm =>
    h.old_name (hs.live n hn m hm)
  rw [FsState.childNamed, h.kids (by rw [h.live]; exact List.mem_cons_of_mem t hn),
    Function.update_of_ne hnt]
  by_cases hnp : n = p
  · rw [if_pos hnp, hnp, Function.update_self, List.find?_append, FsState.childNamed,
      find_names (hnp ▸ hold)]
    congr 1
    by_cases hc : name = c
    · rw [if_pos hc, List.find?_cons_of_pos (by simpa [h.node.1] using hc)]
    · rw [if_neg hc, List.find?_cons_of_neg (by simpa [h.node.1] using hc)]
      rfl
  · rw [if_neg hnp, Function.update_of_ne hnp, FsState.childNamed, find_names hold]

/-- A node with an empty name or behind a child of its name is never reached. -/
theorem Made.hidden (h : Made s s' t p name type) (hs : GrownTree s) (h0 : 0 < t)
    (hname : name = [] ∨ s.childNamed p name ≠ none) (hcs : ∀ c ∈ cs, c ≠ []) :
    s'.resolve s'.root cs ≠ t := by
  intro hres
  have hroot : s'.root ∈ s'.live := h.tree.root
  have hne : s'.resolve s'.root cs ≠ NULL := by
    rw [hres]
    exact Nat.pos_iff_ne_zero.mp h0
  obtain ⟨way, hsub, hway⟩ := h.tree.grown.tree.resolve_path hroot hne
  rw [hres] at hway
  -- no step leads to the new node
  have hall := descend_induct (p := fun m => m ∈ s.live) (fun n c m hc hn hchild => ?_)
    (by rw [h.root]; exact hs.root) hway
  · exact h.fresh hall
  · rw [h.childNamed_old hs hn] at hchild
    by_cases hnp : n = p
    · rw [if_pos hnp] at hchild
      cases hold : s.childNamed p c with
      | some k =>
        rw [hold, Option.some_or] at hchild
        cases hchild
        exact hs.tree.childNamed_live (hnp ▸ hn) hold
      | none =>
        rw [hold, Option.none_or] at hchild
        by_cases hnc : name = c
        · rcases hname with rfl | hne
          · exact absurd hnc.symm (hcs c (hsub c hc))
          · exact absurd (hnc ▸ hold) hne
        · rw [if_neg hnc] at hchild
          cases hchild
    · rw [if_neg hnp] at hchild
      exact hs.tree.childNamed_live hn hchild

/-! ## `fs_getnode` -/

theorem fsGetnode_eq (h : GrownTree s) (hmem : slash ∈ path) : fsGetnode path e s =
    .ok (if s.resolve s.root (components path) ≠ NULL ∧
        path.rtakeWhile (· ≠ slash) = (s.nodes (s.resolve s.root (components path))).name
      then s.resolve s.root (components path) else NULL, s) := by
  unfold fsGetnode
  rw [Program.bind_of_ok (findNode_eq h.tree path), Program.bind_of_ok (afterSlash_eq hmem)]
  by_cases h0 : s.resolve s.root (components path) = NULL
  · rw [if_pos h0, if_neg fun hc => hc.1 h0]
    rfl
  · rw [if_neg h0, Program.bind_of_ok Program.gets_apply]
    by_cases hname : path.rtakeWhile (· ≠ slash)
        = (s.nodes (s.resolve s.root (components path))).name
    · rw [if_pos (strcmp_eq_zero.mpr hname), if_pos ⟨h0, hname⟩]
      rfl
    · rw [if_neg fun hz => hname (strcmp_eq_zero.mp hz), if_neg fun hc => hname hc.2]
      rfl

/-- What `fs_getnode` returns is `NULL` or what `find_node` finds. -/
theorem fsGetnode_ok (h : GrownTree s) (hrun : fsGetnode path e s = .ok (t, s')) :
    t = NULL ∨ t = s.resolve s.root (components path) ∧ t ∈ s.live := by
  have hmem : slash ∈ path := by
    obtain ⟨n, s1, hfind, hrun⟩ := Program.bind_ok.mp hrun
    rw [findNode_eq h.tree] at hfind
    cases hfind
    obtain ⟨_, _, hafter, -⟩ := Program.bind_ok.mp hrun
    exact (afterSlash_ok hafter).1
  rw [fsGetnode_eq h hmem] at hrun
  split at hrun
  · next hc =>
    cases hrun
    exact .inr ⟨rfl, h.tree.resolve_live h.root hc.1⟩
  · cases hrun
    exact .inl rfl

/-- A path whose last component is `name`. -/
theorem render_last (cs : List (List UInt8)) (hname : slash ∉ name) :
    slash ∈ render (cs ++ [name]) ∧ (render (cs ++ [name])).head? = some slash ∧
      (render (cs ++ [name])).rtakeWhile (· ≠ slash) = name := by
  have hr : render (cs ++ [name]) = render cs ++ slash :: name := by
    simp [render]
  refine ⟨by rw [hr]; simp, ?_, ?_⟩
  · cases cs with
    | nil => rfl
    | cons c cs => rfl
  · rw [hr]
    exact (cut_last _ hname).1

/-! ## A call that succeeds -/

/-- The node that is made is found by its path and by its path with the name repeated. -/
theorem Made.found (h : Made s s' t p name type) (hs : GrownTree s) (h0 : 0 < t)
    (hnone : s.childNamed p name = none) (hp : descend s.childNamed s.root cs = some p)
    (hcs : ∀ c ∈ cs, slash ∉ c ∧ c ≠ []) (hname : slash ∉ name ∧ name ≠ []) {ds : List (List UInt8)}
    (hds : ds = [] ∨ ds = [name]) :
    components (render (cs ++ ds ++ [name])) = cs ++ ds ++ [name] ∧
      fsGetnode (render (cs ++ ds ++ [name])) e s' = .ok (t, s') := by
  have hgrown := h.tree.grown
  have hcomp : components (render (cs ++ ds ++ [name])) = cs ++ ds ++ [name] := by
    refine components_render fun c hc => ?_
    rcases List.mem_append.mp hc with hc | hc
    · rcases List.mem_append.mp hc with hc | hc
      · exact hcs c hc
      · rcases hds with rfl | rfl
        · cases hc
        · rw [List.mem_singleton.mp hc]
          exact hname
    · rw [List.mem_singleton.mp hc]
      exact hname
  have hway : descend s'.childNamed s'.root cs = some p := by
    rw [h.root]
    refine descend_mono (p := fun n => n ∈ s.live) (fun n c m hn hc => ?_) hs.root hp
    refine ⟨hs.tree.childNamed_live hn hc, ?_⟩
    rw [h.childNamed_old hs hn]
    by_cases hnp : n = p
    · rw [if_pos hnp, ← hnp, hc, Option.some_or]
    · rw [if_neg hnp, hc]
  have hchild : s'.childNamed p name = some t := by
    rw [h.childNamed_old hs h.parent, if_pos rfl, hnone, Option.none_or, if_pos rfl]
  have hres : s'.resolve s'.root (cs ++ ds ++ [name]) = t := by
    rw [List.append_assoc, resolve_descend hway]
    rcases hds with rfl | rfl
    · rw [List.nil_append, FsState.resolve, hchild]
      rfl
    · rw [List.singleton_append, FsState.resolve, hchild]
      show s'.resolve t [name] = t
      rw [FsState.resolve, h.childNamed_new]
      exact if_pos h.node.1
  obtain ⟨hmem, -, hlast⟩ := render_last (cs ++ ds) hname.1
  refine ⟨hcomp, ?_⟩
  rw [fsGetnode_eq hgrown hmem, hcomp, hres, hlast,
    if_pos ⟨Nat.pos_iff_ne_zero.mp h0, h.node.1.symm⟩]

/-- No success is as it should be. -/
theorem Made.not_madeAt (h : Made s s' t p name type) (hs : GrownTree s) (h0 : 0 < t)
    (hp : p = s.resolve s.root (components (dirPart path))) (hname : slash ∉ name) :
    ¬ ∃ u, MadeAt e s s' path type u := by
  rintro ⟨u, hu⟩
  have hgrown := h.tree.grown
  have hut : u = t := by
    have hmem := hu.fresh.2
    rw [h.live] at hmem
    exact (List.mem_cons.mp hmem).resolve_right hu.fresh.1
  by_cases hhidden : name = [] ∨ s.childNamed p name ≠ none
  · rcases fsGetnode_ok hgrown hu.found with hnull | ⟨hres, -⟩
    · exact absurd (hut ▸ hnull) (Nat.pos_iff_ne_zero.mp h0)
    · exact h.hidden hs h0 hhidden (fun c hc => component_ne_nil hc) (hres.symm.trans hut)
  · rw [not_or, not_not] at hhidden
    obtain ⟨hne, hnone⟩ := hhidden
    have hp0 : s.resolve s.root (components (dirPart path)) ≠ NULL := fun he =>
      hs.tree.null (he ▸ hp ▸ h.parent)
    obtain ⟨cs, hsub, hway⟩ := hs.tree.resolve_path hs.root hp0
    rw [← hp] at hway
    have hcs : ∀ c ∈ cs, slash ∉ c ∧ c ≠ [] := fun c hc =>
      ⟨component_notMem (hsub c hc), component_ne_nil (hsub c hc)⟩
    -- a path that leads to the new node led elsewhere before
    have hchange : ∀ ds, (ds = [] ∨ ds = [name]) →
        components (render (cs ++ ds ++ [name])) = components path := fun ds hds => by
      by_contra hother
      obtain ⟨hcomp, hfound⟩ := h.found (e := e) hs h0 hnone hway hcs ⟨hname, hne⟩ hds
      obtain ⟨hmem, hhead, -⟩ := render_last (cs ++ ds) hname
      obtain ⟨v, hv⟩ : ∃ v, fsGetnode (render (cs ++ ds ++ [name])) e s = .ok (v, s) :=
        ⟨_, fsGetnode_eq hs hmem⟩
      have hsame := hu.others _ hhead hother v hv
      rw [hfound] at hsame
      obtain ⟨rfl, -⟩ := Prod.mk.inj (Except.ok.inj hsame)
      rcases fsGetnode_ok hs hv with hnull | ⟨-, hlive⟩
      · exact absurd hnull (Nat.pos_iff_ne_zero.mp h0)
      · exact h.fresh hlive
    have h1 := hchange [] (.inl rfl)
    have h2 := hchange [name] (.inr rfl)
    rw [← h1, (h.found (e := e) hs h0 hnone hway hcs ⟨hname, hne⟩ (.inl rfl)).1,
      (h.found (e := e) hs h0 hnone hway hcs ⟨hname, hne⟩ (.inr rfl)).1] at h2
    have hlen := congrArg List.length h2
    simp at hlen

theorem allocNode_eq (he : e.MallocSucceeds s) : allocNode e s =
    .ok (e.malloc s, initNode (e.malloc s) { s with live := e.malloc s :: s.live }) := by
  obtain ⟨h0, hnew, hlt⟩ := he
  have hm : mallocNode e s = .ok (e.malloc s, { s with live := e.malloc s :: s.live }) := by
    rw [mallocNode, Program.bind_of_ok Program.ask_apply, if_neg h0,
      Program.bind_of_ok Program.gets_apply, Program.bind_of_ok (Program.check_of ⟨hnew, hlt⟩)]
    rfl
  rw [allocNode, Program.bind_of_ok hm, Program.bind_of_ok (Program.check_of h0)]
  rfl

/-- The call fails: the path is `/`, or its directory part leads to no node. -/
def MkFails (e : FsEnv) (s : FsState) (path : List UInt8) : Prop :=
  path = [slash] ∨ ∀ n, findNode (dirPart path) e s = .ok (n, s) → n = NULL

theorem mkNodeOk_iff (hinv : FsInv s) (he : e.MallocSucceeds s) (hhead : path.head? = some slash) :
    MkNodeOk e s path type ↔ MkFails e s path := by
  constructor
  · intro hok
    by_contra hbad
    rw [MkFails, not_or] at hbad
    obtain ⟨hne, hfound⟩ := hbad
    have hs : GrownTree s := hinv.resolve_right fun hroot => hfound fun n hn => by
      rw [findNode_rootless hroot] at hn
      cases hn
    have h0 : s.resolve s.root (components (dirPart path)) ≠ NULL := fun hz =>
      hfound fun n hn => by
        rw [findNode_eq hs.tree, hz] at hn
        cases hn
        rfl
    have hpath : slash ∈ path := List.mem_of_mem_head? hhead
    have hrun : fsMknode path type e s = .ok (0, linkNode (e.malloc s) (namePart path) type
        (s.resolve s.root (components (dirPart path)))
        (initNode (e.malloc s) { s with live := e.malloc s :: s.live })) := by
      rw [fsMknode_eq hs hne hpath (slash_mem_stripped hhead hne), if_neg h0,
        Program.bind_of_ok (allocNode_eq he)]
      rfl
    have hmade := made_linkNode hs (hs.tree.resolve_live hs.root h0) he.2.1
      (Nat.pos_of_ne_zero he.1) he.2.2 (namePart path) type
    exact hmade.not_madeAt hs (Nat.pos_of_ne_zero he.1) rfl (slash_notMem_namePart path)
      ((hok 0 _ hrun).1 rfl)
  · intro hfails r s' hrun
    have hminus : r = -1 ∧ s' = s := by
      rcases hinv with hs | hroot
      · rcases fsMknode_ok hs hrun with hm | ⟨-, hne, -, h0, -⟩
        · exact hm
        · exact absurd (hfails.resolve_left hne _ (findNode_eq hs.tree _)) h0
      · exact rootless_mknode hroot hrun
    refine ⟨fun hr => ?_, fun _ => hminus.2⟩
    rw [hminus.1] at hr
    exact absurd hr (by decide)

/-! ## The names of the children -/

/-- The children of each node have different names, none of them empty. -/
def NamesOk (s : FsState) : Prop := ∀ n ∈ s.live,
  ((s.kids n).map fun m => (s.nodes m).name).Nodup ∧ ∀ m ∈ s.kids n, (s.nodes m).name ≠ []

/-- A new node has a name of its own. -/
def FreshName (s : FsState) : FsCall → Prop
  | .mknode path _ => path = [slash] ∨ namePart path ≠ [] ∧
      s.childNamed (s.resolve s.root (components (dirPart path))) (namePart path) = none
  | .rmnode _ => True

theorem map_names {l : List Ptr} (h : ∀ m ∈ l, (s'.nodes m).name = (s.nodes m).name) :
    (l.map fun m => (s'.nodes m).name) = l.map fun m => (s.nodes m).name :=
  List.map_congr_left h

theorem Made.names (h : Made s s' t p name type) (hs : GrownTree s) (hn : NamesOk s)
    (hname : name ≠ []) (hnone : s.childNamed p name = none) : NamesOk s' := by
  intro n hmem
  have hold : ∀ m ∈ s.kids n, n ∈ s.live → (s'.nodes m).name = (s.nodes m).name := fun m hm hn =>
    h.old_name (hs.live n hn m hm)
  rw [h.kids hmem]
  by_cases hnt : n = t
  · rw [hnt, Function.update_self]
    exact ⟨List.nodup_nil, fun m hm => absurd hm List.not_mem_nil⟩
  · rw [h.live] at hmem
    have hlive := (List.mem_cons.mp hmem).resolve_left hnt
    obtain ⟨hnodup, hnonempty⟩ := hn n hlive
    rw [Function.update_of_ne hnt]
    by_cases hnp : n = p
    · subst hnp
      rw [Function.update_self, List.map_append, map_names fun m hm => hold m hm hlive]
      constructor
      · rw [List.map_singleton, h.node.1]
        refine List.nodup_append.mpr ⟨hnodup, List.nodup_singleton name, fun c hc d hd => ?_⟩
        obtain ⟨m, hm, rfl⟩ := List.mem_map.mp hc
        rw [List.mem_singleton.mp hd]
        simpa using List.find?_eq_none.mp hnone m hm
      · intro m hm
        rcases List.mem_append.mp hm with hm | hm
        · rw [hold m hm hlive]
          exact hnonempty m hm
        · rw [List.mem_singleton.mp hm, h.node.1]
          exact hname
    · rw [Function.update_of_ne hnp, map_names fun m hm => hold m hm hlive]
      refine ⟨hnodup, fun m hm => ?_⟩
      rw [hold m hm hlive]
      exact hnonempty m hm

theorem fsMknode_names {r : Int} (hs : GrownTree s) (hn : NamesOk s)
    (hfresh : FreshName s (.mknode path type)) (hrun : fsMknode path type e s = .ok (r, s')) :
    NamesOk s' := by
  rcases fsMknode_ok hs hrun with ⟨-, rfl⟩ | ⟨-, hne, -, -, t, -, hmade⟩
  · exact hn
  · obtain ⟨hname, hnone⟩ := hfresh.resolve_left hne
    exact hmade.names hs hn hname hnone

theorem Removed.names (h : Removed s s' t) (hn : NamesOk s) : NamesOk s' := by
  intro n hmem
  have hlive : n ∈ s.live := by
    rw [h.live] at hmem
    exact List.mem_of_mem_erase hmem
  obtain ⟨hnodup, hnonempty⟩ := hn n hlive
  rw [h.kids n hmem, h.nodes]
  have hsub : List.Sublist ((s.kids n).erase t) (s.kids n) := List.erase_sublist
  exact ⟨(hsub.map _).nodup hnodup, fun m hm => hnonempty m (hsub.subset hm)⟩

theorem SameTree.names (hst : SameTree s s') (hs : GrownTree s) (hn : NamesOk s) :
    NamesOk s' := by
  intro n hmem
  rw [(hst.treeOf hs).kids hmem]
  rw [hst.live] at hmem
  simp only [hst.name]
  exact hn n hmem

/-! ## The names after `fs_init` -/

/-- The names of the children of the root are among `names`. -/
def TopNames (s : FsState) (names : List (List UInt8)) : Prop :=
  ∀ m ∈ s.kids s.root, (s.nodes m).name ∈ names

theorem mknodeHooked_names {hooks : List (Nat × Hook)} {r : Int} {names : List (List UInt8)}
    (hs : GrownTree s) (hn : NamesOk s) (htop : TopNames s names) (hdir : dirPart path = [slash])
    (hname : namePart path = name) (hne : name ≠ []) (hfresh : name ∉ names)
    (hrun : mknodeHooked path type hooks e s = .ok (r, s')) :
    GrownTree s' ∧ NamesOk s' ∧ TopNames s' (name :: names) := by
  obtain ⟨ret, s1, hmk, hs1, hst⟩ := mknodeHooked_ok hs hrun
  have hroot : s.resolve s.root (components (dirPart path)) = s.root := by
    rw [hdir]
    rfl
  have hnone : s.childNamed s.root name = none := by
    refine List.find?_eq_none.mpr fun m hm => ?_
    have := htop m hm
    simp only [decide_eq_true_eq]
    exact fun he => hfresh (he ▸ this)
  have hn1 : NamesOk s1 := by
    refine fsMknode_names hs hn (.inr ⟨by rw [hname]; exact hne, ?_⟩) hmk
    rw [hroot, hname]
    exact hnone
  refine ⟨(hst.treeOf hs1).grown, hst.names hs1 hn1, fun m hm => ?_⟩
  rw [(hst.treeOf hs1).kids (hst.treeOf hs1).root, hst.root] at hm
  rw [hst.name]
  rcases fsMknode_ok hs hmk with ⟨-, rfl⟩ | ⟨-, -, -, -, t, -, hmade⟩
  · exact List.mem_cons_of_mem name (htop m hm)
  · rw [hroot, hname] at hmade
    have hrt : s.root ≠ t := fun he => hmade.fresh (he ▸ hs.root)
    rw [hmade.kids hs1.root, hmade.root, Function.update_of_ne hrt, Function.update_self] at hm
    rcases List.mem_append.mp hm with hm | hm
    · rw [hmade.old_name (hs.live _ hs.root m hm)]
      exact List.mem_cons_of_mem name (htop m hm)
    · rw [List.mem_singleton.mp hm, hmade.node.1]
      exact List.mem_cons_self

theorem fsInit_names {u : Unit} (hempty : s.live = []) (hrun : fsInit e s = .ok (u, s')) :
    NamesOk s' := by
  obtain ⟨t, s1, halloc, hrun⟩ := Program.bind_ok.mp hrun
  have hroot := allocNode_root hempty halloc
  rw [Program.bind_of_ok Program.modify_apply, Program.bind_of_ok Program.modify_apply] at hrun
  obtain ⟨_, s2, hstdio, hrun⟩ := Program.bind_ok.mp hrun
  obtain ⟨_, s3, hfat, hrun⟩ := Program.bind_ok.mp hrun
  obtain ⟨_, s4, hpipe, hrun⟩ := Program.bind_ok.mp hrun
  cases hrun
  have hn : NamesOk _ := fun n hn => by
    rw [hroot.kids hn]
    exact ⟨List.nodup_nil, fun m hm => absurd hm List.not_mem_nil⟩
  have htop : TopNames _ [] := fun m hm => by
    rw [hroot.kids hroot.root] at hm
    cases hm
  obtain ⟨h2, hn2, ht2⟩ := mknodeHooked_names hroot.grown hn htop (by decide)
    (show namePart (ascii "/stdio") = ascii "stdio" by decide) (by decide) (by simp) hstdio
  obtain ⟨h3, hn3, ht3⟩ := mknodeHooked_names h2 hn2 ht2 (by decide)
    (show namePart (ascii "/disk") = ascii "disk" by decide) (by decide) (by decide) hfat
  exact (mknodeHooked_names h3 hn3 ht3 (by decide)
    (show namePart (ascii "/pipe") = ascii "pipe" by decide) (by decide) (by decide) hpipe).2.1

/-! ## Every run -/

theorem fresh_names (h : (fsMachine.restrict FreshName).Reachable s) (hroot : s.root ∈ s.live) :
    NamesOk s := by
  have hinv : s.root ∉ s.live ∨ GrownTree s ∧ NamesOk s := by
    refine h.invariant (fun s => s.root ∉ s.live ∨ GrownTree s ∧ NamesOk s) ?_ ?_
    · rintro s ⟨e, s₀, hempty, hrun⟩
      exact .inr ⟨fsInit_grown hempty hrun, fsInit_names hempty hrun⟩
    · rintro s call s' (hgone | ⟨hs, hn⟩) ⟨hok, e, r, hrun⟩
      · rw [rootless_step hgone hrun]
        exact .inl hgone
      · cases call with
        | mknode path type => exact .inr ⟨fsMknode_grown hs hrun, fsMknode_names hs hn hok hrun⟩
        | rmnode path =>
          rw [FsCall.run, fsRmnode_eq hs] at hrun
          split at hrun
          · cases hrun
            exact .inr ⟨hs, hn⟩
          · next hcond =>
            cases hrun
            rw [not_or, not_or] at hcond
            rcases rmnodeState_cases hs hcond.2.1 with ⟨-, hgone⟩ | ⟨-, hremoved, hgrown⟩
            · exact .inl hgone
            · exact .inr ⟨hgrown, hremoved.names hn⟩
  exact (hinv.resolve_left (not_not.mpr hroot)).2

/--
In every reachable state `fs_mknode` does what it should if and only if it fails; and in every
run in which each new node has a name of its own, the children of a node have different names.
-/
theorem fsMachine_mknode (h : fsMachine.Reachable s) :
    (∀ e path type, e.MallocSucceeds s → path.head? = some slash →
      (MkNodeOk e s path type ↔ MkFails e s path)) ∧
    ((fsMachine.restrict FreshName).Reachable s → s.root ∈ s.live → NamesOk s) :=
  ⟨fun _ _ _ he hhead => mkNodeOk_iff (fsMachine_inv h) he hhead, fresh_names⟩

/-! ## A node made twice -/

/-- After `fs_init` and a call for `/a` there is a node at `/a`, but the call succeeds again. -/
theorem mknode_twice : ∃ s s1 s2, fsInit nodeEnv noNodes = .ok ((), s) ∧
    nodeEnv.MallocSucceeds s ∧ fsMknode (ascii "/a") fileTypeDirctory nodeEnv s = .ok (0, s1) ∧
    fsMknode (ascii "/a") fileTypeDirctory nodeEnv s1 = .ok (0, s2) ∧
    s1.nodeAt (ascii "/a") ≠ none := by
  have h : (match (do
      fsInit
      let s ← Program.gets id
      let r ← fsMknode (ascii "/a") fileTypeDirctory
      let s1 ← Program.gets id
      let r1 ← fsMknode (ascii "/a") fileTypeDirctory
      return (s, r, s1, r1) : Fs (FsState × Int × FsState × Int)) nodeEnv noNodes with
      | .ok ((s, r, s1, r1), _) => decide ((nodeEnv.malloc s ≠ NULL ∧ nodeEnv.malloc s ∉ s.live ∧
        nodeEnv.malloc s < 2 ^ 64) ∧ r = 0 ∧ r1 = 0 ∧ s1.nodeAt (ascii "/a") ≠ none)
      | .error _ => false) = true := by
    decide +kernel
  split at h
  · next s r s1 r1 s2 hrun =>
    obtain ⟨hmalloc, rfl, rfl, hat⟩ := of_decide_eq_true h
    obtain ⟨_, t, hinit, hrun⟩ := Program.bind_ok.mp hrun
    rw [Program.bind_of_ok Program.gets_apply] at hrun
    obtain ⟨r, t1, hmk, hrun⟩ := Program.bind_ok.mp hrun
    rw [Program.bind_of_ok Program.gets_apply] at hrun
    obtain ⟨r1, t2, hmk1, hret⟩ := Program.bind_ok.mp hrun
    cases hret
    exact ⟨t, t1, s2, hinit, hmalloc, hmk, hmk1, hat⟩
  · cases h

/-- The state after `fs_init`, and a call for `/a`. -/
theorem fsMachine_mknode_start : ∃ s, fsMachine.Reachable s ∧ NamesOk s ∧
    (MkNodeOk nodeEnv s (ascii "/a") fileTypeDirctory ↔ MkFails nodeEnv s (ascii "/a")) := by
  obtain ⟨s, -, -, hinit, he, -⟩ := mknode_twice
  have h : fsMachine.Reachable s := .start ⟨nodeEnv, noNodes, rfl, hinit⟩
  have h' : (fsMachine.restrict FreshName).Reachable s := .start ⟨nodeEnv, noNodes, rfl, hinit⟩
  exact ⟨s, h, (fsMachine_mknode h).2 h' (fsInit_grown rfl hinit).root,
    (fsMachine_mknode h).1 nodeEnv _ _ he (by decide)⟩

/-- A second node of the same path is made. -/
theorem fsMachine_not_mknode : ∃ s, fsMachine.Reachable s ∧
    ¬ MkNodeOk nodeEnv s (ascii "/a") fileTypeDirctory := by
  obtain ⟨s, s1, s2, hinit, -, hmk, hmk1, hat⟩ := mknode_twice
  have h1 : fsMachine.Reachable s1 := .step
    (a := .mknode (ascii "/a") fileTypeDirctory) (.start ⟨nodeEnv, noNodes, rfl, hinit⟩)
    ⟨nodeEnv, 0, hmk⟩
  refine ⟨s1, h1, fun hok => ?_⟩
  obtain ⟨t, hmade⟩ := (hok 0 s2 hmk1).1 rfl
  exact hat hmade.absent

end Raincloud
