import Raincloud.Fs.FileNode
import Raincloud.Infra.NameTree

/-!
# `find_node`

The loop of `find_node` goes on from the child that has the next name. That there is one it
tells afterwards, by the name of the node it is at. So where no child has the name but the node
itself has, the name is skipped.
-/

set_option linter.style.nameCheck false

namespace Raincloud

open Infra Infra.LinkStore

variable {e : FsEnv} {s : FsState} {n m : Ptr} {c : List UInt8} {cs : List (List UInt8)}
  {A B : List Ptr}

/-! ## The tree -/

namespace FsState

/-- The nodes of a list, as `list_for_each` sees them. -/
def follow (s : FsState) (head : NodeRef) : Nat → NodeRef → List Ptr
  | 0, _ => []
  | fuel + 1, it =>
    if it = head then []
    else
      match it.node? with
      | some m => m :: s.follow head fuel (s.next it)
      | none => []

def kids (s : FsState) (n : Ptr) : List Ptr :=
  s.follow (.children n) walkFuel (s.next (.children n))

/-- The first child of that name. -/
def childNamed (s : FsState) (n : Ptr) (c : List UInt8) : Option Ptr :=
  (s.kids n).find? fun m => (s.nodes m).name = c

end FsState

/-- A tree of file nodes; each node is deeper than its parent. -/
structure NodeTree (s : FsState) : Prop where
  nodup : s.live.Nodup
  range : ∀ n ∈ s.live, 0 < n ∧ n < 2 ^ 64
  root : s.root ∈ s.live
  ring : ∀ n ∈ s.live, Ring s (.children n) ((s.kids n).map .list)
  live : ∀ n ∈ s.live, ∀ m ∈ s.kids n, m ∈ s.live
  depth : ∃ depth : Ptr → Nat, ∀ n ∈ s.live, ∀ m ∈ s.kids n, depth n < depth m

theorem NodeTree.null (h : NodeTree s) : NULL ∉ s.live :=
  fun hn => absurd (h.range NULL hn).1 (Nat.lt_irrefl 0)

theorem NodeTree.childNamed_live (h : NodeTree s) (hn : n ∈ s.live)
    (hc : s.childNamed n c = some m) : m ∈ s.live :=
  h.live n hn m (List.mem_of_find?_eq_some hc)

theorem childNamed_name (hc : s.childNamed n c = some m) : (s.nodes m).name = c := by
  have := List.find?_some hc
  simpa using this

/-! ## The loop over the children -/

/-- The list head after a part of the children. -/
theorem headD_list (n : Ptr) (b : Ptr) (B : List Ptr) :
    ((b :: B).map NodeRef.list).headD (.children n) = .list b := rfl

theorem follow_ring : ∀ {A B : List Ptr} {fuel : Nat},
    Ring s (.children n) ((A ++ B).map .list) → B.length < fuel →
    s.follow (.children n) fuel ((B.map .list).headD (.children n)) = B
  | A, B, 0, _, hfuel => absurd hfuel (Nat.not_lt_zero _)
  | A, [], fuel + 1, _, _ => by
    unfold FsState.follow
    exact if_pos rfl
  | A, b :: B, fuel + 1, hr, hfuel => by
    have hnext : s.next (.list b) = (B.map NodeRef.list).headD (.children n) := by
      rw [List.map_append, List.map_cons] at hr
      exact hr.next_mem
    have hr' : Ring s (.children n) ((A ++ [b] ++ B).map .list) := by
      rw [List.append_assoc]
      exact hr
    rw [headD_list, FsState.follow, if_neg (by simp)]
    show b :: s.follow (.children n) fuel (s.next (.list b)) = _
    rw [hnext, follow_ring hr' (Nat.lt_of_succ_lt_succ hfuel)]

/-- The children are the nodes of the ring. -/
theorem kids_eq (hr : Ring s (.children n) (B.map .list)) (hlen : B.length < walkFuel) :
    s.kids n = B := by
  rw [FsState.kids, show s.next (.children n) = _ from hr.next_head]
  exact follow_ring (A := []) hr hlen

theorem nodup_of_ring (hr : Ring s (.children n) (B.map .list)) : B.Nodup :=
  List.Nodup.of_map _ (List.nodup_cons.mp hr.nodup).2

theorem findChildFrom_ring : ∀ {A B : List Ptr} {fuel : Nat},
    Ring s (.children n) ((A ++ B).map .list) → (∀ m ∈ B, m ∈ s.live) → B.length < fuel →
    findChildFrom c n fuel ((B.map .list).headD (.children n)) e s
      = .ok (B.find? fun m => (s.nodes m).name = c, s)
  | A, B, 0, _, _, hfuel => absurd hfuel (Nat.not_lt_zero _)
  | A, [], fuel + 1, _, _, _ => by
    unfold findChildFrom
    rw [if_pos (by rfl)]
    rfl
  | A, b :: B, fuel + 1, hr, hlive, hfuel => by
    have hnext : s.next (.list b) = (B.map NodeRef.list).headD (.children n) := by
      rw [List.map_append, List.map_cons] at hr
      exact hr.next_mem
    have hr' : Ring s (.children n) ((A ++ [b] ++ B).map .list) := by
      rw [List.append_assoc]
      exact hr
    have ih := findChildFrom_ring hr'
      (fun m hm => hlive m (List.mem_cons_of_mem b hm)) (Nat.lt_of_succ_lt_succ hfuel)
    rw [headD_list, findChildFrom, if_neg (by simp)]
    dsimp only [NodeRef.node?]
    rw [Program.bind_of_ok Program.gets_apply,
      Program.bind_of_ok (Program.check_of (hlive b List.mem_cons_self)),
      Program.bind_of_ok Program.gets_apply]
    by_cases hb : (s.nodes b).name = c
    · rw [if_pos (strcmp_eq_zero.mpr hb), List.find?_cons_of_pos (by simpa using hb)]
      rfl
    · rw [if_neg fun h => hb (strcmp_eq_zero.mp h), Program.bind_of_ok Program.gets_apply, hnext,
        ih, List.find?_cons_of_neg (by simpa using hb)]

/-! ## The loop over the path -/

namespace FsState

/-- Where the loop gets to: a name that only the node itself has is skipped. -/
def resolve (s : FsState) : Ptr → List (List UInt8) → Ptr
  | n, [] => n
  | n, c :: cs =>
    match s.childNamed n c with
    | some m => s.resolve m cs
    | none =>
      if (s.nodes n).name = c then s.resolve n cs
      else if (s.nodes n).type = fileTypeMountPoint then n
      else NULL

end FsState

theorem findStep_eq (h : NodeTree s) (hn : n ∈ s.live) :
    findStep c n e s = .ok (match s.childNamed n c with
      | some m => .inl m
      | none =>
        if (s.nodes n).name = c then .inl n
        else if (s.nodes n).type = fileTypeMountPoint then .inr n
        else .inr NULL, s) := by
  have hr := h.ring n hn
  have hlen : (s.kids n).length < walkFuel :=
    length_lt_walkFuel (nodup_of_ring hr) fun m hm => h.range m (h.live n hn m hm)
  have hchild : findChildFrom c n walkFuel (s.next (.children n)) e s
      = .ok (s.childNamed n c, s) := by
    rw [show s.next (.children n) = _ from hr.next_head]
    exact findChildFrom_ring (A := []) hr (h.live n hn) hlen
  unfold findStep
  rw [Program.bind_of_ok Program.gets_apply, Program.bind_of_ok (Program.check_of hn),
    Program.bind_of_ok Program.gets_apply, Program.bind_of_ok hchild,
    Program.bind_of_ok Program.gets_apply]
  cases hc : s.childNamed n c with
  | some m =>
    dsimp only [Option.getD_some]
    rw [if_neg (by rw [strcmp_eq_zero.mpr (childNamed_name hc)]; simp)]
    rfl
  | none =>
    dsimp only [Option.getD_none]
    by_cases hname : (s.nodes n).name = c
    · rw [if_neg (by rw [strcmp_eq_zero.mpr hname]; simp), if_pos hname]
      rfl
    · rw [if_pos (fun hz => hname (strcmp_eq_zero.mp hz)), if_neg hname,
        Program.bind_of_ok Program.gets_apply]
      by_cases hmount : (s.nodes n).type = fileTypeMountPoint
      · rw [if_pos hmount, if_pos hmount]
        rfl
      · rw [if_neg hmount, if_neg hmount]
        rfl

theorem findNodeLoop_eq (h : NodeTree s) : ∀ (fuel : Nat) (save : List UInt8) (n : Ptr),
    save.length < fuel → n ∈ s.live →
    findNodeLoop fuel save n e s = .ok (s.resolve n (components save), s)
  | 0, save, n, hfuel, _ => absurd hfuel (Nat.not_lt_zero _)
  | fuel + 1, save, n, hfuel, hn => by
    have htok := strtokR_slash save
    unfold findNodeLoop
    cases ht : strtokR save [slash] with
    | none =>
      rw [ht] at htok
      rw [show components save = [] from htok]
      rfl
    | some r =>
      obtain ⟨c, rest⟩ := r
      rw [ht] at htok
      obtain ⟨hcomp, hlen⟩ := htok
      dsimp only
      rw [Program.bind_of_ok (findStep_eq h hn), hcomp, FsState.resolve]
      have hlen' : rest.length < fuel := by omega
      cases hc : s.childNamed n c with
      | some m =>
        exact findNodeLoop_eq h fuel rest m hlen' (h.childNamed_live hn hc)
      | none =>
        by_cases hname : (s.nodes n).name = c
        · dsimp only
          rw [if_pos hname, if_pos hname]
          exact findNodeLoop_eq h fuel rest n hlen' hn
        · dsimp only
          rw [if_neg hname, if_neg hname]
          by_cases hmount : (s.nodes n).type = fileTypeMountPoint
          · rw [if_pos hmount, if_pos hmount]
            rfl
          · rw [if_neg hmount, if_neg hmount]
            rfl

theorem findNode_eq (h : NodeTree s) (path : List UInt8) :
    findNode path e s = .ok (s.resolve s.root (components path), s) := by
  unfold findNode
  rw [Program.bind_of_ok Program.gets_apply, Program.bind_of_ok Program.gets_apply,
    Program.bind_of_ok (Program.check_of h.root)]
  exact findNodeLoop_eq h _ path s.root (Nat.lt_succ_self _) h.root

/-! ## The lookup it should be -/

namespace FsState

/-- The node that the names lead to, or the mount point at which there is no such child. -/
def lookup (s : FsState) : Ptr → List (List UInt8) → Ptr
  | n, [] => n
  | n, c :: cs =>
    match s.childNamed n c with
    | some m => s.lookup m cs
    | none => if (s.nodes n).type = fileTypeMountPoint then n else NULL

/-- The next name is that of no child; if it is that of the node, the same goes for the rest. -/
def Stays (s : FsState) (n : Ptr) : List (List UInt8) → Prop
  | [] => True
  | c :: cs => s.childNamed n c = none ∧ ((s.nodes n).name = c → s.Stays n cs)

/-- With the names left out that are skipped, some name is not there, and not at a mount point. -/
def Misses (s : FsState) : Ptr → List (List UInt8) → Prop
  | _, [] => False
  | n, c :: cs =>
    match s.childNamed n c with
    | some m => s.Misses m cs
    | none => if (s.nodes n).name = c then s.Misses n cs else (s.nodes n).type ≠ fileTypeMountPoint

/-- At the first name that no child has: it is not that of the node, or skipping it is harmless. -/
def Agrees (s : FsState) : Ptr → List (List UInt8) → Prop
  | _, [] => True
  | n, c :: cs =>
    match s.childNamed n c with
    | some m => s.Agrees m cs
    | none => (s.nodes n).name ≠ c ∨
      if (s.nodes n).type = fileTypeMountPoint then s.Stays n cs else s.Misses n cs

end FsState

/-- What is reached is no less deep. -/
theorem NodeTree.resolve_depth (h : NodeTree s) {depth : Ptr → Nat}
    (hdepth : ∀ n ∈ s.live, ∀ m ∈ s.kids n, depth n < depth m) :
    ∀ {n : Ptr} {cs : List (List UInt8)}, n ∈ s.live →
    s.resolve n cs = NULL ∨ s.resolve n cs ∈ s.live ∧ depth n ≤ depth (s.resolve n cs)
  | n, [], hn => .inr ⟨hn, le_rfl⟩
  | n, c :: cs, hn => by
    unfold FsState.resolve
    cases hc : s.childNamed n c with
    | some m =>
      have hlt := hdepth n hn m (List.mem_of_find?_eq_some hc)
      have hm : s.resolve m cs = NULL ∨ _ := h.resolve_depth hdepth (h.childNamed_live hn hc)
      rcases hm with h0 | ⟨hm, hle⟩
      · exact .inl h0
      · exact .inr ⟨hm, (Nat.le_of_lt hlt).trans hle⟩
    | none =>
      dsimp only
      split
      · exact h.resolve_depth hdepth hn
      · split
        · exact .inr ⟨hn, le_rfl⟩
        · exact .inl rfl

theorem NodeTree.resolve_live (h : NodeTree s) (hn : n ∈ s.live) (h0 : s.resolve n cs ≠ NULL) :
    s.resolve n cs ∈ s.live := by
  obtain ⟨depth, hdepth⟩ := h.depth
  exact ((h.resolve_depth hdepth hn).resolve_left h0).1

/-- What is reached is reached by some of the names, all of children. -/
theorem NodeTree.resolve_path (h : NodeTree s) : ∀ {n : Ptr} {cs : List (List UInt8)},
    n ∈ s.live → s.resolve n cs ≠ NULL →
    ∃ path, (∀ d ∈ path, d ∈ cs) ∧ descend s.childNamed n path = some (s.resolve n cs)
  | n, [], _, _ => ⟨[], fun d hd => absurd hd List.not_mem_nil, rfl⟩
  | n, c :: cs, hn, h0 => by
    unfold FsState.resolve at h0 ⊢
    cases hc : s.childNamed n c with
    | some m =>
      rw [hc] at h0
      obtain ⟨path, hsub, hpath⟩ := h.resolve_path (h.childNamed_live hn hc) h0
      refine ⟨c :: path, fun d hd => ?_, ?_⟩
      · rcases List.mem_cons.mp hd with rfl | hd
        · exact List.mem_cons_self
        · exact List.mem_cons_of_mem c (hsub d hd)
      · rw [descend_cons hc]
        exact hpath
    | none =>
      rw [hc] at h0
      dsimp only at h0 ⊢
      by_cases hname : (s.nodes n).name = c
      · rw [if_pos hname] at h0 ⊢
        obtain ⟨path, hsub, hpath⟩ := h.resolve_path hn h0
        exact ⟨path, fun d hd => List.mem_cons_of_mem c (hsub d hd), hpath⟩
      · rw [if_neg hname] at h0 ⊢
        by_cases hmount : (s.nodes n).type = fileTypeMountPoint
        · rw [if_pos hmount]
          exact ⟨[], fun d hd => absurd hd List.not_mem_nil, rfl⟩
        · rw [if_neg hmount] at h0
          exact absurd rfl h0

/-- Names of children only are followed as they are. -/
theorem resolve_descend : ∀ {n : Ptr} {path : List (List UInt8)},
    descend s.childNamed n path = some m → s.resolve n (path ++ cs) = s.resolve m cs
  | n, [], hd => by
    cases hd
    rfl
  | n, c :: path, hd => by
    unfold descend at hd
    rw [List.cons_append, FsState.resolve]
    cases hc : s.childNamed n c with
    | none =>
      rw [hc] at hd
      cases hd
    | some k =>
      rw [hc] at hd
      exact resolve_descend hd

theorem NodeTree.resolve_eq_self (h : NodeTree s)
    (hmount : (s.nodes n).type = fileTypeMountPoint) :
    ∀ {cs : List (List UInt8)}, n ∈ s.live → (s.resolve n cs = n ↔ s.Stays n cs)
  | [], _ => iff_of_true rfl trivial
  | c :: cs, hn => by
    unfold FsState.resolve FsState.Stays
    cases hc : s.childNamed n c with
    | some m =>
      -- below a child there is no way back
      refine iff_of_false (fun he => ?_) fun hs => nomatch hs.1
      obtain ⟨depth, hdepth⟩ := h.depth
      have hlt := hdepth n hn m (List.mem_of_find?_eq_some hc)
      dsimp only at he
      have hm : s.resolve m cs = NULL ∨ _ := h.resolve_depth hdepth (h.childNamed_live hn hc)
      rcases hm with h0 | ⟨-, hle⟩
      · exact h.null (h0 ▸ he ▸ hn)
      · rw [he] at hle
        exact absurd hlt (Nat.not_lt.mpr hle)
    | none =>
      dsimp only
      by_cases hname : (s.nodes n).name = c
      · rw [if_pos hname, h.resolve_eq_self hmount hn]
        simp [hname]
      · rw [if_neg hname, if_pos hmount]
        simp [hname]

theorem NodeTree.resolve_eq_null (h : NodeTree s) : ∀ {n : Ptr} {cs : List (List UInt8)},
    n ∈ s.live → (s.resolve n cs = NULL ↔ s.Misses n cs)
  | n, [], hn => iff_of_false (fun he => h.null (show NULL ∈ s.live from he ▸ hn)) id
  | n, c :: cs, hn => by
    unfold FsState.resolve FsState.Misses
    cases hc : s.childNamed n c with
    | some m => exact h.resolve_eq_null (h.childNamed_live hn hc)
    | none =>
      dsimp only
      by_cases hname : (s.nodes n).name = c
      · rw [if_pos hname, if_pos hname]
        exact h.resolve_eq_null hn
      · rw [if_neg hname, if_neg hname]
        by_cases hmount : (s.nodes n).type = fileTypeMountPoint
        · rw [if_pos hmount]
          exact iff_of_false (fun he => h.null (he ▸ hn)) fun hne => hne hmount
        · rw [if_neg hmount]
          exact iff_of_true rfl hmount

theorem NodeTree.resolve_eq_lookup (h : NodeTree s) : ∀ {n : Ptr} {cs : List (List UInt8)},
    n ∈ s.live → (s.resolve n cs = s.lookup n cs ↔ s.Agrees n cs)
  | n, [], _ => iff_of_true rfl trivial
  | n, c :: cs, hn => by
    unfold FsState.resolve FsState.lookup FsState.Agrees
    cases hc : s.childNamed n c with
    | some m => exact h.resolve_eq_lookup (h.childNamed_live hn hc)
    | none =>
      dsimp only
      by_cases hname : (s.nodes n).name = c
      · rw [if_pos hname, or_iff_right (not_not.mpr hname)]
        by_cases hmount : (s.nodes n).type = fileTypeMountPoint
        · rw [if_pos hmount, if_pos hmount]
          exact h.resolve_eq_self hmount hn
        · rw [if_neg hmount, if_neg hmount]
          exact h.resolve_eq_null hn
      · rw [if_neg hname]
        exact iff_of_true rfl (.inl hname)

/--
`find_node` finds what the path leads to exactly if no name is skipped on the way, or skipping
it is harmless.
-/
theorem findNode_iff (h : NodeTree s) (path : List UInt8) :
    findNode path e s = .ok (s.lookup s.root (components path), s) ↔
      s.Agrees s.root (components path) := by
  rw [findNode_eq h, ← h.resolve_eq_lookup h.root]
  simp

/-! ## A tree of two nodes -/

/-- The root and its child `a`. -/
def smallTree : FsState where
  next r := if r = .children 1 then .list 2 else if r = .list 2 then .children 1 else r
  prev r := if r = .children 1 then .list 2 else if r = .list 2 then .children 1 else r
  nodes n :=
    if n = 1 then ⟨[slash], fileTypeRoot, NULL, fun _ => none⟩
    else ⟨ascii "a", fileTypeDirctory, 1, fun _ => none⟩
  live := [1, 2]
  root := 1

theorem smallTree_kids : smallTree.kids 1 = [2] ∧ smallTree.kids 2 = [] := by
  constructor
  · exact kids_eq ⟨by decide, .cons_cons ⟨rfl, rfl⟩ (.cons_cons ⟨rfl, rfl⟩ (.singleton _))⟩
      (by decide)
  · exact kids_eq ⟨by decide, .cons_cons ⟨rfl, rfl⟩ (.singleton _)⟩ (by decide)

theorem smallTree_tree : NodeTree smallTree := by
  obtain ⟨h1, h2⟩ := smallTree_kids
  have hlive : ∀ n ∈ smallTree.live, n = 1 ∨ n = 2 := fun n hn => by
    simpa [smallTree] using hn
  refine ⟨by decide, by decide, by decide, fun n hn => ?_, fun n hn m hm => ?_, id,
    fun n hn m hm => ?_⟩
  · rcases hlive n hn with rfl | rfl
    · rw [h1]
      exact ⟨by decide, .cons_cons ⟨rfl, rfl⟩ (.cons_cons ⟨rfl, rfl⟩ (.singleton _))⟩
    · rw [h2]
      exact ⟨by decide, .cons_cons ⟨rfl, rfl⟩ (.singleton _)⟩
  · rcases hlive n hn with rfl | rfl
    · rw [h1, List.mem_singleton] at hm
      rw [hm]
      decide
    · rw [h2] at hm
      cases hm
  · rcases hlive n hn with rfl | rfl
    · rw [h1, List.mem_singleton] at hm
      rw [hm]
      decide
    · rw [h2] at hm
      cases hm

theorem smallTree_child : smallTree.childNamed 1 (ascii "a") = some 2 ∧
    smallTree.childNamed 2 (ascii "a") = none := by
  obtain ⟨h1, h2⟩ := smallTree_kids
  rw [FsState.childNamed, FsState.childNamed, h1, h2]
  decide

/-- The path `/a` leads to the node `a`. -/
theorem findNode_iff_small :
    findNode (ascii "/a") ⟨fun _ => NULL⟩ smallTree = .ok (2, smallTree) := by
  have hc : components (ascii "/a") = [ascii "a"] := by decide
  have hok := (findNode_iff (e := ⟨fun _ => NULL⟩) smallTree_tree (ascii "/a")).mpr (by
    rw [hc]
    unfold FsState.Agrees
    rw [show smallTree.root = 1 from rfl, smallTree_child.1]
    trivial)
  rw [hok, hc, FsState.lookup, show smallTree.root = 1 from rfl, smallTree_child.1]
  rfl

/-- So does `/a/a`, though `a` has no child of that name and is no mount point. -/
theorem findNode_skips : NodeTree smallTree ∧
    findNode (ascii "/a/a") ⟨fun _ => NULL⟩ smallTree = .ok (2, smallTree) ∧
    smallTree.lookup smallTree.root (components (ascii "/a/a")) = NULL := by
  have hc : components (ascii "/a/a") = [ascii "a", ascii "a"] := by decide
  refine ⟨smallTree_tree, ?_, ?_⟩
  · rw [findNode_eq smallTree_tree, hc, FsState.resolve, show smallTree.root = 1 from rfl,
      smallTree_child.1]
    dsimp only
    rw [FsState.resolve, smallTree_child.2]
    rfl
  · rw [hc, FsState.lookup, show smallTree.root = 1 from rfl, smallTree_child.1]
    dsimp only
    rw [FsState.lookup, smallTree_child.2]
    rfl

end Raincloud
