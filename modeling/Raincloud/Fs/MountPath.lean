import Raincloud.Fs.FindNode

/-!
# The path below a mount point

`fat_open` looks for the name of the mount point in the path, and searches the volume for what
is behind the first component of that name. The walk of `find_node` plays no part in it.
-/

set_option linter.style.nameCheck false

namespace Raincloud

open Infra

variable {e : FsEnv} {s : FsState} {n m : Ptr} {c nodeName : List UInt8}
  {as bs cs : List (List UInt8)}

/-- The loop of `fat_open` over the components; what `aim_path` points to at its end. -/
def aimPathLoop (nodeName : List UInt8) : Nat → Option (List UInt8) → List UInt8 →
    Option (List UInt8)
  | 0, aimPath, _ => aimPath
  | fuel + 1, aimPath, save =>
    match strtokR save [slash] with
    | none => aimPath
    | some (name, save) =>
      if strcmp name nodeName = 0 then some save else aimPathLoop nodeName fuel (some save) save

/-- `real_path`; `none` if `aim_path` is still `NULL`. -/
def realPath (nodeName path : List UInt8) : Option (List UInt8) :=
  (aimPathLoop nodeName (path.length + 1) none path).map fun aimPath => slash :: aimPath

/-- What the loop leaves is behind the first component of the name. -/
theorem aimPathLoop_eq : ∀ {fuel : Nat} {aimPath : Option (List UInt8)} {save : List UInt8},
    save.length < fuel → nodeName ∈ components save →
    ∃ rest, aimPathLoop nodeName fuel aimPath save = some rest ∧
      components rest = ((components save).dropWhile (· ≠ nodeName)).tail
  | 0, _, save, hfuel, _ => absurd hfuel (Nat.not_lt_zero _)
  | fuel + 1, aimPath, save, hfuel, hmem => by
    have htok := strtokR_slash save
    rw [aimPathLoop]
    cases ht : strtokR save [slash] with
    | none =>
      rw [ht] at htok
      rw [show components save = [] from htok] at hmem
      exact absurd hmem List.not_mem_nil
    | some r =>
      obtain ⟨name, rest⟩ := r
      rw [ht] at htok
      obtain ⟨hcomp, hlen⟩ := htok
      dsimp only
      rw [hcomp] at hmem ⊢
      by_cases hname : name = nodeName
      · rw [if_pos (strcmp_eq_zero.mpr hname), List.dropWhile_cons_of_neg (by simp [hname])]
        exact ⟨rest, rfl, rfl⟩
      · rw [if_neg fun h => hname (strcmp_eq_zero.mp h),
          List.dropWhile_cons_of_pos (by simp [hname])]
        exact aimPathLoop_eq (by omega)
          ((List.mem_cons.mp hmem).resolve_left fun h => hname h.symm)

theorem realPath_eq {path : List UInt8} (h : nodeName ∈ components path) :
    ∃ real, realPath nodeName path = some real ∧
      components real = ((components path).dropWhile (· ≠ nodeName)).tail := by
  obtain ⟨rest, hloop, hrest⟩ : ∃ rest, aimPathLoop nodeName _ none path = some rest ∧ _ :=
    aimPathLoop_eq (Nat.lt_succ_self _) h
  exact ⟨slash :: rest, by rw [realPath, hloop, Option.map_some], by rw [components_slash, hrest]⟩

/-- What is behind the first `c` is what is behind the one at the end of the way. -/
theorem dropWhile_last (c : List UInt8) (bs init : List (List UInt8)) :
    (((init ++ [c]) ++ bs).dropWhile (· ≠ c)).tail = bs ↔ c ∉ init := by
  induction init with
  | nil => simp
  | cons d init ih =>
    by_cases hd : d = c
    · refine iff_of_false (fun he => ?_) (by simp [hd])
      rw [List.cons_append, List.cons_append, List.dropWhile_cons_of_neg (by simp [hd]),
        List.tail_cons] at he
      have hlen := congrArg List.length he
      simp only [List.length_append, List.length_singleton] at hlen
      omega
    · rw [List.cons_append, List.cons_append, List.dropWhile_cons_of_pos (by simp [hd]), ih,
        List.mem_cons, or_iff_right (Ne.symm hd)]

/-- A path that leads to a mount point of `fat_mknode` and on below it. -/
structure MountedAt (e : FsEnv) (s : FsState) (path : List UInt8) (as bs : List (List UInt8))
    (n : Ptr) : Prop where
  names : components path = as ++ bs
  below : bs ≠ []
  reached : descend s.childNamed s.root as = some n
  notRoot : n ≠ s.root
  mount : (s.nodes n).type = fileTypeMountPoint
  hook : (s.nodes n).hook fileHookIndexOpen = some .fatOpen
  found : findNode path e s = .ok (n, s)

/-- The last name on the way to a node is its own. -/
theorem descend_last : ∀ {k : Ptr} {as : List (List UInt8)},
    descend s.childNamed k as = some n → as ≠ [] → as.getLast? = some (s.nodes n).name
  | _, [], _, hne => absurd rfl hne
  | k, [c], h, _ => by
    unfold descend at h
    cases hc : s.childNamed k c with
    | none =>
      rw [hc] at h
      cases h
    | some m =>
      rw [hc] at h
      cases h
      rw [childNamed_name hc]
      rfl
  | k, c :: d :: as, h, _ => by
    unfold descend at h
    cases hc : s.childNamed k c with
    | none =>
      rw [hc] at h
      cases h
    | some m =>
      rw [hc] at h
      rw [List.getLast?_cons_cons]
      exact descend_last h (List.cons_ne_nil d as)

/-- `fatfs_searchfile` gets the components below the mount point. -/
def SearchesBelow (nodeName path : List UInt8) (bs : List (List UInt8)) : Prop :=
  ∃ real, realPath nodeName path = some real ∧ components real = bs

theorem MountedAt.split {path : List UInt8} (h : MountedAt e s path as bs n) :
    as = as.dropLast ++ [(s.nodes n).name] := by
  have hne : as ≠ [] := fun hnil => by
    have hreached := h.reached
    rw [hnil] at hreached
    exact h.notRoot (Option.some.inj hreached).symm
  exact (List.dropLast_append_getLast? _ (descend_last h.reached hne)).symm

/--
The volume is searched for exactly what is below the mount point if no node on the way to it
has the name of the mount point.
-/
theorem searchesBelow_iff {path : List UInt8} (h : MountedAt e s path as bs n) :
    SearchesBelow (s.nodes n).name path bs ↔ (s.nodes n).name ∉ as.dropLast := by
  have hpath : components path = (as.dropLast ++ [(s.nodes n).name]) ++ bs := by
    rw [← h.split, h.names]
  obtain ⟨real, hreal, hcomp⟩ : ∃ real, realPath (s.nodes n).name path = some real ∧ _ :=
    realPath_eq (by rw [hpath]; simp)
  have hfirst := dropWhile_last (s.nodes n).name bs as.dropLast
  rw [hpath] at hcomp
  rw [← hfirst, ← hcomp]
  constructor
  · rintro ⟨real', hreal', hbs⟩
    rw [hreal] at hreal'
    rw [Option.some.inj hreal', hbs]
  · intro hbs
    exact ⟨real, hreal, hbs⟩

/-! ## A mount point in a directory -/

/-- The root, its child of the name `dir`, and below that a mount point `disk`. -/
def mountTree (dir : List UInt8) : FsState where
  next
    | .children 1 => .list 2
    | .list 2 => .children 1
    | .children 2 => .list 3
    | .list 3 => .children 2
    | r => r
  prev
    | .children 1 => .list 2
    | .list 2 => .children 1
    | .children 2 => .list 3
    | .list 3 => .children 2
    | r => r
  nodes
    | 1 => ⟨[slash], fileTypeRoot, NULL, fun _ => none⟩
    | 2 => ⟨dir, fileTypeDirctory, 1, fun _ => none⟩
    | _ => ⟨ascii "disk", fileTypeMountPoint, 2, fun _ => some .fatOpen⟩
  live := [1, 2, 3]
  root := 1

theorem mountTree_kids (dir : List UInt8) : (mountTree dir).kids 1 = [2] ∧
    (mountTree dir).kids 2 = [3] ∧ (mountTree dir).kids 3 = [] := by
  refine ⟨?_, ?_, ?_⟩
  · exact kids_eq ⟨by decide, .cons_cons ⟨rfl, rfl⟩ (.cons_cons ⟨rfl, rfl⟩ (.singleton _))⟩
      (by decide)
  · exact kids_eq ⟨by decide, .cons_cons ⟨rfl, rfl⟩ (.cons_cons ⟨rfl, rfl⟩ (.singleton _))⟩
      (by decide)
  · exact kids_eq ⟨by decide, .cons_cons ⟨rfl, rfl⟩ (.singleton _)⟩ (by decide)

theorem mountTree_tree (dir : List UInt8) : NodeTree (mountTree dir) := by
  obtain ⟨h1, h2, h3⟩ := mountTree_kids dir
  have hlive : ∀ n ∈ (mountTree dir).live, n = 1 ∨ n = 2 ∨ n = 3 := fun n hn => by
    simpa [mountTree] using hn
  refine ⟨by simp [mountTree], by simp [mountTree], by simp [mountTree], fun n hn => ?_,
    fun n hn m hm => ?_, id, fun n hn m hm => ?_⟩
  · rcases hlive n hn with rfl | rfl | rfl
    · rw [h1]
      exact ⟨by decide, .cons_cons ⟨rfl, rfl⟩ (.cons_cons ⟨rfl, rfl⟩ (.singleton _))⟩
    · rw [h2]
      exact ⟨by decide, .cons_cons ⟨rfl, rfl⟩ (.cons_cons ⟨rfl, rfl⟩ (.singleton _))⟩
    · rw [h3]
      exact ⟨by decide, .cons_cons ⟨rfl, rfl⟩ (.singleton _)⟩
  all_goals
    rcases hlive n hn with rfl | rfl | rfl
    · rw [h1, List.mem_singleton] at hm
      rw [hm]
      simp [mountTree]
    · rw [h2, List.mem_singleton] at hm
      rw [hm]
      simp [mountTree]
    · rw [h3] at hm
      cases hm

theorem mountTree_child (dir c : List UInt8) :
    (mountTree dir).childNamed 1 c = (if dir = c then some 2 else none) ∧
      (mountTree dir).childNamed 2 c = (if ascii "disk" = c then some 3 else none) ∧
      (mountTree dir).childNamed 3 c = none := by
  obtain ⟨h1, h2, h3⟩ := mountTree_kids dir
  rw [FsState.childNamed, FsState.childNamed, FsState.childNamed, h1, h2, h3]
  refine ⟨?_, ?_, rfl⟩ <;> simp [mountTree, List.find?_cons] <;> split <;> simp_all

/-- From the directory to the mount point, which has no children. -/
theorem mountTree_mounted (dir : List UInt8) {path c : List UInt8}
    (hpath : components path = [dir, ascii "disk", c]) (hc : ascii "disk" ≠ c) (e : FsEnv) :
    MountedAt e (mountTree dir) path [dir, ascii "disk"] [c] 3 := by
  obtain ⟨h1, -, -⟩ := mountTree_child dir dir
  obtain ⟨-, h2, -⟩ := mountTree_child dir (ascii "disk")
  obtain ⟨-, -, h3⟩ := mountTree_child dir c
  rw [if_pos rfl] at h1 h2
  refine ⟨hpath, by simp, ?_, by simp [mountTree], rfl, rfl, ?_⟩
  · show descend (mountTree dir).childNamed 1 [dir, ascii "disk"] = some 3
    rw [descend_cons h1, descend_cons h2, descend]
  · rw [findNode_eq (mountTree_tree dir), hpath]
    show Except.ok ((mountTree dir).resolve 1 [dir, ascii "disk", c], _) = _
    -- the mount point does not have that name either
    have hname : ((mountTree dir).nodes 3).name ≠ c := hc
    have htype : ((mountTree dir).nodes 3).type = fileTypeMountPoint := rfl
    simp only [FsState.resolve, h1, h2, h3, if_neg hname, if_pos htype]

/-- The path `/mnt/disk/a` has `a` below the mount point. -/
theorem searchesBelow_mnt : ((mountTree (ascii "mnt")).nodes 3).name = ascii "disk" ∧
    SearchesBelow (ascii "disk") (ascii "/mnt/disk/a") [ascii "a"] := by
  have hmount : MountedAt ⟨fun _ => NULL⟩ (mountTree (ascii "mnt")) (ascii "/mnt/disk/a")
      [ascii "mnt", ascii "disk"] [ascii "a"] 3 :=
    mountTree_mounted (ascii "mnt") (by decide) (by decide) _
  exact ⟨rfl, (searchesBelow_iff hmount).mpr (by decide)⟩

/-- With a directory of the same name above it, the volume is searched for `/disk/a`. -/
theorem mount_name_repeats : MountedAt ⟨fun _ => NULL⟩ (mountTree (ascii "disk"))
      (ascii "/disk/disk/a") [ascii "disk", ascii "disk"] [ascii "a"] 3 ∧
    ¬ SearchesBelow ((mountTree (ascii "disk")).nodes 3).name (ascii "/disk/disk/a")
      [ascii "a"] := by
  refine ⟨mountTree_mounted (ascii "disk") (by decide) (by decide) _, ?_⟩
  rintro ⟨real, hreal, hcomp⟩
  have hsearch : realPath (ascii "disk") (ascii "/disk/disk/a") = some (ascii "/disk/a") := by
    decide
  obtain rfl : ascii "/disk/a" = real := Option.some.inj (hsearch.symm.trans hreal)
  exact absurd hcomp (by decide)

end Raincloud
