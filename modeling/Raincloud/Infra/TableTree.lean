import Raincloud.Infra.Memory

/-!
# Trees of tables in memory

A table is a page of 512 words. A word may point to another table: `child` decodes it. A
table is reached from the root by the list of the indices on the way (`walk`), and the tree
is separated when different ways reach different pages (`TableTree`).

A write that follows the separation changes one way only: hanging an empty table on a free
slot (`TableTree.hang`) adds one way and no entry, and a write to a table of the last level
(`TableTree.setLeaf`) adds no way at all.
-/

namespace Infra

def tableSize : Nat := 4096

/-- The word at an index of a table. -/
def slot (m : Mem) (t i : Nat) : Nat := m.load64 (t + 8 * i)

/-- Indices into tables. -/
def IsPath (p : List Nat) : Prop := ∀ i ∈ p, i < 512

theorem IsPath.take {p q : List Nat} (h : IsPath q) (hp : p <+: q) : IsPath p :=
  fun i hi => h i (hp.subset hi)

theorem isPath_concat {p : List Nat} {i : Nat} : IsPath (p ++ [i]) ↔ IsPath p ∧ i < 512 := by
  simp [IsPath, or_imp, forall_and]

variable (child : Nat → Option Nat)

/-- The table at the end of a path. -/
def walk (m : Mem) : List Nat → Nat → Option Nat
  | [], t => some t
  | i :: p, t => (child (slot m t i)).bind (walk m p)

structure TableTree (m : Mem) (root depth : Nat) : Prop where
  page : ∀ {p t}, IsPath p → p.length ≤ depth → walk child m p root = some t →
    t % tableSize = 0 ∧ t + tableSize ≤ 2 ^ 64
  inj : ∀ {p q t}, IsPath p → p.length ≤ depth → IsPath q → q.length ≤ depth →
    walk child m p root = some t → walk child m q root = some t → p = q

/-- What the word at the end of a path says, if the table is there. -/
def entryAt {β : Type} (leaf : Nat → Option β) (m : Mem) (root : Nat) (p : List Nat) (i : Nat) :
    Option β :=
  (walk child m p root).bind fun t => leaf (slot m t i)

/-- A table of the tree. -/
def IsTable (m : Mem) (root depth t : Nat) : Prop :=
  ∃ p, IsPath p ∧ p.length ≤ depth ∧ walk child m p root = some t

variable {child} {m m' : Mem} {root depth t t' new i j v : Nat} {p q : List Nat}

theorem walk_append (m : Mem) (p q : List Nat) (t : Nat) :
    walk child m (p ++ q) t = (walk child m p t).bind (walk child m q) := by
  induction p generalizing t with
  | nil => rfl
  | cons i p ih =>
    simp only [List.cons_append, walk, Option.bind_assoc]
    exact congrArg _ (funext ih)

theorem walk_concat (m : Mem) (p : List Nat) (i t : Nat) :
    walk child m (p ++ [i]) t = (walk child m p t).bind fun t => child (slot m t i) := by
  rw [walk_append]
  refine congrArg _ (funext fun t => ?_)
  simp only [walk, Option.bind_fun_some]

/-! ## Words of different tables -/

/-- Two words of pages are the same or apart. -/
theorem slot_apart (ht : t % tableSize = 0) (ht' : t' % tableSize = 0) (hi : i < 512)
    (hj : j < 512) (hne : t' ≠ t ∨ j ≠ i) : t' + 8 * j + 8 ≤ t + 8 * i ∨ t + 8 * i + 8 ≤ t' + 8 * j := by
  simp only [tableSize] at ht ht'
  omega

/-- One word of one table is written. -/
theorem slot_store (ht : t % tableSize = 0) (ht' : t' % tableSize = 0) (hi : i < 512)
    (hj : j < 512) (hv : v < 2 ^ 64) :
    slot (m.store64 (t + 8 * i) v) t' j = if t' = t ∧ j = i then v else slot m t' j := by
  unfold slot
  by_cases h : t' = t ∧ j = i
  · rw [if_pos h, h.1, h.2]
    exact Mem.load64_store64 hv
  · rw [if_neg h]
    exact Mem.load64_store64_of_disjoint
      (slot_apart ht ht' hi hj (by tauto))

/-- Tables whose bytes stay keep their words. -/
theorem slot_congr (h : ∀ x, t ≤ x → x < t + tableSize → m' x = m x) (hi : i < 512) :
    slot m' t i = slot m t i := by
  refine Mem.load64_congr fun x h1 h2 => h x (by omega) ?_
  simp only [tableSize]
  omega

/-- A root without children is a tree of one table. -/
theorem tableTree_single (hpage : root % tableSize = 0 ∧ root + tableSize ≤ 2 ^ 64)
    (h : ∀ i, i < 512 → child (slot m root i) = none) :
    TableTree child m root depth ∧ ∀ t, IsTable child m root depth t → t = root := by
  have key : ∀ {p t}, IsPath p → walk child m p root = some t → p = [] ∧ t = root := by
    intro p t hp hw
    cases p with
    | nil => exact ⟨rfl, (Option.some.inj hw).symm⟩
    | cons i p =>
      rw [walk, h i (hp i (by simp)), Option.bind_none] at hw
      exact absurd hw (by simp)
  refine ⟨⟨fun hp _ hw => ?_, fun hp _ hq _ hw hw' => ?_⟩, fun t ⟨p, hp, _, hw⟩ => (key hp hw).2⟩
  · rw [(key hp hw).2]
    exact hpage
  · rw [(key hp hw).1, (key hq hw').1]

/-! ## Memories with the same tables -/

/-- Tables whose words stay lead the same ways. -/
theorem walk_congr (h : ∀ t, IsTable child m root depth t → ∀ i, i < 512 → slot m' t i = slot m t i)
    (hq : IsPath q) (hql : q.length ≤ depth) : walk child m' q root = walk child m q root := by
  induction q using List.reverseRecOn with
  | nil => rfl
  | append_singleton q j ih =>
    obtain ⟨hq, hj⟩ := isPath_concat.mp hq
    rw [List.length_append, List.length_singleton] at hql
    rw [walk_concat, walk_concat, ih hq (by omega)]
    cases hw : walk child m q root with
    | none => rfl
    | some t =>
      rw [Option.bind_some, Option.bind_some, h t ⟨q, hq, by omega, hw⟩ j hj]

theorem TableTree.congr (h : TableTree child m root depth)
    (hsame : ∀ t, IsTable child m root depth t → ∀ i, i < 512 → slot m' t i = slot m t i) :
    TableTree child m' root depth := by
  constructor
  · intro p t hp hpl hw
    rw [walk_congr hsame hp hpl] at hw
    exact h.page hp hpl hw
  · intro p q t hp hpl hq hql hw hw'
    rw [walk_congr hsame hp hpl] at hw
    rw [walk_congr hsame hq hql] at hw'
    exact h.inj hp hpl hq hql hw hw'

theorem isTable_congr
    (hsame : ∀ t, IsTable child m root depth t → ∀ i, i < 512 → slot m' t i = slot m t i) :
    IsTable child m' root depth t ↔ IsTable child m root depth t :=
  exists_congr fun _ => and_congr_right fun hp => and_congr_right fun hpl => by
    rw [walk_congr hsame hp hpl]

/-! ## Changes that keep the tree -/

namespace TableTree

/-- The words of the tables stay, all but one. -/
def OnlySlot (child : Nat → Option Nat) (m m' : Mem) (root depth t i v : Nat) : Prop :=
  ∀ t', IsTable child m root depth t' → ∀ j, j < 512 →
    slot m' t' j = if t' = t ∧ j = i then v else slot m t' j

/-- An empty table hung on a free slot adds one way. -/
theorem walk_hang (h : TableTree child m root depth) (hp : IsPath p) (hlen : p.length < depth)
    (hw : walk child m p root = some t) (hfree : child (slot m t i) = none)
    (hm : OnlySlot child m m' root depth t i v) (hv : child v = some new)
    (hnew : ∀ j, j < 512 → child (slot m' new j) = none) (hq : IsPath q)
    (hql : q.length ≤ depth) :
    walk child m' q root = if q = p ++ [i] then some new else walk child m q root := by
  induction q using List.reverseRecOn with
  | nil => simp [walk]
  | append_singleton q j ih =>
    obtain ⟨hq, hj⟩ := isPath_concat.mp hq
    rw [List.length_append, List.length_singleton] at hql
    rw [walk_concat, walk_concat, ih hq (by omega)]
    by_cases hqp : q = p ++ [i]
    · -- below the new table there is nothing, as there was before
      have hne : q ++ [j] ≠ p ++ [i] := by
        intro he
        have := congrArg List.length (hqp.symm.trans (List.append_inj_left' he rfl))
        simp at this
      rw [if_pos hqp, if_neg hne, hqp, walk_concat, hw]
      simp [hnew j hj, hfree]
    · rw [if_neg hqp]
      cases hwq : walk child m q root with
      | none =>
        have hne : q ++ [j] ≠ p ++ [i] := by
          intro he
          rw [List.append_inj_left' he rfl, hw] at hwq
          exact absurd hwq (by simp)
        rw [if_neg hne, Option.bind_none, Option.bind_none]
      | some t' =>
        rw [Option.bind_some, Option.bind_some, hm t' ⟨q, hq, by omega, hwq⟩ j hj]
        by_cases ht : t' = t ∧ j = i
        · rw [if_pos ht, hv, if_pos]
          rw [h.inj hq (by omega) hp hlen.le (ht.1 ▸ hwq) hw, ht.2]
        · rw [if_neg ht, if_neg]
          intro he
          obtain ⟨rfl, hji⟩ := List.append_inj' he rfl
          rw [hw] at hwq
          exact ht ⟨(Option.some.inj hwq).symm, by simpa using hji⟩

/-- The tables after it are the new one and those before it. -/
theorem isTable_hang (h : TableTree child m root depth) (hp : IsPath p) (hlen : p.length < depth)
    (hw : walk child m p root = some t) (hfree : child (slot m t i) = none)
    (hm : OnlySlot child m m' root depth t i v) (hv : child v = some new)
    (hnew : ∀ j, j < 512 → child (slot m' new j) = none) (ht : IsTable child m' root depth t') :
    t' = new ∨ IsTable child m root depth t' := by
  obtain ⟨q, hq, hql, hwq⟩ := ht
  rw [h.walk_hang hp hlen hw hfree hm hv hnew hq hql] at hwq
  split at hwq
  · exact Or.inl (Option.some.inj hwq).symm
  · exact Or.inr ⟨q, hq, hql, hwq⟩

theorem hang (h : TableTree child m root depth) (hp : IsPath p) (hlen : p.length < depth)
    (hw : walk child m p root = some t) (hfree : child (slot m t i) = none)
    (hm : OnlySlot child m m' root depth t i v) (hv : child v = some new)
    (hnew : ∀ j, j < 512 → child (slot m' new j) = none)
    (hpage : new % tableSize = 0 ∧ new + tableSize ≤ 2 ^ 64)
    (hfresh : ¬IsTable child m root depth new) : TableTree child m' root depth := by
  have hwalk : ∀ {q}, IsPath q → q.length ≤ depth →
      walk child m' q root = if q = p ++ [i] then some new else walk child m q root :=
    h.walk_hang hp hlen hw hfree hm hv hnew
  constructor
  · intro q t' hq hql hwq
    rw [hwalk hq hql] at hwq
    split at hwq
    · exact Option.some.inj hwq ▸ hpage
    · exact h.page hq hql hwq
  · intro q r t' hq hql hr hrl hwq hwr
    rw [hwalk hq hql] at hwq
    rw [hwalk hr hrl] at hwr
    split at hwq <;> split at hwr
    · next h1 h2 => rw [h1, h2]
    · exact absurd ⟨r, hr, hrl, Option.some.inj hwq ▸ hwr⟩ hfresh
    · exact absurd ⟨q, hq, hql, Option.some.inj hwr ▸ hwq⟩ hfresh
    · exact h.inj hq hql hr hrl hwq hwr

/-- No table of the last level has an entry more than before. -/
theorem hang_entryAt {β : Type} {leaf : Nat → Option β} (h : TableTree child m root depth)
    (hp : IsPath p) (hlen : p.length < depth) (hw : walk child m p root = some t)
    (hfree : child (slot m t i) = none) (hm : OnlySlot child m m' root depth t i v)
    (hv : child v = some new) (hnew : ∀ j, j < 512 → child (slot m' new j) = none)
    (hempty : ∀ j, j < 512 → leaf (slot m' new j) = none) (hq : IsPath q) (hql : q.length = depth)
    (hj : j < 512) : entryAt child leaf m' root q j = entryAt child leaf m root q j := by
  unfold entryAt
  rw [h.walk_hang hp hlen hw hfree hm hv hnew hq hql.le]
  split
  · next hqp =>
    -- the new table has no entries, and before it there was no table
    rw [hqp, walk_concat, hw, Option.bind_some, Option.bind_some, hfree, hempty j hj]
    rfl
  · cases hwq : walk child m q root with
    | none => rfl
    | some t' =>
      rw [Option.bind_some, Option.bind_some, hm t' ⟨q, hq, hql.le, hwq⟩ j hj, if_neg]
      rintro ⟨rfl, -⟩
      have := congrArg List.length (h.inj hq hql.le hp hlen.le hwq hw)
      omega

/-- A write to a table of the last level adds no way. -/
theorem walk_setLeaf (h : TableTree child m root depth) (hp : IsPath p) (hlen : p.length = depth)
    (hw : walk child m p root = some t) (hm : OnlySlot child m m' root depth t i v)
    (hq : IsPath q) (hql : q.length ≤ depth) : walk child m' q root = walk child m q root := by
  induction q using List.reverseRecOn with
  | nil => rfl
  | append_singleton q j ih =>
    obtain ⟨hq, hj⟩ := isPath_concat.mp hq
    rw [List.length_append, List.length_singleton] at hql
    rw [walk_concat, walk_concat, ih hq (by omega)]
    cases hwq : walk child m q root with
    | none => rfl
    | some t' =>
      rw [Option.bind_some, Option.bind_some, hm t' ⟨q, hq, by omega, hwq⟩ j hj, if_neg]
      rintro ⟨rfl, -⟩
      have := congrArg List.length (h.inj hq (by omega) hp hlen.le hwq hw)
      omega

theorem setLeaf (h : TableTree child m root depth) (hp : IsPath p) (hlen : p.length = depth)
    (hw : walk child m p root = some t) (hm : OnlySlot child m m' root depth t i v) :
    TableTree child m' root depth := by
  have hwalk : ∀ {q}, IsPath q → q.length ≤ depth →
      walk child m' q root = walk child m q root := h.walk_setLeaf hp hlen hw hm
  constructor
  · intro q t' hq hql hwq
    exact h.page hq hql (hwalk hq hql ▸ hwq)
  · intro q r t' hq hql hr hrl hwq hwr
    exact h.inj hq hql hr hrl (hwalk hq hql ▸ hwq) (hwalk hr hrl ▸ hwr)

/-- It changes the entry that it writes and no other. -/
theorem setLeaf_entryAt {β : Type} {leaf : Nat → Option β} (h : TableTree child m root depth)
    (hp : IsPath p) (hlen : p.length = depth) (hw : walk child m p root = some t)
    (hm : OnlySlot child m m' root depth t i v) (hq : IsPath q) (hql : q.length = depth)
    (hj : j < 512) : entryAt child leaf m' root q j
      = if q = p ∧ j = i then leaf v else entryAt child leaf m root q j := by
  unfold entryAt
  rw [h.walk_setLeaf hp hlen hw hm hq hql.le]
  cases hwq : walk child m q root with
  | none =>
    have hne : ¬ (q = p ∧ j = i) := fun he => by
      rw [he.1, hw] at hwq
      cases hwq
    rw [if_neg hne, Option.bind_none, Option.bind_none]
  | some t' =>
    rw [Option.bind_some, Option.bind_some, hm t' ⟨q, hq, hql.le, hwq⟩ j hj]
    by_cases hqp : q = p ∧ j = i
    · rw [hqp.1, hw] at hwq
      rw [if_pos hqp, if_pos ⟨(Option.some.inj hwq).symm, hqp.2⟩]
    · rw [if_neg hqp, if_neg]
      rintro ⟨rfl, hji⟩
      exact hqp ⟨h.inj hq hql.le hp hlen.le hwq hw, hji⟩

end TableTree

end Infra
