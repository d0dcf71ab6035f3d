import Mathlib.Data.List.Cycle
import Raincloud.Infra.Ring

/-!
# Families of rings

Several rings in one store, with no node that is a head for good: a ring is the list of its nodes,
and any of them may come first. Where one node of a ring is replaced by a few, or by none, the
links of the other rings stay.
-/

namespace Infra

universe u v

/-! ## Replacing a node -/

section Splice

variable {α : Type u} [DecidableEq α] {p x y : α} {W A B l : List α} {R : List (List α)}

/-- `W` in the place of `p`. -/
def splice (p : α) (W l : List α) : List α := l.flatMap fun y => if y = p then W else [y]

def insertAfter (p x : α) : List α → List α := splice p [p, x]

def insertBefore (p x : α) : List α → List α := splice p [x, p]

def without (x : α) : List α → List α := splice x []

def replaced (p x : α) : List α → List α := splice p [x]

example : insertAfter 2 9 [1, 2, 3] = [1, 2, 9, 3] ∧ insertBefore 1 9 [1, 2] = [9, 1, 2] ∧
    without 2 [1, 2, 3] = [1, 3] ∧ replaced 3 9 [1, 2, 3] = [1, 2, 9] := by decide

theorem splice_of_notMem (h : p ∉ l) : splice p W l = l := by
  have hsame : ∀ y ∈ l, (if y = p then W else [y]) = [y] := fun y hy => by
    rw [if_neg]
    rintro rfl
    exact h hy
  unfold splice
  rw [List.flatMap_congr hsame, List.flatMap_singleton']

theorem splice_split (hA : p ∉ A) (hB : p ∉ B) : splice p W (A ++ p :: B) = A ++ (W ++ B) := by
  have hAs := splice_of_notMem (W := W) hA
  have hBs := splice_of_notMem (W := W) hB
  unfold splice at hAs hBs ⊢
  rw [List.flatMap_append, List.flatMap_cons, if_pos rfl, hAs, hBs]

theorem mem_splice : y ∈ splice p W l ↔ y ∈ l ∧ y ≠ p ∨ y ∈ W ∧ p ∈ l := by
  unfold splice
  rw [List.mem_flatMap]
  constructor
  · rintro ⟨z, hz, hy⟩
    split at hy
    · next he => exact .inr ⟨hy, he ▸ hz⟩
    · next he =>
      rw [List.mem_singleton] at hy
      exact .inl ⟨hy ▸ hz, hy ▸ he⟩
  · rintro (⟨hy, hne⟩ | ⟨hy, hp⟩)
    · exact ⟨y, hy, by rw [if_neg hne]; exact List.mem_singleton_self y⟩
    · exact ⟨p, hp, by rwa [if_pos rfl]⟩

theorem nodup_splice (hl : l.Nodup) (hW : W.Nodup) (hnew : ∀ y ∈ W, y ≠ p → y ∉ l) :
    (splice p W l).Nodup := by
  unfold splice
  rw [List.nodup_flatMap]
  refine ⟨fun y _ => ?_, hl.imp_of_mem fun {y z} hy hz hne => ?_⟩
  · split
    · exact hW
    · exact List.nodup_singleton y
  · change List.Disjoint (if y = p then W else [y]) (if z = p then W else [z])
    intro x hxy hxz
    split at hxy <;> split at hxz
    · next h1 h2 => exact hne (h1.trans h2.symm)
    · next h1 h2 =>
      obtain rfl := List.mem_singleton.mp hxz
      exact hnew x hxy h2 hz
    · next h1 h2 =>
      obtain rfl := List.mem_singleton.mp hxy
      exact hnew x hxz h1 hy
    · exact hne ((List.mem_singleton.mp hxy).symm.trans (List.mem_singleton.mp hxz))

theorem flatten_splice (R : List (List α)) : (R.map (splice p W)).flatten = splice p W R.flatten := by
  induction R with
  | nil => rfl
  | cons l R ih =>
    rw [List.map_cons, List.flatten_cons, List.flatten_cons, ih]
    exact List.flatMap_append.symm

/-- Without repetition a node is in one list. -/
theorem eq_of_mem_flatten (hR : R.flatten.Nodup) {k : List α} (hl : l ∈ R) (hk : k ∈ R)
    (hyl : y ∈ l) (hyk : y ∈ k) : l = k := by
  by_contra hne
  have : Std.Symm (@List.Disjoint α) := ⟨fun _ _ h => h.symm⟩
  have hdis := (List.nodup_flatten.mp hR).2
  exact hdis.forall hl hk hne hyl hyk

end Splice

/-! ## Rings without a head -/

namespace LinkStore

variable {σ : Type u} {α : Type v} [LinkStore σ α] {s s' : σ} {h p x y : α} {l A B W : List α}
  {R : List (List α)}

/-- Each node is linked to the one behind it, and the last one to the first. -/
def Closed (s : σ) (l : List α) : Prop := Cycle.Chain (Linked s) (l : Cycle α)

theorem ring_iff : Ring s h l ↔ (h :: l).Nodup ∧ Closed s (h :: l) := by
  unfold Closed
  rw [Cycle.chain_coe_cons]
  exact ⟨fun hr => ⟨hr.nodup, hr.chain⟩, fun hr => ⟨hr.1, hr.2⟩⟩

/-- Any node may come first. -/
theorem Closed.rotate (hc : Closed s (A ++ B)) : Closed s (B ++ A) := by
  have he : ((B ++ A : List α) : Cycle α) = (A ++ B : List α) :=
    Cycle.coe_eq_coe.mpr List.isRotated_append
  unfold Closed
  rwa [he]

theorem closed_nil (s : σ) : Closed s ([] : List α) := Cycle.Chain.nil _

theorem Closed.congr (hc : Closed s l) (hs : ∀ y ∈ l, SameLinks s s' y) : Closed s' l := by
  cases l with
  | nil => exact closed_nil s'
  | cons h l =>
    unfold Closed at hc ⊢
    rw [Cycle.chain_coe_cons] at hc ⊢
    refine linked_congr hc (fun y hy => (hs y ?_).1) fun y hy => (hs y ?_).2
    · rwa [← List.cons_append, List.dropLast_concat] at hy
    · rw [List.tail_cons, List.mem_append, List.mem_singleton] at hy
      exact List.mem_cons.mpr hy.symm

/-- The neighbours of a node, which are nodes of the ring, point back. -/
theorem Ring.inverse (hr : Ring s h l) :
    prev s (next s h) = h ∧ next s (prev s h) = h ∧ next s h ∈ h :: l ∧ prev s h ∈ h :: l := by
  refine ⟨?_, ?_, hr.next_head ▸ Ring.headD_mem_cons h l, hr.prev_head ▸ Ring.getLastD_mem h l⟩
  · cases l with
    | nil => rw [hr.next_head, List.headD_nil, hr.prev_head, List.getLastD_nil]
    | cons a l =>
      rw [hr.next_head, List.headD_cons, Ring.prev_mem (A := []) (B := l) hr, List.getLastD_nil]
  · rw [hr.prev_head]
    rcases List.eq_nil_or_concat l with rfl | ⟨k, a, rfl⟩
    · rw [List.getLastD_nil, hr.next_head, List.headD_nil]
    · rw [List.concat_eq_append] at hr ⊢
      rw [List.getLastD_concat, Ring.next_mem (A := k) (B := []) hr, List.headD_nil]

/-- The rings of `R` have no node in common. An empty list is no ring at all. -/
structure Rings (s : σ) (R : List (List α)) : Prop where
  nodup : R.flatten.Nodup
  closed : ∀ l ∈ R, Closed s l

namespace Rings

theorem mem_turn : y ∈ A ++ p :: B ↔ y ∈ p :: (B ++ A) := by
  simp only [List.mem_append, List.mem_cons]
  tauto

/-- A ring turned so that one of its nodes comes first. -/
theorem turn (hR : Rings s R) (hp : p ∈ R.flatten) : ∃ A B, A ++ p :: B ∈ R ∧
    Ring s p (B ++ A) ∧ ∀ y ∈ p :: (B ++ A), y ∈ R.flatten := by
  obtain ⟨l, hl, hpl⟩ := List.mem_flatten.mp hp
  obtain ⟨A, B, rfl⟩ := List.append_of_mem hpl
  have hnd : (A ++ p :: B).Nodup := (List.nodup_flatten.mp hR.nodup).1 _ hl
  refine ⟨A, B, hl, ring_iff.mpr ⟨?_, (hR.closed _ hl).rotate⟩, fun y hy => ?_⟩
  · rwa [← List.cons_append, List.nodup_append_comm]
  · exact List.mem_flatten_of_mem hl (mem_turn.mpr hy)

/-- `next` and `prev` are inverse to each other. -/
theorem inverse (hR : Rings s R) (hp : p ∈ R.flatten) :
    prev s (next s p) = p ∧ next s (prev s p) = p := by
  obtain ⟨A, B, -, hring, -⟩ := hR.turn hp
  exact ⟨hring.inverse.1, hring.inverse.2.1⟩

/-- The neighbours of a node are on its ring. -/
theorem neighbours (hR : Rings s R) (hp : p ∈ R.flatten) :
    ∃ l ∈ R, p ∈ l ∧ next s p ∈ l ∧ prev s p ∈ l := by
  obtain ⟨A, B, hmem, hring, -⟩ := hR.turn hp
  obtain ⟨-, -, hn, hpr⟩ := hring.inverse
  exact ⟨_, hmem, mem_turn.mpr List.mem_cons_self, mem_turn.mpr hn, mem_turn.mpr hpr⟩

/-- One node of a ring is replaced, and no other ring is touched. -/
theorem replace [DecidableEq α] (hR : Rings s R) (hl : A ++ p :: B ∈ R) (hW : W.Nodup)
    (hnew : ∀ y ∈ W, y ≠ p → y ∉ R.flatten) (hring : Closed s' (W ++ (B ++ A)))
    (hother : ∀ y ∈ R.flatten, y ∉ p :: (B ++ A) → SameLinks s s' y) :
    Rings s' (R.map (splice p W)) := by
  constructor
  · rw [flatten_splice]
    exact nodup_splice hR.nodup hW hnew
  · intro k' hk'
    obtain ⟨k, hk, rfl⟩ := List.mem_map.mp hk'
    have hnd := (List.nodup_flatten.mp hR.nodup).1 _ hl
    by_cases hpk : p ∈ k
    · -- the ring of `p`, turned back
      obtain rfl := eq_of_mem_flatten hR.nodup hl hk (List.mem_append_right A List.mem_cons_self) hpk
      rw [List.nodup_middle, List.nodup_cons, List.mem_append, not_or] at hnd
      rw [splice_split hnd.1.1 hnd.1.2]
      rw [← List.append_assoc] at hring
      exact hring.rotate
    · rw [splice_of_notMem hpk]
      refine (hR.closed k hk).congr fun y hy =>
        hother y (List.mem_flatten_of_mem hk hy) fun hyl => ?_
      have hkl := eq_of_mem_flatten hR.nodup hl hk (mem_turn.mpr hyl) hy
      exact hpk (hkl ▸ List.mem_append_right A List.mem_cons_self)

end Rings

end LinkStore

end Infra
