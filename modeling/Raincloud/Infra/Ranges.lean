import Mathlib.Tactic
import Mathlib.Order.CompletePartialOrder

/-!
# Partitions into ranges

A range is a start and a size. A list of ranges partitions a set of numbers when no two of
them overlap and together they are the set. Reordering, cutting a range in two and joining
two that touch keep a partition.
-/

namespace Infra

/-- Two different members of a sorted list are in one order or the other. -/
theorem pairwise_or {α : Type*} {R : α → α → Prop} {l : List α} (h : l.Pairwise R) {x y : α}
    (hx : x ∈ l) (hy : y ∈ l) (hne : x ≠ y) : R x y ∨ R y x := by
  have : Std.Symm fun x y => R x y ∨ R y x := ⟨fun _ _ h => h.symm⟩
  exact (h.imp (S := fun x y => R x y ∨ R y x) Or.inl).forall hx hy hne

/-- The numbers of a range. -/
def rangeArea (r : Nat × Nat) : Set Nat := Set.Ico r.1 (r.1 + r.2)

structure Partition (rs : List (Nat × Nat)) (S : Set Nat) : Prop where
  apart : rs.Pairwise fun r r' => Disjoint (rangeArea r) (rangeArea r')
  union : ∀ x, x ∈ S ↔ ∃ r ∈ rs, x ∈ rangeArea r

namespace Partition

variable {rs rs' : List (Nat × Nat)} {S : Set Nat} {r r' : Nat × Nat} {a n k : Nat}

theorem perm (h : Partition rs S) (hp : rs.Perm rs') : Partition rs' S where
  apart := (hp.pairwise_iff fun hd => hd.symm).mp h.apart
  union x := by
    rw [h.union]
    exact exists_congr fun r => and_congr_left fun _ => hp.mem_iff

theorem rangeArea_split (a n k : Nat) :
    rangeArea (a, n + k) = rangeArea (a, n) ∪ rangeArea (a + n, k) := by
  ext x
  simp only [rangeArea, Set.mem_union, Set.mem_Ico]
  omega

/-- A range cut in two, or two joined. -/
theorem split_iff : Partition ((a, n + k) :: rs) S ↔ Partition ((a, n) :: (a + n, k) :: rs) S := by
  have hsplit := rangeArea_split a n k
  have hdisj : Disjoint (rangeArea (a, n)) (rangeArea (a + n, k)) := by
    rw [Set.disjoint_left]
    intro x hx hx'
    have h1 := hx.2
    have h2 := hx'.1
    simp only at h1 h2
    omega
  constructor
  · rintro ⟨hap, hun⟩
    rw [List.pairwise_cons] at hap
    refine ⟨?_, fun x => ?_⟩
    · refine List.pairwise_cons.mpr ⟨fun r hr => ?_, List.pairwise_cons.mpr ⟨fun r hr => ?_, hap.2⟩⟩
      · rcases List.mem_cons.mp hr with rfl | hr
        · exact hdisj
        · exact (hap.1 r hr).mono_left (hsplit ▸ Set.subset_union_left)
      · exact (hap.1 r hr).mono_left (hsplit ▸ Set.subset_union_right)
    · rw [hun]
      simp only [List.exists_mem_cons_iff, hsplit, Set.mem_union, or_assoc]
  · rintro ⟨hap, hun⟩
    rw [List.pairwise_cons, List.pairwise_cons] at hap
    refine ⟨List.pairwise_cons.mpr ⟨fun r hr => ?_, hap.2.2⟩, fun x => ?_⟩
    · rw [hsplit, Set.disjoint_union_left]
      exact ⟨hap.1 r (List.mem_cons_of_mem _ hr), hap.2.1 r hr⟩
    · rw [hun]
      simp only [List.exists_mem_cons_iff, hsplit, Set.mem_union, or_assoc]

/-- What the first ranges of a partition hold is what the others leave. -/
theorem mem_left (h : Partition (rs ++ rs') S) {x : Nat} :
    (∃ r ∈ rs, x ∈ rangeArea r) ↔ x ∈ S ∧ ∀ r ∈ rs', x ∉ rangeArea r := by
  have hap := (List.pairwise_append.mp h.apart).2.2
  rw [h.union]
  constructor
  · rintro ⟨r, hr, hx⟩
    exact ⟨⟨r, List.mem_append_left _ hr, hx⟩,
      fun r' hr' hx' => Set.disjoint_left.mp (hap r hr r' hr') hx hx'⟩
  · rintro ⟨⟨r, hr, hx⟩, hnot⟩
    rcases List.mem_append.mp hr with hr | hr
    · exact ⟨r, hr, hx⟩
    · exact absurd hx (hnot r hr)

/-- Two ranges of a partition, one of them before the other. -/
theorem lt_or_lt (h : Partition (r :: rs) S) (hr' : r' ∈ rs) (hpos : 0 < r.2) (hpos' : 0 < r'.2) :
    r.1 + r.2 ≤ r'.1 ∨ r'.1 + r'.2 ≤ r.1 := by
  have hd := (List.pairwise_cons.mp h.apart).1 r' hr'
  rw [Set.disjoint_left] at hd
  by_contra hcon
  rcases le_total r.1 r'.1 with hle | hle
  · exact hd (a := r'.1) ⟨hle, by omega⟩ ⟨le_rfl, by omega⟩
  · exact hd (a := r.1) ⟨le_rfl, by omega⟩ ⟨hle, by omega⟩

end Partition

end Infra
