import Mathlib.Tactic

/-!
# Tilings of an interval

A list of pieces, each with a start and a size, tiles `[a, e)` when the first starts at `a`,
each following one starts where the one before it ends, and the last one ends at `e`.
-/

namespace Infra

universe u

variable {β : Type u} (start size : β → Nat)

def Tiles : Nat → List β → Nat → Prop
  | a, [], e => a = e
  | a, b :: bs, e => start b = a ∧ Tiles (a + size b) bs e

namespace Tiles

variable {start size} {a e : Nat} {l l' : List β} {b c : β}

theorem append_iff : Tiles start size a (l ++ l') e ↔
    ∃ c, Tiles start size a l c ∧ Tiles start size c l' e := by
  induction l generalizing a with
  | nil => simp [Tiles]
  | cons b l ih =>
    simp only [List.cons_append, Tiles, ih]
    constructor
    · rintro ⟨h1, c, h2, h3⟩
      exact ⟨c, ⟨h1, h2⟩, h3⟩
    · rintro ⟨c, ⟨h1, h2⟩, h3⟩
      exact ⟨h1, c, h2, h3⟩

/-- The sizes add up to the length of the interval. -/
theorem add_sum (h : Tiles start size a l e) : a + (l.map size).sum = e := by
  induction l generalizing a with
  | nil =>
    have he : a = e := h
    simpa using he
  | cons b l ih =>
    have := ih h.2
    simp only [List.map_cons, List.sum_cons]
    omega

theorem le (h : Tiles start size a l e) : a ≤ e := by
  have := h.add_sum
  omega

theorem bounds (h : Tiles start size a l e) (hb : b ∈ l) :
    a ≤ start b ∧ start b + size b ≤ e := by
  obtain ⟨l₁, l₂, rfl⟩ := List.append_of_mem hb
  obtain ⟨c, h1, h2, h3⟩ := append_iff.mp h
  have := h1.le
  have := h3.le
  omega

/-- The pieces come in order. -/
theorem pairwise (h : Tiles start size a l e) :
    l.Pairwise fun b c => start b + size b ≤ start c := by
  induction l generalizing a with
  | nil => exact .nil
  | cons b l ih =>
    refine List.pairwise_cons.mpr ⟨fun c hc => ?_, ih h.2⟩
    have := (h.2.bounds hc).1
    have := h.1
    omega

/-- Pieces with different starts do not overlap. -/
theorem apart (h : Tiles start size a l e) (hb : b ∈ l) (hc : c ∈ l) (hne : start b ≠ start c) :
    start b + size b ≤ start c ∨ start c + size c ≤ start b := by
  have hp := h.pairwise
  induction l generalizing a with
  | nil => simp at hb
  | cons d l ih =>
    rw [List.pairwise_cons] at hp
    rcases List.mem_cons.mp hb with rfl | hb' <;> rcases List.mem_cons.mp hc with rfl | hc'
    · exact absurd rfl hne
    · exact Or.inl (hp.1 c hc')
    · exact Or.inr (hp.1 b hb')
    · exact ih h.2 hb' hc' hp.2

/-- Distinct pieces of positive size start at distinct places. -/
theorem nodup_starts (h : Tiles start size a l e) (hpos : ∀ b ∈ l, 0 < size b) :
    (l.map start).Nodup := by
  rw [List.Nodup, List.pairwise_map]
  refine h.pairwise.imp_of_mem fun hb _ hle heq => ?_
  have := hpos _ hb
  omega

end Tiles

end Infra
