import Mathlib.Tactic

/-!
# Tokens of a list

A token is a maximal run of elements with a property, given by where it starts and where it ends.
The tokens from a position on are found one by one: skip what has not the property, take what has
it, and go on behind it.
-/

namespace Infra

variable {α : Type} {p : α → Prop} {l : List α} {a b q q' : Nat} {ts : List (Nat × Nat)}

/-- From `a` on, and `b` is the first position behind it. -/
structure IsToken (p : α → Prop) (l : List α) (a b : Nat) : Prop where
  lt : a < b
  le : b ≤ l.length
  inside : ∀ i x, a ≤ i → i < b → l[i]? = some x → p x
  before : ∀ i x, a = i + 1 → l[i]? = some x → ¬ p x
  after : ∀ x, l[b]? = some x → ¬ p x

/-- The tokens that start at `q` or behind it: all of them, each once and in order. -/
structure TokensFrom (p : α → Prop) (l : List α) (q : Nat) (ts : List (Nat × Nat)) : Prop where
  mem : ∀ t, t ∈ ts ↔ IsToken p l t.1 t.2 ∧ q ≤ t.1
  sorted : ts.Pairwise fun t t' => t.2 < t'.1

/-- Every position of a token holds an element with the property. -/
theorem IsToken.get (h : IsToken p l a b) {i : Nat} (h1 : a ≤ i) (h2 : i < b) :
    ∃ x, l[i]? = some x ∧ p x := by
  have hi : i < l.length := Nat.lt_of_lt_of_le h2 h.le
  exact ⟨l[i], List.getElem?_eq_getElem hi, h.inside i l[i] h1 h2 (List.getElem?_eq_getElem hi)⟩

/-- No token reaches another one's end. -/
theorem IsToken.not_inside (h : IsToken p l a b) {c d : Nat} (h' : IsToken p l c d) (h1 : a ≤ d) :
    ¬ d < b := fun h2 => by
  obtain ⟨x, hx, hp⟩ := h.get h1 h2
  exact h'.after x hx hp

/-- A token is the only one that starts where it does. -/
theorem IsToken.end_eq {d : Nat} (h : IsToken p l a b) (h' : IsToken p l a d) : b = d := by
  have h1 := h.not_inside h' (Nat.le_of_lt h'.lt)
  have h2 := h'.not_inside h (Nat.le_of_lt h.lt)
  omega

/-- Nothing is left. -/
theorem TokensFrom.nil (h : ∀ i x, q ≤ i → l[i]? = some x → ¬ p x) : TokensFrom p l q [] := by
  refine ⟨fun t => ⟨fun ht => absurd ht List.not_mem_nil, fun ⟨ht, hq⟩ => ?_⟩, List.Pairwise.nil⟩
  obtain ⟨x, hx, hp⟩ := ht.get (Nat.le_refl t.1) ht.lt
  exact absurd hp (h t.1 x hq hx)

/-- A token that starts at `q` or behind it is the first one or starts behind that. -/
theorem IsToken.first_or_later (h : IsToken p l a b)
    (hskip : ∀ i x, q ≤ i → i < a → l[i]? = some x → ¬ p x) {c d : Nat} (h' : IsToken p l c d)
    (hc : q ≤ c) : c = a ∨ b < c := by
  obtain ⟨x, hx, hp⟩ := h'.get (Nat.le_refl c) h'.lt
  rcases Nat.lt_trichotomy c a with hlt | heq | hgt
  · exact absurd hp (hskip c x hc hlt hx)
  · exact .inl heq
  · refine .inr (Nat.lt_of_not_le fun hle => ?_)
    rcases Nat.eq_or_lt_of_le hle with rfl | hlt
    · exact h.after x hx hp
    · obtain ⟨y, hy, hpy⟩ := h.get (i := c - 1) (by omega) (by omega)
      exact h'.before (c - 1) y (by omega) hy hpy

/-- One token more in front. -/
theorem TokensFrom.cons (h : IsToken p l a b) (hqa : q ≤ a)
    (hskip : ∀ i x, q ≤ i → i < a → l[i]? = some x → ¬ p x) (hts : TokensFrom p l q' ts)
    (hb : b ≤ q') (hq' : q' ≤ b + 1) : TokensFrom p l q ((a, b) :: ts) := by
  have hlater : ∀ t ∈ ts, b < t.1 := fun t ht => by
    obtain ⟨htok, hle⟩ := (hts.mem t).mp ht
    have hqt : q ≤ t.1 := hqa.trans ((Nat.le_of_lt h.lt).trans (hb.trans hle))
    refine (h.first_or_later hskip htok hqt).resolve_left fun he => ?_
    have := h.lt
    omega
  refine ⟨fun t => ?_, List.pairwise_cons.mpr ⟨hlater, hts.sorted⟩⟩
  rw [List.mem_cons]
  constructor
  · rintro (rfl | ht)
    · exact ⟨h, hqa⟩
    · have := hlater t ht
      have := h.lt
      exact ⟨((hts.mem t).mp ht).1, by omega⟩
  · rintro ⟨htok, hq⟩
    rcases h.first_or_later hskip htok hq with he | hlt
    · rw [he] at htok
      exact .inl (Prod.ext he (htok.end_eq h))
    · exact .inr ((hts.mem t).mpr ⟨htok, by omega⟩)

end Infra
