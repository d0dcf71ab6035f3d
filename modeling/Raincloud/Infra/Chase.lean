import Mathlib.Tactic

/-!
# Following links

From `x` one goes on to `f x`, and from there to the next, until the next is `e`. Where the
values of `f` are bounded there are two cases: the end is reached after boundedly many links,
or a cycle is reached and the end never is.
-/

namespace Infra.Chase

variable {α : Type*} {f : α → α} {e : α}

/-- The end is the `n`-th value behind `x`, and none before it. -/
inductive EndsIn (f : α → α) (e : α) : α → Nat → Prop
  | last {x : α} (h : f x = e) : EndsIn f e x 1
  | next {x : α} {n : Nat} (h : f x ≠ e) (hn : EndsIn f e (f x) n) : EndsIn f e x (n + 1)

/-- A link that is followed. -/
def Link (f : α → α) (e x y : α) : Prop := f x = y ∧ y ≠ e

/-- The links from `x` lead into a cycle. -/
def ReachesCycle (f : α → α) (e x : α) : Prop :=
  ∃ y, Relation.ReflTransGen (Link f e) x y ∧ Relation.TransGen (Link f e) y y

namespace EndsIn

variable {x : α} {n m : Nat}

theorem pos (h : EndsIn f e x n) : 0 < n := by
  cases h <;> exact Nat.succ_pos _

theorem unique (h : EndsIn f e x n) (h' : EndsIn f e x m) : n = m := by
  induction h generalizing m with
  | last h =>
    cases h' with
    | last => rfl
    | next hne => exact absurd h hne
  | next hne _ ih =>
    cases h' with
    | last h => exact absurd h hne
    | next _ hm => rw [ih hm]

/-- The end is as near to a later value as the value is far. -/
theorem iterate (h : EndsIn f e x n) {i : Nat} (hi : i < n) : EndsIn f e (f^[i] x) (n - i) := by
  induction h generalizing i with
  | last h =>
    rw [Nat.lt_one_iff.mp hi]
    exact last h
  | next hne hn ih =>
    cases i with
    | zero => exact next hne hn
    | succ i =>
      rw [Function.iterate_succ_apply, Nat.add_sub_add_right]
      exact ih (Nat.lt_of_succ_lt_succ hi)

/-- No value before the end is met twice. -/
theorem injective (h : EndsIn f e x n) {i j : Nat} (hi : i < n) (hj : j < n)
    (heq : f^[i] x = f^[j] x) : i = j := by
  have hrest := (h.iterate hi).unique (heq ▸ h.iterate hj)
  omega

/-- From a value that is met again and again the end is not reached. -/
theorem not_cycle (h : EndsIn f e x n) : ¬ ReachesCycle f e x := by
  induction h with
  | last h =>
    rintro ⟨y, hreach, hcycle⟩
    -- no link leads on from the last value
    have hstuck : ∀ z, ¬ Link f e _ z := fun z hz => hz.2 (hz.1.symm.trans h)
    rcases hreach.cases_head with rfl | ⟨z, hz, -⟩
    · obtain ⟨z, hz, -⟩ := Relation.TransGen.head'_iff.mp hcycle
      exact hstuck z hz
    · exact hstuck z hz
  | next _ _ ih =>
    rintro ⟨y, hreach, hcycle⟩
    rcases hreach.cases_head with rfl | ⟨z, ⟨rfl, -⟩, hrest⟩
    · obtain ⟨z, ⟨rfl, -⟩, hback⟩ := Relation.TransGen.head'_iff.mp hcycle
      exact ih ⟨_, hback, hcycle⟩
    · exact ih ⟨y, hrest, hcycle⟩

end EndsIn

/-- Before the end all values are followed. -/
theorem endsIn_of_iterate {x : α} {n : Nat} (h : f^[n + 1] x = e) :
    ∃ m ≤ n + 1, EndsIn f e x m := by
  induction n generalizing x with
  | zero => exact ⟨1, Nat.le_refl 1, .last h⟩
  | succ n ih =>
    by_cases hx : f x = e
    · exact ⟨1, by omega, .last hx⟩
    · rw [Function.iterate_succ_apply] at h
      obtain ⟨m, hm, hends⟩ := ih h
      exact ⟨m + 1, Nat.succ_le_succ hm, .next hx hends⟩

section Bounded

variable {f : Nat → Nat} {e x n N : Nat}

/-- The values before the end are distinct, so there are at most `N` behind the first one. -/
theorem EndsIn.le_bound (h : EndsIn f e x n) (hN : ∀ y, f y < N) : n ≤ N + 1 := by
  have hpos := h.pos
  let value : Fin (n - 1) → Fin N := fun i => ⟨f^[i + 1] x, by
    rw [Function.iterate_succ_apply']
    exact hN _⟩
  have hinj : Function.Injective value := fun i j hij => by
    have heq : f^[i + 1] x = f^[j + 1] x := congrArg Fin.val hij
    have hle := h.injective (by omega) (by omega) heq
    exact Fin.ext (Nat.succ.inj hle)
  have hcard := Fintype.card_le_of_injective value hinj
  rw [Fintype.card_fin, Fintype.card_fin] at hcard
  omega

/-- Without the end, two of the values are the same and the links between them a cycle. -/
theorem reachesCycle_of_ne (hN : ∀ y, f y < N) (h : ∀ n, f^[n + 1] x ≠ e) :
    ReachesCycle f e x := by
  have hlink : ∀ i, Link f e (f^[i] x) (f^[i + 1] x) := fun i =>
    ⟨(Function.iterate_succ_apply' f i x).symm, h i⟩
  have hpath : ∀ i k, Relation.ReflTransGen (Link f e) (f^[i] x) (f^[i + k] x) := by
    intro i k
    induction k with
    | zero => exact .refl
    | succ k ih => exact ih.tail (hlink (i + k))
  -- `N + 1` values below `N`
  let value : Fin (N + 1) → Fin N := fun i => ⟨f^[i + 1] x, by
    rw [Function.iterate_succ_apply']
    exact hN _⟩
  have hnot : ¬ Function.Injective value := fun hinj => by
    have hcard := Fintype.card_le_of_injective value hinj
    rw [Fintype.card_fin, Fintype.card_fin] at hcard
    omega
  simp only [Function.Injective, not_forall] at hnot
  obtain ⟨i, j, hij, hne⟩ := hnot
  have heq : f^[i + 1] x = f^[j + 1] x := congrArg Fin.val hij
  wlog hlt : i < j generalizing i j
  · exact this j i hij.symm (Ne.symm hne) heq.symm (by omega)
  obtain ⟨k, hk⟩ : ∃ k, (j : Nat) + 1 = i + 1 + 1 + k := ⟨j - i - 1, by omega⟩
  have hstart := hpath 0 (i + 1)
  rw [Nat.zero_add] at hstart
  have hback := hpath (i + 1 + 1) k
  rw [← hk, ← heq] at hback
  exact ⟨f^[i + 1] x, hstart, Relation.TransGen.head' (hlink (i + 1)) hback⟩

/-- The end is reached exactly if no cycle is. -/
theorem ends_iff (hN : ∀ y, f y < N) : (∃ n, EndsIn f e x n) ↔ ¬ ReachesCycle f e x := by
  constructor
  · rintro ⟨n, h⟩
    exact h.not_cycle
  · intro hcycle
    by_contra hnone
    refine hcycle (reachesCycle_of_ne hN fun n hn => hnone ?_)
    obtain ⟨m, -, hends⟩ := endsIn_of_iterate hn
    exact ⟨m, hends⟩

end Bounded

end Infra.Chase
