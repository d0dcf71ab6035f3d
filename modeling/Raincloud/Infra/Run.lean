import Mathlib.Tactic
import Mathlib.Order.CompletePartialOrder

/-!
# Runs of a labelled machine

A machine has states to start from and steps that carry a label. What holds at the start and
survives every step holds in every reachable state; a machine may be held to steps that
meet a condition on the state before and the label. A set that takes in another one at each step
is the union of all of them.
-/

namespace Infra

universe u v

structure Machine (σ : Type u) (α : Type v) where
  start : σ → Prop
  step : σ → α → σ → Prop

namespace Machine

variable {σ : Type u} {α : Type v} {M : Machine σ α} {s : σ}

inductive Reachable (M : Machine σ α) : σ → Prop
  | start {s : σ} (h : M.start s) : Reachable M s
  | step {s s' : σ} {a : α} (hs : Reachable M s) (h : M.step s a s') : Reachable M s'

/-- What holds at the start and survives every step holds in every reachable state. -/
theorem Reachable.invariant (h : M.Reachable s) (Inv : σ → Prop) (hstart : ∀ s, M.start s → Inv s)
    (hstep : ∀ s a s', Inv s → M.step s a s' → Inv s') : Inv s := by
  induction h with
  | start h => exact hstart _ h
  | step _ h ih => exact hstep _ _ _ ih h

/-- The machine held to the steps that meet `ok`. -/
def restrict (M : Machine σ α) (ok : σ → α → Prop) : Machine σ α where
  start := M.start
  step s a s' := ok s a ∧ M.step s a s'

theorem Reachable.of_restrict {ok : σ → α → Prop} (h : (M.restrict ok).Reachable s) :
    M.Reachable s := by
  induction h with
  | start h => exact .start h
  | step _ h ih => exact .step ih h.2

end Machine

/-! ## What only grows -/

/-- Sets that start empty and take in one more set each time. -/
structure Accumulates {α : Type u} (k : Nat) (U M : Nat → Set α) : Prop where
  empty : U 0 = ∅
  step : ∀ i < k, U (i + 1) = U i ∪ M i

namespace Accumulates

variable {α : Type u} {k : Nat} {U M : Nat → Set α}

theorem mem_iff (h : Accumulates k U M) {i : Nat} (hi : i ≤ k) {x : α} :
    x ∈ U i ↔ ∃ j < i, x ∈ M j := by
  induction i with
  | zero => simp [h.empty]
  | succ i ih =>
    rw [h.step i hi, Set.mem_union, ih (Nat.le_of_succ_le hi)]
    constructor
    · rintro (⟨j, hj, hx⟩ | hx)
      · exact ⟨j, Nat.lt_succ_of_lt hj, hx⟩
      · exact ⟨i, Nat.lt_succ_self i, hx⟩
    · rintro ⟨j, hj, hx⟩
      rcases Nat.lt_succ_iff_lt_or_eq.mp hj with hj | rfl
      · exact .inl ⟨j, hj, hx⟩
      · exact .inr hx

/-- Only the set taken in last is there just when it contains all those before it. -/
theorem eq_last_iff (h : Accumulates k U M) {i : Nat} (hi : i < k) :
    U (i + 1) = M i ↔ ∀ j < i, M j ⊆ M i := by
  rw [h.step i hi, Set.union_eq_right]
  constructor
  · intro hsub j hj x hx
    exact hsub ((h.mem_iff hi.le).mpr ⟨j, hj, hx⟩)
  · intro hall x hx
    obtain ⟨j, hj, hxj⟩ := (h.mem_iff hi.le).mp hx
    exact hall j hj hxj

end Accumulates

end Infra
