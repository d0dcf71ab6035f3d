import Mathlib.Tactic

/-!
# Counted loops that may fail

A loop runs its body with 0, 1, … up to its bound, and fails when the body does. When each
round takes a known state to the next one, the loop takes the first state to the last.
-/

namespace Infra

variable {σ ε : Type}

/-- `for (i = 0; i < n; i ++)`. -/
def forLoop (n : Nat) (body : Nat → σ → Except ε σ) (s : σ) : Except ε σ :=
  match n with
  | 0 => .ok s
  | n + 1 => forLoop n body s >>= body n

theorem forLoop_ok {n : Nat} {body : Nat → σ → Except ε σ} (state : Nat → σ)
    (hstep : ∀ i < n, body i (state i) = .ok (state (i + 1))) :
    forLoop n body (state 0) = .ok (state n) := by
  induction n with
  | zero => rfl
  | succ n ih =>
    rw [forLoop, ih fun i hi => hstep i (Nat.lt_succ_of_lt hi)]
    exact hstep n (Nat.lt_succ_self n)

end Infra
