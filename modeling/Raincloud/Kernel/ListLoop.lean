import Raincloud.Kernel.Objects

/-!
# `list_for_each`

A loop over a list whose body leaves the list alone visits its nodes in order. What holds before
each round, said of the nodes that are done, holds of all of them at the end; and a loop that
fails has failed in a round.
-/

set_option linter.style.nameCheck false

namespace Raincloud

open Infra Infra.LinkStore Kernel

variable {e : Env} {s s' : KernelState} {u : Unit} {head : ListRef} {rs : List ListRef}
  {body : ListRef → Kernel Unit} {I : List ListRef → KernelState → Prop}

/-- The node behind `done` in a ring. -/
theorem ring_next_done {done rest : List ListRef} {r : ListRef}
    (h : Ring s head (done ++ r :: rest)) : s.next r = rest.headD head := h.next_mem

/-- The invariant of a loop: the list is there, and a round that returns keeps the rest. -/
structure LoopInv (e : Env) (head : ListRef) (rs : List ListRef) (body : ListRef → Kernel Unit)
    (I : List ListRef → KernelState → Prop) : Prop where
  ring : ∀ {done s}, I done s → Ring s head rs
  step : ∀ {done r rest s s'}, rs = done ++ r :: rest → I done s → body r e s = .ok ((), s') →
    I (done ++ [r]) s'

namespace LoopInv

theorem from_ok (h : LoopInv e head rs body I) {fuel : Nat} {done rest : List ListRef}
    (he : rs = done ++ rest) (hI : I done s)
    (hrun : listForEachFrom head body fuel (rest.headD head) e s = .ok (u, s')) : I rs s' := by
  induction rest generalizing fuel done s with
  | nil =>
    cases fuel with
    | zero => cases hrun
    | succ fuel =>
      rw [listForEachFrom, List.headD_nil, if_pos rfl] at hrun
      cases hrun
      rwa [he, List.append_nil]
  | cons r rest ih =>
    cases fuel with
    | zero => cases hrun
    | succ fuel =>
      have hr : r ≠ head := fun heq => (h.ring hI).not_mem (by simp [he, heq])
      rw [listForEachFrom, List.headD_cons, if_neg hr] at hrun
      obtain ⟨v, s₁, hbody, hrun⟩ := Program.bind_ok.mp hrun
      rw [Program.bind_of_ok Program.gets_apply] at hrun
      have hI₁ := h.step he hI hbody
      have hring := h.ring hI₁
      rw [he] at hring
      rw [ring_next_done hring] at hrun
      exact ih (by simp [he]) hI₁ hrun

theorem from_error (h : LoopInv e head rs body I) {fuel : Nat} {done rest : List ListRef}
    {err : Fault} (he : rs = done ++ rest) (hfuel : rest.length < fuel) (hI : I done s)
    (hrun : listForEachFrom head body fuel (rest.headD head) e s = .error err) :
    ∃ done r rest s', rs = done ++ r :: rest ∧ I done s' ∧ body r e s' = .error err := by
  induction rest generalizing fuel done s with
  | nil =>
    cases fuel with
    | zero => exact absurd hfuel (Nat.not_lt_zero _)
    | succ fuel =>
      rw [listForEachFrom, List.headD_nil, if_pos rfl] at hrun
      cases hrun
  | cons r rest ih =>
    cases fuel with
    | zero => exact absurd hfuel (Nat.not_lt_zero _)
    | succ fuel =>
      have hr : r ≠ head := fun heq => (h.ring hI).not_mem (by simp [he, heq])
      rw [listForEachFrom, List.headD_cons, if_neg hr] at hrun
      rcases Program.bind_error.mp hrun with hbody | ⟨v, s₁, hbody, hrun⟩
      · exact ⟨done, r, rest, s, he, hI, hbody⟩
      · rw [Program.bind_of_ok Program.gets_apply] at hrun
        have hI₁ := h.step he hI hbody
        have hring := h.ring hI₁
        rw [he] at hring
        rw [ring_next_done hring] at hrun
        exact ih (by simp [he]) (Nat.lt_of_succ_lt_succ hfuel) hI₁ hrun

/-- A loop that returns has gone through the list. -/
theorem ok (h : LoopInv e head rs body I) (hI : I [] s)
    (hrun : listForEach head body e s = .ok (u, s')) : I rs s' := by
  rw [listForEach, Program.bind_of_ok Program.gets_apply] at hrun
  rw [show s.next head = rs.headD head from (h.ring hI).next_head] at hrun
  exact h.from_ok (show rs = [] ++ rs from rfl) hI hrun

/-- A loop that does not return fails in a round. -/
theorem error (h : LoopInv e head rs body I) (hlen : rs.length < walkFuel) (hI : I [] s)
    {err : Fault} (hrun : listForEach head body e s = .error err) :
    ∃ done r rest s', rs = done ++ r :: rest ∧ I done s' ∧ body r e s' = .error err := by
  rw [listForEach, Program.bind_of_ok Program.gets_apply] at hrun
  rw [show s.next head = rs.headD head from (h.ring hI).next_head] at hrun
  exact h.from_error (show rs = [] ++ rs from rfl) hlen hI hrun

end LoopInv

end Raincloud
