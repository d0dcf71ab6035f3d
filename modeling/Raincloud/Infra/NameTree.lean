import Mathlib.Tactic

/-!
# Going down a tree by names

`child n c` is the child of `n` that goes by the name `c`, if there is one.
-/

namespace Infra

universe u v

variable {α : Type u} {N : Type v}

/-- The node reached by one name after the other. -/
def descend (child : α → N → Option α) : α → List N → Option α
  | n, [] => some n
  | n, c :: cs =>
    match child n c with
    | some m => descend child m cs
    | none => none

variable {child child' : α → N → Option α} {n m : α} {c : N} {cs : List N}

theorem descend_cons (h : child n c = some m) : descend child n (c :: cs) = descend child m cs := by
  rw [descend, h]

/-- More children leave what was reached where it is; `p` holds of all that is reached. -/
theorem descend_mono {p : α → Prop}
    (hle : ∀ n c m, p n → child n c = some m → p m ∧ child' n c = some m) :
    ∀ {n : α} {cs : List N}, p n → descend child n cs = some m → descend child' n cs = some m
  | n, [], _, h => h
  | n, c :: cs, hn, h => by
    unfold descend at h
    cases hc : child n c with
    | none =>
      rw [hc] at h
      cases h
    | some k =>
      rw [hc] at h
      obtain ⟨hk, hc'⟩ := hle n c k hn hc
      rw [descend_cons hc', descend_mono hle hk h]

/-- What holds of a node and passes on to children holds of all that is reached. -/
theorem descend_induct {p : α → Prop} : ∀ {n : α} {cs : List N},
    (∀ n c m, c ∈ cs → p n → child n c = some m → p m) → p n → descend child n cs = some m → p m
  | n, [], _, hn, h => by
    cases h
    exact hn
  | n, c :: cs, hstep, hn, h => by
    unfold descend at h
    cases hc : child n c with
    | none =>
      rw [hc] at h
      cases h
    | some k =>
      rw [hc] at h
      exact descend_induct (fun n d m hd => hstep n d m (List.mem_cons_of_mem c hd))
        (hstep n c k List.mem_cons_self hn hc) h

end Infra
