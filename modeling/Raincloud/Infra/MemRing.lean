import Raincloud.Infra.Memory
import Raincloud.Infra.Ring

/-!
# List nodes in byte memory

A node at address `a` keeps `next` in the word at `a` and `prev` in the word at `a + 8`.
Nodes that do not overlap form a lawful link store.
-/

namespace Infra

open LinkStore

instance : LinkStore Mem Nat where
  next m a := m.load64 a
  prev m a := m.load64 (a + 8)
  setNext m a v := m.store64 a v
  setPrev m a v := m.store64 (a + 8) v

namespace Mem

theorem next_def (m : Mem) (a : Nat) : next m a = m.load64 a := rfl

theorem prev_def (m : Mem) (a : Nat) : prev m a = m.load64 (a + 8) := rfl

theorem setNext_def (m : Mem) (a v : Nat) : setNext m a v = m.store64 a v := rfl

theorem setPrev_def (m : Mem) (a v : Nat) : setPrev m a v = m.store64 (a + 8) v := rfl

/-- The nodes of `S` are words and do not overlap. -/
structure NodesApart (S : Set Nat) : Prop where
  lt : ∀ x ∈ S, x < 2 ^ 64
  apart : ∀ x ∈ S, ∀ y ∈ S, x ≠ y → x + 16 ≤ y ∨ y + 16 ≤ x

theorem NodesApart.lawfulOn {S : Set Nat} (h : NodesApart S) : LawfulOn Mem S where
  next_setNext := by
    intro m x v y hx hv hy
    rw [next_def, next_def, setNext_def]
    by_cases hxy : y = x
    · rw [if_pos hxy, hxy, load64_store64 (h.lt v hv)]
    · rw [if_neg hxy, load64_store64_of_disjoint]
      have := h.apart y hy x hx hxy
      omega
  prev_setNext := by
    intro m x v y hx hv hy
    rw [prev_def, prev_def, setNext_def, load64_store64_of_disjoint]
    by_cases hxy : y = x
    · omega
    · have := h.apart y hy x hx hxy
      omega
  next_setPrev := by
    intro m x v y hx hv hy
    rw [next_def, next_def, setPrev_def, load64_store64_of_disjoint]
    by_cases hxy : y = x
    · omega
    · have := h.apart y hy x hx hxy
      omega
  prev_setPrev := by
    intro m x v y hx hv hy
    rw [prev_def, prev_def, setPrev_def]
    by_cases hxy : y = x
    · rw [if_pos hxy, hxy, load64_store64 (h.lt v hv)]
    · rw [if_neg hxy, load64_store64_of_disjoint]
      have := h.apart y hy x hx hxy
      omega

end Mem

end Infra
