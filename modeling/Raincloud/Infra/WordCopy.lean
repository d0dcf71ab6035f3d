import Raincloud.Infra.Memory

/-!
# Copying words

Words are copied one after the other, from the lowest up, between two places that do not overlap.
-/

namespace Infra

namespace Mem

/-- `n` words from `src` on to `dst`. -/
def copyWords (m : Mem) (dst src : Nat) : Nat → Mem
  | 0 => m
  | n + 1 => copyWords (m.store64 dst (m.load64 src)) (dst + 8) (src + 8) n

variable {m : Mem} {dst src n i : Nat}

theorem copyWords_sameOutside (m : Mem) (dst src n : Nat) :
    m.SameOutside (Set.Ico dst (dst + 8 * n)) (copyWords m dst src n) := by
  induction n generalizing m dst src with
  | zero => exact .refl _ m
  | succ n ih =>
    have hfirst : m.SameOutside (Set.Ico dst (dst + 8 * (n + 1)))
        (m.store64 dst (m.load64 src)) :=
      (SameOutside.refl _ m).store64 (Set.Ico_subset_Ico_right (by omega))
    refine hfirst.trans ((ih _ (dst + 8) (src + 8)).mono ?_)
    exact Set.Ico_subset_Ico (Nat.le_add_right dst 8) (by omega)

/-- A word elsewhere is not touched. -/
theorem load64_copyWords_outside {a : Nat} (h : a + 8 ≤ dst ∨ dst + 8 * n ≤ a) :
    load64 (copyWords m dst src n) a = load64 m a := by
  refine (copyWords_sameOutside m dst src n).load64_eq fun x h1 h2 hx => ?_
  have hlo := hx.1
  have hhi := hx.2
  omega

theorem load64_copyWords (h : dst + 8 * n ≤ src ∨ src + 8 * n ≤ dst) (hi : i < n) :
    load64 (copyWords m dst src n) (dst + 8 * i) = load64 m (src + 8 * i) := by
  induction n generalizing m dst src i with
  | zero => cases hi
  | succ n ih =>
    rw [copyWords]
    cases i with
    | zero =>
      change load64 (copyWords _ (dst + 8) (src + 8) n) dst = load64 m src
      rw [load64_copyWords_outside (.inl (Nat.le_refl _)), load64_store64 (load64_lt m src)]
    | succ i =>
      have hd : dst + 8 * (i + 1) = dst + 8 + 8 * i := by omega
      have hs : src + 8 * (i + 1) = src + 8 + 8 * i := by omega
      rw [hd, hs, ih (by omega) (Nat.lt_of_succ_lt_succ hi),
        load64_store64_of_disjoint (by omega)]

end Mem

end Infra
