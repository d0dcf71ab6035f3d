import Mathlib.Tactic

/-!
# Ring buffers

A buffer of `cap` cells read in a circle: what it holds is `len` cells from `start` on. A
value put behind the last cell is appended (`ringContents_push`); the first cell is the head
(`ringContents_succ`).
-/

namespace Infra

variable {α : Type*}

/-- The `len` cells from `start` on. -/
def ringContents (buf : Nat → α) (cap start len : Nat) : List α :=
  (List.range len).map fun i => buf ((start + i) % cap)

/-- The next cell in the circle. -/
def ringNext (cap i : Nat) : Nat := if i + 1 = cap then 0 else i + 1

theorem ringNext_lt {cap i : Nat} (h : i < cap) : ringNext cap i < cap := by
  unfold ringNext
  split <;> omega

theorem ringNext_eq {cap i : Nat} (h : i < cap) : ringNext cap i = (i + 1) % cap := by
  unfold ringNext
  split
  · next he => rw [he, Nat.mod_self]
  · rw [Nat.mod_eq_of_lt (by omega)]

@[simp] theorem length_ringContents (buf : Nat → α) (cap start len : Nat) :
    (ringContents buf cap start len).length = len := by
  simp [ringContents]

@[simp] theorem ringContents_zero (buf : Nat → α) (cap start : Nat) :
    ringContents buf cap start 0 = [] := rfl

/-- What a buffer holds starts with the cell at `start`. -/
theorem ringContents_succ (buf : Nat → α) {cap start : Nat} (h : start < cap) (len : Nat) :
    ringContents buf cap start (len + 1)
      = buf start :: ringContents buf cap (ringNext cap start) len := by
  rw [ringContents, List.range_succ_eq_map, List.map_cons, List.map_map, Nat.add_zero,
    Nat.mod_eq_of_lt h, ringContents]
  congr 1
  refine List.map_congr_left fun i _ => ?_
  rw [ringNext_eq h, Function.comp_apply, Nat.mod_add_mod]
  congr 2
  omega

/-- A value put behind what a buffer holds is held last. -/
theorem ringContents_push (buf : Nat → α) {cap start len : Nat} (h : len < cap) (x : α) :
    ringContents (Function.update buf ((start + len) % cap) x) cap start (len + 1)
      = ringContents buf cap start len ++ [x] := by
  rw [ringContents, List.range_succ, List.map_append, List.map_singleton, Function.update_self,
    ringContents]
  congr 1
  refine List.map_congr_left fun i hi => Function.update_of_ne (fun he => ?_) x buf
  have hlt : i < len := List.mem_range.mp hi
  -- two cells less than `cap` apart are different
  have hmod : (start + i) % cap = (start + len) % cap := he
  have hd : (len - i) % cap = 0 := by
    rw [← Nat.add_sub_add_left start len i]
    exact Nat.sub_mod_eq_zero_of_mod_eq hmod.symm
  rw [Nat.mod_eq_of_lt (by omega)] at hd
  omega

end Infra
