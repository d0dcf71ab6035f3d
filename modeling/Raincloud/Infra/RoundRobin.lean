import Mathlib.Tactic

/-!
# Round robin with dead entries

A turn drops the dead entries at the front of a queue, takes the next one and puts it at the
back. The entries that are alive go round in their order, and what is dropped does not come back.
-/

namespace Infra

universe u

variable {α : Type u} (alive : α → Prop) [DecidablePred alive]

/-- One turn: `dropped` leaves the queue `q`, `t` goes from behind it to the back. -/
structure Turn (q : List α) (t : α) (q' : List α) : Prop where
  split : ∃ dropped rest, q = dropped ++ t :: rest ∧ (∀ d ∈ dropped, ¬alive d) ∧ q' = rest ++ [t]
  alive : alive t

variable {alive} {q q' : List α} {t d : α}

/-- The entries of a queue that are alive. -/
def living (alive : α → Prop) [DecidablePred alive] (q : List α) : List α :=
  q.filter fun x => decide (alive x)

namespace Turn

/-- The first living entry takes its turn, and the others come before it then. -/
theorem living_eq (h : Turn alive q t q') : ∃ rest, living alive q = t :: rest ∧
    living alive q' = rest ++ [t] := by
  obtain ⟨dropped, rest, rfl, hdead, rfl⟩ := h.split
  have hd : dropped.filter (fun x => decide (alive x)) = [] :=
    List.filter_eq_nil_iff.mpr fun x hx => by simpa using hdead x hx
  refine ⟨living alive rest, ?_, ?_⟩
  · rw [living, List.filter_append, hd, List.nil_append,
      List.filter_cons_of_pos (by simpa using h.alive)]
    rfl
  · rw [living, List.filter_append, List.filter_cons_of_pos (by simpa using h.alive)]
    rfl

theorem head (h : Turn alive q t q') : (living alive q)[0]? = some t := by
  obtain ⟨rest, he, -⟩ := h.living_eq
  rw [he]
  rfl

theorem rotate (h : Turn alive q t q') : living alive q' = (living alive q).rotate 1 := by
  obtain ⟨rest, he, he'⟩ := h.living_eq
  rw [he, he', List.rotate_cons_succ, List.rotate_zero]

omit [DecidablePred alive] in
/-- No entry is new. -/
theorem mem_of_mem (h : Turn alive q t q') (hd : d ∈ q') : d ∈ q := by
  obtain ⟨dropped, rest, rfl, -, rfl⟩ := h.split
  simp only [List.mem_append, List.mem_cons, List.not_mem_nil, or_false] at hd ⊢
  tauto

omit [DecidablePred alive] in
theorem nodup (h : Turn alive q t q') (hq : q.Nodup) : q'.Nodup := by
  obtain ⟨dropped, rest, rfl, -, rfl⟩ := h.split
  exact (List.perm_append_singleton t rest).nodup_iff.mpr (List.nodup_append.mp hq).2.1

end Turn

/-! ## Runs -/

/-- The queue before each turn, and who takes it. -/
structure Turns (alive : α → Prop) [DecidablePred alive] (k : Nat) (q : Nat → List α)
    (t : Nat → α) : Prop where
  turn : ∀ i < k, Turn alive (q i) (t i) (q (i + 1))

namespace Turns

variable {k i j : Nat} {q : Nat → List α} {t : Nat → α}

/-- After `i` turns the living entries stand `i` places further. -/
theorem living_rotate (h : Turns alive k q t) (hi : i ≤ k) :
    living alive (q i) = (living alive (q 0)).rotate i := by
  induction i with
  | zero => rw [List.rotate_zero]
  | succ i ih => rw [(h.turn i hi).rotate, ih (by omega), List.rotate_rotate]

/-- The living entries take their turns in order, one after another. -/
theorem taken (h : Turns alive k q t) (hi : i < k) :
    (living alive (q 0))[i % (living alive (q 0)).length]? = some (t i) := by
  have hhead := (h.turn i hi).head
  rw [h.living_rotate hi.le] at hhead
  have hpos : 0 < (living alive (q 0)).length := by
    rw [← List.length_rotate (living alive (q 0)) i]
    exact (List.getElem?_eq_some_iff.mp hhead).1
  rw [List.getElem?_rotate hpos, Nat.zero_add] at hhead
  exact hhead

theorem nodup (h : Turns alive k q t) (hq : (q 0).Nodup) (hi : i ≤ k) : (q i).Nodup := by
  induction i with
  | zero => exact hq
  | succ i ih => exact (h.turn i hi).nodup (ih (by omega))

/-- What is out of the queue stays out. -/
theorem not_mem (h : Turns alive k q t) {d : α} (hd : d ∉ q i) (hij : i ≤ j) (hj : j ≤ k) :
    d ∉ q j := by
  induction j, hij using Nat.le_induction with
  | base => exact hd
  | succ j hij ih => exact fun hin => ih (by omega) ((h.turn j hj).mem_of_mem hin)

end Turns

/-! ## The states of a run -/

end Infra
