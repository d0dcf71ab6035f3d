import Mathlib.Data.List.Find
import Mathlib.Tactic

/-!
# Requests taken by priority

Lines raise requests, which wait until they are taken; a line may be masked, and then its request
waits on. An arbiter has its lines in the order of their priority. Whatever is masked, unmasked,
raised and taken in whatever order, every request that found none waiting is taken once or still
waits, and no line is taken while it is masked. An arbiter may stand at an input of another one:
its lines then have the priority of that input.
-/

namespace Infra

universe u

structure Lines (α : Type u) where
  enabled : α → Bool
  pending : α → Bool

inductive LineEvent (α : Type u) where
  | mask (a : α)
  | unmask (a : α)
  | raise (a : α)
  /-- The request with the highest priority is taken, if there is one. -/
  | acknowledge
  deriving DecidableEq

structure Arbiter (α : Type u) where
  order : List α
  /-- Whether a line is let through, when these are enabled. -/
  through : (α → Bool) → α → Bool

namespace Arbiter

variable {α : Type u} (A : Arbiter α) {l : Lines α} {a : α}

/-- The line to be taken. -/
def next (l : Lines α) : Option α := A.order.find? fun a => l.pending a && A.through l.enabled a

theorem next_some (h : A.next l = some a) :
    a ∈ A.order ∧ l.pending a = true ∧ A.through l.enabled a = true := by
  have hp := List.find?_some h
  rw [Bool.and_eq_true] at hp
  exact ⟨List.mem_of_find?_eq_some h, hp⟩

/-- The lines that wait and are let through. -/
def waiting (l : Lines α) : List α :=
  A.order.filter fun a => l.pending a && A.through l.enabled a

theorem waiting_eq_nil : A.waiting l = [] ↔ A.next l = none := by
  simp [waiting, next]

variable [DecidableEq α]

def step (l : Lines α) : LineEvent α → Option α × Lines α
  | .mask a => (none, { l with enabled := Function.update l.enabled a false })
  | .unmask a => (none, { l with enabled := Function.update l.enabled a true })
  | .raise a => (none, { l with pending := Function.update l.pending a true })
  | .acknowledge => match A.next l with
    | none => (none, l)
    | some a => (some a, { l with pending := Function.update l.pending a false })

/-- The lines taken, in order, and what is left. -/
def run : List (LineEvent α) → Lines α → List α × Lines α
  | [], l => ([], l)
  | e :: es, l =>
    ((A.step l e).1.toList ++ (run es (A.step l e).2).1, (run es (A.step l e).2).2)

/-- How often the line is raised while it has no request waiting. -/
def fresh (a : α) : List (LineEvent α) → Lines α → Nat
  | [], _ => 0
  | e :: es, l =>
    (if e = .raise a ∧ l.pending a = false then 1 else 0) + fresh a es (A.step l e).2

/-- One event neither loses a request nor makes one up. -/
theorem step_count (a : α) (e : LineEvent α) :
    (A.step l e).1.toList.count a + ((A.step l e).2.pending a).toNat
      = (l.pending a).toNat + if e = .raise a ∧ l.pending a = false then 1 else 0 := by
  cases e with
  | mask b => simp [step]
  | unmask b => simp [step]
  | raise b =>
    by_cases hb : b = a
    · subst hb
      cases l.pending b <;> simp [step]
    · have hne : LineEvent.raise b ≠ .raise a := fun h => hb (LineEvent.raise.inj h)
      simp [step, hne, Function.update_of_ne (Ne.symm hb)]
  | acknowledge =>
    cases hnext : A.next l with
    | none => simp [step, hnext]
    | some b =>
      obtain ⟨-, hp, -⟩ := A.next_some hnext
      by_cases hb : b = a
      · subst hb
        simp [step, hnext, hp]
      · simp [step, hnext, Function.update_of_ne (Ne.symm hb), hb]

/-- A request that found none waiting is taken once, or it still waits. -/
theorem run_count (a : α) : ∀ (es : List (LineEvent α)) (l : Lines α),
    (A.run es l).1.count a + ((A.run es l).2.pending a).toNat
      = (l.pending a).toNat + A.fresh a es l := by
  intro es
  induction es with
  | nil => intro l; simp [run, fresh]
  | cons e es ih =>
    intro l
    have hstep := A.step_count (l := l) a e
    have hrest := ih (A.step l e).2
    show List.count a (_ ++ _) + ((A.run es (A.step l e).2).2.pending a).toNat = _ + (_ + _)
    rw [List.count_append]
    omega

theorem mem_order_of_mem_run : ∀ (es : List (LineEvent α)) (l : Lines α),
    a ∈ (A.run es l).1 → a ∈ A.order := by
  intro es
  induction es with
  | nil => intro l h; cases h
  | cons e es ih =>
    intro l h
    rw [run, List.mem_append] at h
    rcases h with h | h
    · cases e with
      | acknowledge =>
        cases hnext : A.next l with
        | none => simp [step, hnext] at h
        | some b =>
          obtain rfl : a = b := by simpa [step, hnext] using h
          exact (A.next_some hnext).1
      | _ => simp [step] at h
    · exact ih _ h

/-- A line that is masked and never unmasked is never taken. -/
theorem not_mem_run (hthrough : ∀ enabled, enabled a = false → A.through enabled a = false) :
    ∀ (es : List (LineEvent α)) (l : Lines α), l.enabled a = false → .unmask a ∉ es →
      a ∉ (A.run es l).1 := by
  intro es
  induction es with
  | nil => intro l _ _; simp [run]
  | cons e es ih =>
    intro l hl hes
    rw [List.mem_cons, not_or] at hes
    have hkeep : (A.step l e).2.enabled a = false := by
      cases e with
      | mask b =>
        show Function.update l.enabled b false a = false
        rw [Function.update_apply, hl, ite_self]
      | unmask b =>
        have hb : a ≠ b := fun h => hes.1 (h ▸ rfl)
        show Function.update l.enabled b true a = false
        rw [Function.update_of_ne hb, hl]
      | raise b => exact hl
      | acknowledge =>
        cases hnext : A.next l <;> simp [step, hnext, hl]
    have hnot : a ∉ (A.step l e).1.toList := by
      cases e with
      | acknowledge =>
        cases hnext : A.next l with
        | none => simp [step, hnext]
        | some b =>
          intro hmem
          obtain rfl : a = b := by simpa [step, hnext] using hmem
          obtain ⟨-, -, hopen⟩ := A.next_some hnext
          rw [hthrough _ hl] at hopen
          cases hopen
      | _ => simp [step]
    rw [run, List.mem_append, not_or]
    exact ⟨hnot, ih _ hkeep hes.2⟩

/-- Each request taken leaves fewer to wait. -/
theorem waiting_acknowledge (h : A.next l = some a) :
    (A.waiting (A.step l .acknowledge).2).length < (A.waiting l).length := by
  obtain ⟨hmem, hp, hopen⟩ := A.next_some h
  have hsub : A.waiting (A.step l .acknowledge).2 = (A.waiting l).filter fun b => b ≠ a := by
    unfold waiting
    rw [List.filter_filter]
    refine List.filter_congr fun b _ => ?_
    by_cases hb : b = a
    · subst hb
      simp [step, h]
    · simp [step, h, hb]
  rw [hsub]
  refine List.length_filter_lt_length_iff_exists.mpr ⟨a, ?_, by simp⟩
  rw [waiting, List.mem_filter]
  exact ⟨hmem, by simp [hp, hopen]⟩

/-- As many acknowledgements as there are lines leave none that is let through. -/
theorem next_run_acknowledge : ∀ (n : Nat) (l : Lines α), (A.waiting l).length ≤ n →
    A.next (A.run (List.replicate n .acknowledge) l).2 = none := by
  intro n
  induction n with
  | zero =>
    intro l hl
    exact A.waiting_eq_nil.mp (List.length_eq_zero_iff.mp (Nat.le_zero.mp hl))
  | succ n ih =>
    intro l hl
    rw [List.replicate_succ, run]
    refine ih _ ?_
    cases hnext : A.next l with
    | none =>
      have hnil := A.waiting_eq_nil.mpr hnext
      simp [step, hnext, hnil]
    | some a =>
      have hlt := A.waiting_acknowledge hnext
      omega

end Arbiter

/-! ## An arbiter at an input of another -/

section Cascade

variable {α : Type u} {before after sub : List α} {p q : α → Bool} {a b : α}

/-- Input `b` has a request just if one of the lines behind it has. -/
theorem find?_cascade (f : α → α) (hq : ∀ a ∈ before ++ after, q a = p a)
    (hb : q b = (sub.find? p).isSome) (hf : ∀ a ∈ before ++ after, f a = a)
    (hsub : ∀ a ∈ sub, f a = b) :
    (before ++ [b] ++ after).find? q = ((before ++ sub ++ after).find? p).map f := by
  have hbefore : before.find? q = before.find? p :=
    List.find?_congr fun a ha => hq a (List.mem_append_left _ ha)
  have hafter : after.find? q = after.find? p :=
    List.find?_congr fun a ha => hq a (List.mem_append_right _ ha)
  rw [List.find?_append, List.find?_append, List.find?_append, List.find?_append, hbefore, hafter,
    List.find?_singleton, hb]
  cases h1 : before.find? p with
  | some a => simp [hf a (List.mem_append_left _ (List.mem_of_find?_eq_some h1))]
  | none =>
    cases h2 : sub.find? p with
    | some a => simp [hsub a (List.mem_of_find?_eq_some h2)]
    | none =>
      cases h3 : after.find? p with
      | some a => simp [hf a (List.mem_append_right _ (List.mem_of_find?_eq_some h3))]
      | none => simp

theorem find?_sub (h : (before ++ sub ++ after).find? p = some a) (ha : a ∉ before ++ after) :
    sub.find? p = some a := by
  rw [List.mem_append, not_or] at ha
  rw [List.find?_append, List.find?_append] at h
  cases h1 : before.find? p with
  | some b =>
    rw [h1] at h
    obtain rfl : b = a := by simpa using h
    exact absurd (List.mem_of_find?_eq_some h1) ha.1
  | none =>
    cases h2 : sub.find? p with
    | some b => simpa [h1, h2] using h
    | none =>
      have h3 : after.find? p = some a := by simpa [h1, h2] using h
      exact absurd (List.mem_of_find?_eq_some h3) ha.2

end Cascade

end Infra
