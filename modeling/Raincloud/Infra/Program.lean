import Mathlib.Tactic

/-!
# Programs that may fault

A program reads an environment, which answers what the code under study does not decide,
runs on a state and returns a value or faults. `Program.bind_ok` takes a run apart at a
`bind`. A `Frame` is a relation between the states before and after that every program built
from parts that keep it keeps too.
-/

namespace Infra

/-- A program over states `σ` with environments `ρ` and faults `ε`. -/
def Program (ρ ε σ α : Type) := ρ → σ → Except ε (α × σ)

namespace Program

variable {ρ ε σ α β : Type}

instance : Monad (Program ρ ε σ) where
  pure a := fun _ s => .ok (a, s)
  bind x f := fun e s =>
    match x e s with
    | .ok (a, s') => f a e s'
    | .error err => .error err

def fault (err : ε) : Program ρ ε σ α := fun _ _ => .error err

/-- What the environment answers in the current state. -/
def ask (f : ρ → σ → α) : Program ρ ε σ α := fun e s => .ok (f e s, s)

def gets (f : σ → α) : Program ρ ε σ α := fun _ s => .ok (f s, s)

def modify (f : σ → σ) : Program ρ ε σ Unit := fun _ s => .ok ((), f s)

/-- Goes on only if the condition holds. -/
def check (p : Prop) [Decidable p] (err : ε) : Program ρ ε σ Unit := fun _ s =>
  if p then .ok ((), s) else .error err

/-! ## Taking a run apart -/

variable {x : Program ρ ε σ α} {f : α → Program ρ ε σ β} {e : ρ} {s s' : σ} {a : α} {b : β}
  {err : ε}

theorem bind_apply : (x >>= f) e s = match x e s with
    | .ok (a, s') => f a e s'
    | .error err => .error err := rfl

theorem bind_of_ok (h : x e s = .ok (a, s')) : (x >>= f) e s = f a e s' := by
  rw [bind_apply, h]

theorem bind_ok : (x >>= f) e s = .ok (b, s') ↔
    ∃ a t, x e s = .ok (a, t) ∧ f a e t = .ok (b, s') := by
  rw [bind_apply]
  cases x e s with
  | error err => simp
  | ok r =>
    obtain ⟨a, t⟩ := r
    simp

theorem bind_error : (x >>= f) e s = .error err ↔
    x e s = .error err ∨ ∃ a t, x e s = .ok (a, t) ∧ f a e t = .error err := by
  rw [bind_apply]
  cases x e s with
  | error err' => simp
  | ok r =>
    obtain ⟨a, t⟩ := r
    simp

@[simp] theorem pure_apply : (pure a : Program ρ ε σ α) e s = .ok (a, s) := rfl

@[simp] theorem fault_apply : (fault err : Program ρ ε σ α) e s = .error err := rfl

@[simp] theorem ask_apply {f : ρ → σ → α} : (ask f : Program ρ ε σ α) e s = .ok (f e s, s) := rfl

@[simp] theorem gets_apply {f : σ → α} : (gets f : Program ρ ε σ α) e s = .ok (f s, s) := rfl

@[simp] theorem modify_apply {f : σ → σ} : (modify f : Program ρ ε σ Unit) e s = .ok ((), f s) :=
  rfl

theorem check_of {p : Prop} [Decidable p] (h : p) :
    (check p err : Program ρ ε σ Unit) e s = .ok ((), s) := if_pos h

theorem check_ok {p : Prop} [Decidable p] {u : Unit} :
    (check p err : Program ρ ε σ Unit) e s = .ok (u, s') ↔ p ∧ s' = s := by
  unfold check
  by_cases h : p
  · simp [h, eq_comm]
  · simp [h]

theorem check_bind_ok {p : Prop} [Decidable p] {f : Unit → Program ρ ε σ β} :
    (check p err >>= f) e s = .ok (b, s') ↔ p ∧ f () e s = .ok (b, s') := by
  rw [bind_ok]
  constructor
  · rintro ⟨u, t, hcheck, hrun⟩
    obtain ⟨hp, rfl⟩ := check_ok.mp hcheck
    exact ⟨hp, hrun⟩
  · rintro ⟨hp, hrun⟩
    exact ⟨(), s, check_of hp, hrun⟩

/-! ## Faults that do not happen -/

/-- A program that never ends in this fault. -/
def Avoids (err : ε) (x : Program ρ ε σ α) : Prop := ∀ e s, x e s ≠ .error err

theorem avoids_pure (a : α) : Avoids err (pure a : Program ρ ε σ α) := fun _ _ h => by cases h

theorem avoids_gets (g : σ → α) : Avoids err (gets g : Program ρ ε σ α) :=
  fun _ _ h => by cases h

theorem avoids_ask (g : ρ → σ → α) : Avoids err (ask g : Program ρ ε σ α) :=
  fun _ _ h => by cases h

theorem avoids_modify (g : σ → σ) : Avoids err (modify g : Program ρ ε σ Unit) :=
  fun _ _ h => by cases h

theorem avoids_fault {err' : ε} (h : err' ≠ err) : Avoids err (fault err' : Program ρ ε σ α) :=
  fun _ _ he => h (Except.error.inj he)

theorem avoids_check {err' : ε} (p : Prop) [Decidable p] (h : err' ≠ err) :
    Avoids err (check p err' : Program ρ ε σ Unit) := by
  intro e s he
  unfold check at he
  split at he
  · cases he
  · exact h (Except.error.inj he)

theorem avoids_bind (hx : Avoids err x) (hf : ∀ a, Avoids err (f a)) : Avoids err (x >>= f) := by
  intro e s h
  rcases bind_error.mp h with h | ⟨a, t, -, h⟩
  · exact hx e s h
  · exact hf a e t h

/-- The one fault that a program does not avoid. -/
theorem eq_of_avoids {err' : ε} (hx : ∀ err, err' ≠ err → Avoids err x)
    (h : x e s = .error err) : err = err' := by
  by_contra hne
  exact hx err (Ne.symm hne) e s h

/-! ## Programs that end -/

/-- The program returns with a value and a state of `Q`, or stops with an allowed fault. -/
def Ends (allowed : ε → Prop) (x : Program ρ ε σ α) (e : ρ) (s : σ) (Q : α → σ → Prop) : Prop :=
  match x e s with
  | .ok (a, s') => Q a s'
  | .error err => allowed err

section Ends

variable {allowed : ε → Prop} {Q : α → σ → Prop} {R : β → σ → Prop}

theorem ends_ok (h : x e s = .ok (a, s')) (hQ : Q a s') : Ends allowed x e s Q := by
  unfold Ends
  rw [h]
  exact hQ

theorem ends_bind (hx : Ends allowed x e s Q)
    (hf : ∀ a t, Q a t → Ends allowed (f a) e t R) : Ends allowed (x >>= f) e s R := by
  unfold Ends at hx ⊢
  rw [bind_apply]
  cases hrun : x e s with
  | ok r =>
    rw [hrun] at hx
    exact hf r.1 r.2 hx
  | error err =>
    rw [hrun] at hx
    exact hx

theorem Ends.mono {S : α → σ → Prop} (h : Ends allowed x e s Q) (hQ : ∀ a t, Q a t → S a t) :
    Ends allowed x e s S := by
  unfold Ends at h ⊢
  cases hrun : x e s with
  | ok r =>
    rw [hrun] at h
    exact hQ r.1 r.2 h
  | error err =>
    rw [hrun] at h
    exact h

theorem Ends.cases (h : Ends allowed x e s Q) :
    (∃ a s', x e s = .ok (a, s') ∧ Q a s') ∨ ∃ err, x e s = .error err ∧ allowed err := by
  unfold Ends at h
  cases hrun : x e s with
  | ok r =>
    rw [hrun] at h
    exact .inl ⟨r.1, r.2, rfl, h⟩
  | error err =>
    rw [hrun] at h
    exact .inr ⟨err, rfl, h⟩

end Ends

end Program

/-! ## Frames -/

/-- A relation between states that composes. -/
structure Frame (σ : Type) where
  rel : σ → σ → Prop
  refl : ∀ s, rel s s
  trans : ∀ {s t u}, rel s t → rel t u → rel s u

namespace Frame

variable {ρ ε σ α β : Type} (F : Frame σ) {x : Program ρ ε σ α} {f : α → Program ρ ε σ β}

/-- Every run that returns relates the states before and after. -/
def Keeps (x : Program ρ ε σ α) : Prop := ∀ e s a s', x e s = .ok (a, s') → F.rel s s'

variable {F} {G : Frame σ}

theorem Keeps.mono (h : F.Keeps x) (hFG : ∀ s s', F.rel s s' → G.rel s s') : G.Keeps x :=
  fun e s a s' hrun => hFG _ _ (h e s a s' hrun)

theorem keeps_pure (a : α) : F.Keeps (pure a : Program ρ ε σ α) := by
  intro e s b s' h
  cases h
  exact F.refl s

theorem keeps_fault (err : ε) : F.Keeps (Program.fault err : Program ρ ε σ α) := by
  intro e s b s' h
  cases h

theorem keeps_ask (g : ρ → σ → α) : F.Keeps (Program.ask g : Program ρ ε σ α) := by
  intro e s b s' h
  cases h
  exact F.refl s

theorem keeps_gets (g : σ → α) : F.Keeps (Program.gets g : Program ρ ε σ α) := by
  intro e s b s' h
  cases h
  exact F.refl s

theorem keeps_modify {g : σ → σ} (h : ∀ s, F.rel s (g s)) :
    F.Keeps (Program.modify g : Program ρ ε σ Unit) := by
  intro e s b s' hrun
  cases hrun
  exact h s

theorem keeps_check (p : Prop) [Decidable p] (err : ε) :
    F.Keeps (Program.check p err : Program ρ ε σ Unit) := by
  intro e s b s' h
  rw [(Program.check_ok.mp h).2]
  exact F.refl s

theorem keeps_bind (hx : F.Keeps x) (hf : ∀ a, F.Keeps (f a)) : F.Keeps (x >>= f) := by
  intro e s b s' h
  obtain ⟨a, t, h1, h2⟩ := Program.bind_ok.mp h
  exact F.trans (hx e s a t h1) (hf a e t b s' h2)

end Frame

end Infra
