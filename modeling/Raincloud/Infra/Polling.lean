import Raincloud.Infra.Program

/-!
# Programs that wait

A loop that polls a device ends when the device says so, and no bound is written in it: it is
given fuel, and `Returns` says that all large enough amounts of it give the same run. A list of
calls run one after another follows the steps of another level when each of them does.
-/

namespace Infra

variable {ρ ε σ τ α β γ : Type}

namespace Program

/-- With enough fuel the program returns this value in this state. -/
def Returns (x : Nat → Program ρ ε σ α) (e : ρ) (s : σ) (a : α) (s' : σ) : Prop :=
  ∃ n, ∀ fuel, n ≤ fuel → x fuel e s = .ok (a, s')

/-- With enough fuel the program stops with this fault. -/
def Faults (x : Nat → Program ρ ε σ α) (e : ρ) (s : σ) (err : ε) : Prop :=
  ∃ n, ∀ fuel, n ≤ fuel → x fuel e s = .error err

variable {x : Nat → Program ρ ε σ α} {f : Nat → α → Program ρ ε σ β} {e : ρ} {s t u : σ} {a : α}
  {b : β} {err : ε}

theorem Returns.of_run {y : Program ρ ε σ α} (h : y e s = .ok (a, t)) :
    Returns (fun _ => y) e s a t :=
  ⟨0, fun _ _ => h⟩

theorem Returns.bind (hx : Returns x e s a t) (hf : Returns (fun n => f n a) e t b u) :
    Returns (fun n => x n >>= f n) e s b u := by
  obtain ⟨n, hn⟩ := hx
  obtain ⟨m, hm⟩ := hf
  refine ⟨max n m, fun fuel hfuel => ?_⟩
  show (x fuel >>= f fuel) e s = _
  rw [bind_of_ok (hn fuel (le_trans (le_max_left n m) hfuel))]
  exact hm fuel (le_trans (le_max_right n m) hfuel)

/-- The part in front that needs no fuel. -/
theorem Returns.step {y : Program ρ ε σ α} (hy : y e s = .ok (a, t))
    (hf : Returns (fun n => f n a) e t b u) : Returns (fun n => y >>= f n) e s b u :=
  (Returns.of_run hy).bind hf

theorem Faults.bind (hx : Faults x e s err) : Faults (fun n => x n >>= f n) e s err := by
  obtain ⟨n, hn⟩ := hx
  refine ⟨n, fun fuel hfuel => ?_⟩
  exact bind_error.mpr (.inl (hn fuel hfuel))

theorem Returns.bind_faults (hx : Returns x e s a t) (hf : Faults (fun n => f n a) e t err) :
    Faults (fun n => x n >>= f n) e s err := by
  obtain ⟨n, hn⟩ := hx
  obtain ⟨m, hm⟩ := hf
  refine ⟨max n m, fun fuel hfuel => ?_⟩
  show (x fuel >>= f fuel) e s = _
  rw [bind_of_ok (hn fuel (le_trans (le_max_left n m) hfuel))]
  exact hm fuel (le_trans (le_max_right n m) hfuel)

/-! ## Polling -/

/-- `while (busy);`. -/
def pollLoop (endless : ε) (busy : Program ρ ε σ Bool) : Nat → Program ρ ε σ Unit
  | 0 => fault endless
  | fuel + 1 => do
    if ← busy then pollLoop endless busy fuel else return ()

/-- The loop ends at the first poll that finds the device free. -/
theorem returns_pollLoop {endless : ε} {busy : Program ρ ε σ Bool} {n : Nat} (state : Nat → σ)
    (hbusy : ∀ i < n, busy e (state i) = .ok (true, state (i + 1)))
    (hfree : busy e (state n) = .ok (false, t)) :
    Returns (pollLoop endless busy) e (state 0) () t := by
  refine ⟨n + 1, ?_⟩
  induction n generalizing state with
  | zero =>
    intro fuel hfuel
    obtain ⟨fuel, rfl⟩ : ∃ k, fuel = k + 1 := ⟨fuel - 1, by omega⟩
    rw [pollLoop, bind_of_ok hfree]
    rfl
  | succ n ih =>
    intro fuel hfuel
    obtain ⟨fuel, rfl⟩ : ∃ k, fuel = k + 1 := ⟨fuel - 1, by omega⟩
    rw [pollLoop, bind_of_ok (hbusy 0 (Nat.succ_pos n)), if_pos rfl]
    exact ih (fun i => state (i + 1)) (fun i hi => hbusy (i + 1) (by omega)) hfree fuel (by omega)

/-! ## Calls one after another -/

/-- The calls one after another, with what they return. -/
def runAll (call : γ → Program ρ ε σ α) : List γ → Program ρ ε σ (List α)
  | [] => return []
  | c :: cs => do
    let a ← call c
    let as ← runAll call cs
    return a :: as

end Program

/-- What a list of calls does when `step` says what each of them may do. -/
inductive Steps (step : τ → γ → α → τ → Prop) : τ → List γ → List α → τ → Prop
  | nil (t : τ) : Steps step t [] [] t
  | cons {t t' t'' : τ} {c : γ} {cs : List γ} {a : α} {as : List α} (h : step t c a t')
      (hs : Steps step t' cs as t'') : Steps step t (c :: cs) (a :: as) t''

namespace Steps

variable {step : τ → γ → α → τ → Prop} {t t' : τ} {cs : List γ} {as : List α}

/-- What every step keeps, all of them keep. -/
theorem frame (h : Steps step t cs as t') (rel : τ → τ → Prop) (hrefl : ∀ t, rel t t)
    (htrans : ∀ {t u v}, rel t u → rel u v → rel t v)
    (hstep : ∀ t c a t', c ∈ cs → step t c a t' → rel t t') : rel t t' := by
  induction h with
  | nil t => exact hrefl t
  | cons h _ ih =>
    refine htrans (hstep _ _ _ _ List.mem_cons_self h) (ih fun t c a t' hc => ?_)
    exact hstep t c a t' (List.mem_cons_of_mem _ hc)

/-- Calls of which only one thing can come. -/
theorem foldl {κ : Type} {f : τ → κ} {g : κ → γ → κ} {a : α} (h : Steps step t cs as t')
    (hstep : ∀ t c a' t', step t c a' t' → a' = a ∧ f t' = g (f t) c) :
    as = List.replicate cs.length a ∧ f t' = cs.foldl g (f t) := by
  induction h with
  | nil => exact ⟨rfl, rfl⟩
  | cons h _ ih =>
    obtain ⟨rfl, hf⟩ := hstep _ _ _ _ h
    rw [List.length_cons, List.replicate_succ, List.foldl_cons, ← hf]
    exact ⟨congrArg _ ih.1, ih.2⟩

end Steps

namespace Program

/-- A program whose every call follows a step of the other level follows its steps. -/
theorem returns_runAll {call : Nat → γ → Program ρ ε σ α} (step : τ → γ → α → τ → Prop) {e : ρ}
    (R : σ → τ → Prop) {cs : List γ} {s : σ} {t : τ} (hR : R s t)
    (hcall : ∀ c ∈ cs, ∀ s t, R s t →
      ∃ a s' t', Returns (fun n => call n c) e s a s' ∧ step t c a t' ∧ R s' t') :
    ∃ as s' t', Returns (fun n => runAll (call n) cs) e s as s' ∧ Steps step t cs as t' ∧
      R s' t' := by
  induction cs generalizing s t with
  | nil => exact ⟨[], s, t, .of_run rfl, .nil t, hR⟩
  | cons c cs ih =>
    obtain ⟨a, s₁, t₁, hrun, hstep, hR₁⟩ := hcall c List.mem_cons_self s t hR
    obtain ⟨as, s₂, t₂, hruns, hsteps, hR₂⟩ :=
      ih hR₁ fun c' hc' => hcall c' (List.mem_cons_of_mem c hc')
    exact ⟨a :: as, s₂, t₂, hrun.bind (hruns.bind (.of_run rfl)), .cons hstep hsteps, hR₂⟩

/-- The first call that stops with the fault stops the run. -/
theorem faults_runAll {call : Nat → γ → Program ρ ε σ α} {e : ρ} {err : ε} {cs : List γ}
    (hcall : ∀ c ∈ cs, ∀ s, (∃ a s', Returns (fun n => call n c) e s a s') ∨
      Faults (fun n => call n c) e s err)
    (hex : ∃ c ∈ cs, ∀ s, Faults (fun n => call n c) e s err) (s : σ) :
    Faults (fun n => runAll (call n) cs) e s err := by
  induction cs generalizing s with
  | nil =>
    obtain ⟨c, hc, -⟩ := hex
    cases hc
  | cons c cs ih =>
    rcases hcall c List.mem_cons_self s with ⟨a, s', hrun⟩ | hfault
    · refine hrun.bind_faults (Faults.bind (ih (fun c' hc' => ?_) ?_ s'))
      · exact hcall c' (List.mem_cons_of_mem c hc')
      · obtain ⟨c', hc', hfault⟩ := hex
        rcases List.mem_cons.mp hc' with rfl | hmem
        · -- A call that stops cannot have returned.
          obtain ⟨n, hn⟩ := hrun
          obtain ⟨m, hm⟩ := hfault s
          have hboth := hn (max n m) (le_max_left n m)
          rw [hm (max n m) (le_max_right n m)] at hboth
          cases hboth
        · exact ⟨c', hmem, hfault⟩
    · exact hfault.bind

end Program

end Infra
