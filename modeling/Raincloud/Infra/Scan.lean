import Raincloud.Infra.Program

/-!
# Loops that scan until they stop

A loop looks at 0, 1, … and does its body at each index, until the index is one to stop at. The
index is a byte, and there is no bound but a check that fails at the limit. What such a loop
goes through is a list, or nothing when it fails.
-/

namespace Infra

variable {β : Type}

/-- What the bodies give at the indices from `i` on, up to the first one to stop at. -/
def scan (stop : Nat → Bool) (body : Nat → Option (List β)) : Nat → Nat → Option (List β)
  | 0, _ => none
  | room + 1, i =>
    if stop i then some []
    else
      match body i with
      | none => none
      | some bs => (scan stop body room (i + 1)).map (bs ++ ·)

variable {stop : Nat → Bool} {body : Nat → Option (List β)} {room i : Nat} {l : List β}

/-- The loop stops at the index `i + k`, and gets that far. -/
theorem scan_eq_some : scan stop body room i = some l ↔ ∃ k < room, stop (i + k) = true ∧
    (∀ j, i ≤ j → j < i + k → stop j = false ∧ (body j).isSome) ∧
      l = (List.range' i k).flatMap fun j => (body j).getD [] := by
  induction room generalizing i l with
  | zero => simp [scan]
  | succ room ih =>
    unfold scan
    cases hstop : stop i with
    | true =>
      rw [if_pos rfl, Option.some.injEq]
      constructor
      · rintro rfl
        exact ⟨0, Nat.succ_pos room, hstop, fun j h1 h2 => absurd h2 (by omega), rfl⟩
      · rintro ⟨k, -, -, hall, rfl⟩
        rcases Nat.eq_zero_or_pos k with rfl | hk
        · rfl
        · have hgo := (hall i (Nat.le_refl i) (by omega)).1
          rw [hstop] at hgo
          cases hgo
    | false =>
      rw [if_neg Bool.false_ne_true]
      cases hbody : body i with
      | none =>
        refine iff_of_false (fun h => by cases h) ?_
        rintro ⟨k, -, hk, hall, -⟩
        rcases Nat.eq_zero_or_pos k with rfl | hpos
        · rw [Nat.add_zero, hstop] at hk
          cases hk
        · have hsome := (hall i (Nat.le_refl i) (by omega)).2
          rw [hbody] at hsome
          cases hsome
      | some bs =>
        rw [Option.map_eq_some_iff]
        constructor
        · rintro ⟨t, ht, rfl⟩
          obtain ⟨k, hk, hend, hall, rfl⟩ := ih.mp ht
          refine ⟨k + 1, Nat.succ_lt_succ hk, by rwa [Nat.add_comm k 1, ← Nat.add_assoc],
            fun j h1 h2 => ?_, ?_⟩
          · rcases Nat.eq_or_lt_of_le h1 with rfl | hlt
            · exact ⟨hstop, by rw [hbody]; rfl⟩
            · exact hall j hlt (by omega)
          · rw [List.range'_succ, List.flatMap_cons, hbody]
            rfl
        · rintro ⟨k, hk, hend, hall, rfl⟩
          obtain ⟨k, rfl⟩ : ∃ k', k = k' + 1 := by
            rcases Nat.eq_zero_or_pos k with rfl | hpos
            · rw [Nat.add_zero, hstop] at hend
              cases hend
            · exact ⟨k - 1, by omega⟩
          refine ⟨_, ih.mpr ⟨k, by omega, ?_, fun j h1 h2 => hall j (by omega) (by omega), rfl⟩, ?_⟩
          · rwa [Nat.add_assoc, Nat.add_comm 1 k]
          · rw [List.range'_succ, List.flatMap_cons, hbody]
            rfl

/-! ## As programs -/

namespace Program

variable {ρ ε σ : Type}

/-- `for (i = ..;; i ++)` with a byte, left when `stop` says so. -/
def scanLoop (endless : ε) (stop : Nat → Program ρ ε σ Bool) (body : Nat → Program ρ ε σ Unit) :
    Nat → Nat → Program ρ ε σ Unit
  | 0, _ => fault endless
  | fuel + 1, i => do
    if ← stop i then return ()
    else
      body i
      scanLoop endless stop body fuel ((i + 1) % 256)

/-- The program returns in a state that has taken in the list, or fails when there is none. -/
def Yields (x : Program ρ ε σ Unit) (e : ρ) (s : σ) (err : ε) (Q : List β → σ → Prop)
    (result : Option (List β)) : Prop :=
  match result with
  | some l => ∃ s', x e s = .ok ((), s') ∧ Q l s'
  | none => x e s = .error err

variable {x : Program ρ ε σ Unit} {e : ρ} {s s' : σ} {err : ε} {Q : List β → σ → Prop}
  {r : Option (List β)}

/-- A first part that returns for certain. -/
theorem Yields.step {α : Type} {y : Program ρ ε σ α} {f : α → Program ρ ε σ Unit} {a : α}
    (hy : y e s = .ok (a, s')) (h : Yields (f a) e s' err Q r) : Yields (y >>= f) e s err Q r := by
  unfold Yields at h ⊢
  rw [bind_of_ok hy]
  exact h

/-- The loop yields what a scan with the results of its bodies gives. -/
theorem yields_scanLoop {endless : ε} {stops : Nat → Program ρ ε σ Bool}
    {bodies : Nat → Program ρ ε σ Unit} {n : Nat} (hn : n < 256)
    (hstop : ∀ i < n, ∀ acc s, Q acc s →
      ∃ s', stops i e s = .ok (stop i, s') ∧ Q acc s')
    (hend : ∀ acc s, Q acc s → stops n e s = .error err)
    (hbody : ∀ i < n, ∀ acc s, Q acc s → stop i = false →
      Yields (bodies i) e s err (fun bs s' => Q (acc ++ bs) s') (body i)) :
    ∀ room i fuel acc s, i + room = n → room < fuel → Q acc s →
      Yields (scanLoop endless stops bodies fuel i) e s err (fun l s' => Q (acc ++ l) s')
        (scan stop body room i) := by
  intro room
  induction room with
  | zero =>
    intro i fuel acc s hi hfuel hQ
    obtain ⟨fuel, rfl⟩ : ∃ k, fuel = k + 1 := ⟨fuel - 1, by omega⟩
    obtain rfl : i = n := by omega
    show scanLoop endless stops bodies (fuel + 1) i e s = .error err
    rw [scanLoop, bind_apply, hend acc s hQ]
  | succ room ih =>
    intro i fuel acc s hi hfuel hQ
    obtain ⟨fuel, rfl⟩ : ∃ k, fuel = k + 1 := ⟨fuel - 1, by omega⟩
    obtain ⟨t, hrun, hQt⟩ := hstop i (by omega) acc s hQ
    rw [scanLoop]
    refine Yields.step hrun ?_
    unfold scan
    cases hgo : stop i with
    | true => exact ⟨t, rfl, by simpa using hQt⟩
    | false =>
      rw [if_neg Bool.false_ne_true, if_neg Bool.false_ne_true]
      have hb := hbody i (by omega) acc t hQt hgo
      have hnext : (i + 1) % 256 = i + 1 := Nat.mod_eq_of_lt (by omega)
      cases hbs : body i with
      | none =>
        rw [hbs] at hb
        show (bodies i >>= _) e t = .error err
        rw [bind_apply, show bodies i e t = .error err from hb]
      | some bs =>
        rw [hbs] at hb
        obtain ⟨u, hrunb, hQu⟩ := hb
        refine Yields.step hrunb ?_
        rw [hnext]
        have hrest := ih (i + 1) fuel (acc ++ bs) u (by omega) (by omega) hQu
        cases hscan : scan stop body room (i + 1) with
        | none =>
          rw [hscan] at hrest
          exact hrest
        | some l =>
          rw [hscan] at hrest
          obtain ⟨v, hrunv, hQv⟩ := hrest
          exact ⟨v, hrunv, by rwa [List.append_assoc] at hQv⟩

end Program

end Infra
