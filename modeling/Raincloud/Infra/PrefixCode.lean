import Mathlib.Tactic

/-!
# Codes read from the left

Each symbol has a code word, and a reader takes a symbol from the front of a text. If it reads
every word back, whatever follows, the text of a list of symbols is decoded, and different lists
have different texts.
-/

namespace Infra

variable {α β : Type} {code : α → List β} {read : List β → Option (α × List β)} {as bs : List α}

/-- One symbol after the other, at most `n` of them. -/
def decodeAll (read : List β → Option (α × List β)) : Nat → List β → Option (List α)
  | _, [] => some []
  | 0, _ :: _ => none
  | n + 1, b :: l =>
    match read (b :: l) with
    | none => none
    | some (a, l) => (decodeAll read n l).map (a :: ·)

/-- The word of `a` is not empty, and is read back. -/
def ReadsBack (code : α → List β) (read : List β → Option (α × List β)) (a : α) : Prop :=
  code a ≠ [] ∧ ∀ l, read (code a ++ l) = some (a, l)

/-- A text is decoded, if only there is room for its symbols. -/
theorem decodeAll_code {n : Nat} (h : ∀ a ∈ as, ReadsBack code read a) (hn : as.length ≤ n) :
    decodeAll read n (as.flatMap code) = some as := by
  induction as generalizing n with
  | nil => cases n <;> rfl
  | cons a as ih =>
    obtain ⟨hne, hread⟩ := h a List.mem_cons_self
    obtain ⟨b, l, hcode⟩ := List.exists_cons_of_ne_nil hne
    obtain ⟨n, rfl⟩ := Nat.exists_eq_add_of_le' (Nat.le_trans (Nat.succ_pos as.length) hn)
    have hfirst := hread (as.flatMap code)
    rw [hcode, List.cons_append] at hfirst
    rw [List.flatMap_cons, hcode, List.cons_append, decodeAll, hfirst]
    dsimp only
    rw [ih (fun x hx => h x (List.mem_cons_of_mem a hx)) (Nat.le_of_succ_le_succ hn)]
    rfl

/-- There are no more symbols than there is text. -/
theorem length_le_code (h : ∀ a ∈ as, ReadsBack code read a) :
    as.length ≤ (as.flatMap code).length := by
  induction as with
  | nil => exact Nat.le_refl 0
  | cons a as ih =>
    have hpos := List.length_pos_iff.mpr (h a List.mem_cons_self).1
    have hrest := ih fun x hx => h x (List.mem_cons_of_mem a hx)
    rw [List.flatMap_cons, List.length_append, List.length_cons]
    omega

/-- Lists with the same text are the same. -/
theorem code_injective (ha : ∀ a ∈ as, ReadsBack code read a)
    (hb : ∀ b ∈ bs, ReadsBack code read b) (h : as.flatMap code = bs.flatMap code) : as = bs := by
  have h1 := decodeAll_code ha (length_le_code ha)
  have h2 := decodeAll_code hb (length_le_code hb)
  rw [h] at h1
  exact Option.some.inj (h1.symm.trans h2)

end Infra
