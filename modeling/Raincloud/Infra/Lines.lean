import Mathlib.Tactic

/-!
# Texts made of lines

Each line is ended by a separator, which no line has inside. Reading goes forward only: to the
end of the line, or over a number of lines.
-/

namespace Infra

variable {α : Type} {sep : α} {line l rest : List α} {lines lines' : List (List α)} {n : Nat}

/-- Each line with its separator. -/
def joinLines (sep : α) (lines : List (List α)) : List α := lines.flatMap (· ++ [sep])

/-- What is behind the next separator, if there is one. -/
def skipLine [DecidableEq α] (sep : α) : List α → Option (List α)
  | [] => none
  | c :: l => if c = sep then some l else skipLine sep l

def skipLines [DecidableEq α] (sep : α) : Nat → List α → Option (List α)
  | 0, l => some l
  | n + 1, l => (skipLine sep l).bind (skipLines sep n)

@[simp] theorem joinLines_nil : joinLines sep [] = [] := rfl

theorem joinLines_cons : joinLines sep (line :: lines) = line ++ sep :: joinLines sep lines := by
  rw [joinLines, List.flatMap_cons, List.append_assoc]
  rfl

theorem joinLines_append :
    joinLines sep (lines ++ lines') = joinLines sep lines ++ joinLines sep lines' :=
  List.flatMap_append

/-- Even of empty lines there is a separator each. -/
theorem length_le_joinLines : lines.length ≤ (joinLines sep lines).length := by
  induction lines with
  | nil => exact Nat.le_refl 0
  | cons line lines ih =>
    rw [joinLines_cons, List.length_append, List.length_cons, List.length_cons]
    omega

section Skip

variable [DecidableEq α]

theorem skipLine_line (h : sep ∉ line) : skipLine sep (line ++ sep :: rest) = some rest := by
  induction line with
  | nil => exact if_pos rfl
  | cons c line ih =>
    obtain ⟨hc, hline⟩ := not_or.mp (List.mem_cons.not.mp h)
    rw [List.cons_append, skipLine, if_neg (Ne.symm hc), ih hline]

/-- The lines in front are skipped one by one. -/
theorem skipLines_join (h : ∀ line ∈ lines, sep ∉ line) :
    skipLines sep lines.length (joinLines sep lines ++ rest) = some rest := by
  induction lines with
  | nil => rfl
  | cons line lines ih =>
    rw [joinLines_cons, List.append_assoc, List.cons_append, List.length_cons, skipLines,
      skipLine_line (h line List.mem_cons_self), Option.bind_some]
    exact ih fun l hl => h l (List.mem_cons_of_mem line hl)

end Skip

end Infra
