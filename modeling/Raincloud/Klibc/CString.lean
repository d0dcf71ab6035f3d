import Mathlib.Data.List.DropRight
import Mathlib.Tactic

/-!
# `string.c`

A string is the list of its bytes up to the terminator, so none of them is 0. A pointer into a
string is what is left of it from there on.
-/

set_option linter.style.nameCheck false

namespace Raincloud

/-! ## The functions -/

/-- A `char` is signed. -/
def strcmp : List UInt8 → List UInt8 → Int
  | [], [] => 0
  | [], b :: _ => if 0 < b.toInt8 then -1 else 1
  | a :: _, [] => if a.toInt8 < 0 then -1 else 1
  | a :: s1, b :: s2 =>
    if a = b then strcmp s1 s2
    else if a.toInt8 < b.toInt8 then -1 else 1

/-- The length of the prefix of bytes from `accept`. -/
def strspn (s accept : List UInt8) : Nat :=
  match s with
  | [] => 0
  | c :: s => if c ∈ accept then strspn s accept + 1 else 0

/-- The first byte from `accept`. -/
def strpbrk (s accept : List UInt8) : Option (List UInt8) :=
  match s with
  | [] => none
  | c :: s => if c ∈ accept then some (c :: s) else strpbrk s accept

/-- The last `c`. -/
def strrchr (s : List UInt8) (c : UInt8) : Option (List UInt8) :=
  match s with
  | [] => none
  | a :: s =>
    match strrchr s c with
    | some r => some r
    | none => if a = c then some (a :: s) else none

/-- A token, and what is left in `*save_ptr`. -/
def strtokR (s delim : List UInt8) : Option (List UInt8 × List UInt8) :=
  let token := s.drop (strspn s delim)
  if token = [] then none
  else
    match strpbrk token delim with
    | none => some (token, [])
    | some rest => some (token.take (token.length - rest.length), rest.tail)

/-! ## What they compute -/

variable {s t A : List UInt8} {a c : UInt8}

theorem strcmp_eq_zero : ∀ {s t : List UInt8}, strcmp s t = 0 ↔ s = t
  | [], [] => by simp [strcmp]
  | [], b :: t => by
    unfold strcmp
    split <;> simp
  | a :: s, [] => by
    unfold strcmp
    split <;> simp
  | a :: s, b :: t => by
    unfold strcmp
    by_cases h : a = b
    · rw [if_pos h, strcmp_eq_zero, h, List.cons.injEq, and_iff_right rfl]
    · rw [if_neg h, List.cons.injEq]
      split <;> simp [h]

theorem strrchr_eq_none : ∀ {s : List UInt8}, strrchr s c = none ↔ c ∉ s
  | [] => by simp [strrchr]
  | a :: s => by
    unfold strrchr
    cases h : strrchr s c with
    | some r =>
      have hmem : c ∈ s := by
        by_contra hc
        rw [strrchr_eq_none.mpr hc] at h
        cases h
      simp [hmem]
    | none =>
      have hs := strrchr_eq_none.mp h
      by_cases hac : a = c
      · simp [hac]
      · simp [hac, hs, Ne.symm hac]

/-- The string is cut at its last `c`. -/
theorem strrchr_eq_some : strrchr s c = some t ↔ ∃ A B, s = A ++ c :: B ∧ c ∉ B ∧ t = c :: B := by
  constructor
  · intro h
    induction s with
    | nil => cases h
    | cons a s ih =>
      unfold strrchr at h
      cases hs : strrchr s c with
      | some r =>
        rw [hs] at h
        obtain ⟨A, B, rfl, hB, rfl⟩ := ih (hs.trans h)
        exact ⟨a :: A, B, rfl, hB, rfl⟩
      | none =>
        rw [hs] at h
        dsimp only at h
        by_cases hac : a = c
        · rw [if_pos hac] at h
          cases h
          exact ⟨[], s, by rw [hac]; rfl, strrchr_eq_none.mp hs, by rw [hac]⟩
        · rw [if_neg hac] at h
          cases h
  · rintro ⟨A, B, rfl, hB, rfl⟩
    have hlast : strrchr (c :: B) c = some (c :: B) := by
      rw [strrchr, strrchr_eq_none.mpr hB]
      exact if_pos rfl
    induction A with
    | nil => exact hlast
    | cons a A ih => rw [List.cons_append, strrchr, ih]

/-! ## The components of a path -/

def slash : UInt8 := 0x2f

/-- The maximal runs of bytes other than the slash. -/
def components (path : List UInt8) : List (List UInt8) := (path.splitOn slash).filter (· ≠ [])

@[simp] theorem components_nil : components [] = [] := rfl

theorem components_append_slash (s t : List UInt8) :
    components (s ++ slash :: t) = components s ++ components t := by
  unfold components
  rw [List.splitOn_eq_splitOnP, List.splitOn_eq_splitOnP, List.splitOn_eq_splitOnP,
    List.splitOnP_append_cons s t (by simp), List.filter_append]

@[simp] theorem components_slash (s : List UInt8) : components (slash :: s) = components s :=
  components_append_slash [] s

/-- A string without a slash is one component, unless it is empty. -/
theorem components_of_notMem (h : slash ∉ s) (hne : s ≠ []) : components s = [s] := by
  unfold components
  rw [List.splitOn_eq_splitOnP, List.splitOnP_eq_singleton fun x hx => by
    simpa using fun he : x = slash => h (he ▸ hx)]
  simp [hne]

theorem component_ne_nil {n : List UInt8} (h : n ∈ components s) : n ≠ [] := by
  simpa using (List.mem_filter.mp h).2

theorem splitOn_notMem {p : List UInt8} : ∀ {s : List UInt8}, p ∈ s.splitOn slash → slash ∉ p
  | [], h => by
    rw [List.splitOn_nil, List.mem_singleton] at h
    rw [h]
    exact List.not_mem_nil
  | a :: s, h => by
    rw [List.splitOn_cons_eq_if_modifyHead] at h
    by_cases ha : a = slash
    · rw [if_pos (by simp [ha])] at h
      rcases List.mem_cons.mp h with rfl | h
      · exact List.not_mem_nil
      · exact splitOn_notMem h
    · rw [if_neg (by simpa using ha)] at h
      cases hs : s.splitOn slash with
      | nil =>
        rw [hs] at h
        cases h
      | cons q qs =>
        have hq : ∀ r ∈ q :: qs, slash ∉ r := fun r hr => splitOn_notMem (hs ▸ hr)
        rw [hs, List.modifyHead_cons] at h
        rcases List.mem_cons.mp h with rfl | h
        · rw [List.mem_cons, not_or]
          exact ⟨Ne.symm ha, hq q List.mem_cons_self⟩
        · exact hq p (List.mem_cons_of_mem q h)

theorem component_notMem {n : List UInt8} (h : n ∈ components s) : slash ∉ n :=
  splitOn_notMem (List.mem_filter.mp h).1

theorem strpbrk_slash_none : ∀ {s : List UInt8}, strpbrk s [slash] = none ↔ slash ∉ s
  | [] => by simp [strpbrk]
  | a :: s => by
    unfold strpbrk
    by_cases h : a = slash
    · simp [h]
    · simp [h, Ne.symm h, strpbrk_slash_none]

theorem strpbrk_slash_some (h : strpbrk s [slash] = some t) :
    ∃ A B, s = A ++ slash :: B ∧ slash ∉ A ∧ t = slash :: B := by
  induction s with
  | nil => cases h
  | cons a s ih =>
    unfold strpbrk at h
    by_cases ha : a = slash
    · rw [if_pos (by simp [ha])] at h
      cases h
      exact ⟨[], s, by rw [ha]; rfl, by simp, by rw [ha]⟩
    · rw [if_neg (by simpa using ha)] at h
      obtain ⟨A, B, rfl, hA, rfl⟩ := ih h
      exact ⟨a :: A, B, rfl, by simp [Ne.symm ha, hA], rfl⟩

/-- The leading slashes are skipped. -/
theorem drop_strspn : ∀ s : List UInt8, components (s.drop (strspn s [slash])) = components s ∧
    (s.drop (strspn s [slash])).length ≤ s.length ∧ (s.drop (strspn s [slash])).head? ≠ some slash
  | [] => by simp [strspn]
  | a :: s => by
    unfold strspn
    by_cases h : a = slash
    · obtain ⟨h1, h2, h3⟩ := drop_strspn s
      rw [if_pos (by simp [h]), List.drop_succ_cons, h, components_slash]
      exact ⟨h1, h2.trans (Nat.le_succ _), h3⟩
    · rw [if_neg (by simpa using h)]
      exact ⟨rfl, le_rfl, by simpa using h⟩

/-- `strtok_r` hands out the components one by one. -/
theorem strtokR_slash (s : List UInt8) : match strtokR s [slash] with
    | none => components s = []
    | some (token, save) => components s = token :: components save ∧ save.length < s.length := by
  obtain ⟨hcomp, hlen, hhead⟩ := drop_strspn s
  unfold strtokR
  rw [← hcomp]
  generalize hw : s.drop (strspn s [slash]) = w at hlen hhead
  dsimp only
  by_cases hnil : w = []
  · rw [if_pos hnil, hnil]
    rfl
  · have hpos := List.length_pos_iff.mpr hnil
    rw [if_neg hnil]
    cases hb : strpbrk w [slash] with
    | none =>
      refine ⟨?_, by simp only [List.length_nil]; omega⟩
      exact components_of_notMem (strpbrk_slash_none.mp hb) hnil
    | some rest =>
      obtain ⟨A, B, rfl, hA, rfl⟩ := strpbrk_slash_some hb
      have hA0 : A ≠ [] := by
        rintro rfl
        exact hhead rfl
      dsimp only
      rw [List.length_append, Nat.add_sub_cancel, List.take_left, components_append_slash,
        components_of_notMem hA hA0]
      refine ⟨rfl, ?_⟩
      simp only [List.length_append, List.length_cons, List.tail_cons] at hlen ⊢
      omega

/-! ## The parts of a path -/

/-- A path without one slash at its end. -/
def stripped (path : List UInt8) : List UInt8 :=
  if path.getLast? = some slash then path.dropLast else path

/-- The last part of a path, which may be empty. -/
def namePart (path : List UInt8) : List UInt8 := (stripped path).rtakeWhile (· ≠ slash)

/-- A path up to its last part. -/
def dirPart (path : List UInt8) : List UInt8 := (stripped path).rdropWhile (· ≠ slash)

/-- A path without the slashes at its end. -/
def withoutTail (path : List UInt8) : List UInt8 := path.rdropWhile (· = slash)

theorem slash_notMem_namePart (path : List UInt8) : slash ∉ namePart path := fun h => by
  simpa using List.mem_rtakeWhile_imp h

theorem cut_last (A : List UInt8) (h : slash ∉ t) :
    (A ++ slash :: t).rtakeWhile (· ≠ slash) = t ∧
      (A ++ slash :: t).rdropWhile (· ≠ slash) = A ++ [slash] := by
  have hall : ∀ x ∈ t.reverse, decide (x ≠ slash) = true := fun x hx => by
    simpa using fun he : x = slash => h (he ▸ List.mem_reverse.mp hx)
  unfold List.rtakeWhile List.rdropWhile
  rw [List.reverse_append, List.reverse_cons, List.append_assoc,
    List.takeWhile_append_of_pos hall, List.dropWhile_append_of_pos hall]
  simp

theorem cut_slash (h : slash ∈ s) : ∃ A B, s = A ++ slash :: B ∧ slash ∉ B := by
  cases hr : strrchr s slash with
  | none => exact absurd h (strrchr_eq_none.mp hr)
  | some t =>
    obtain ⟨A, B, hs, hB, -⟩ := strrchr_eq_some.mp hr
    exact ⟨A, B, hs, hB⟩

theorem slash_mem_stripped (hhead : s.head? = some slash) (hne : s ≠ [slash]) :
    slash ∈ stripped s := by
  obtain ⟨t, rfl⟩ : ∃ t, s = slash :: t := by
    cases s with
    | nil => cases hhead
    | cons a t => exact ⟨t, by rw [Option.some.inj hhead]⟩
  unfold stripped
  split
  · cases t with
    | nil => exact absurd rfl hne
    | cons b t => simp
  · simp

/-- The components of a path, by its parts. -/
theorem components_parts (h : slash ∈ stripped s) :
    components s = components (dirPart s) ++ components (namePart s) := by
  obtain ⟨A, B, hs, hB⟩ := cut_slash h
  have hcomp : components s = components (stripped s) := by
    unfold stripped
    split
    · next hlast =>
      obtain ⟨t, ht⟩ : ∃ t, s = t ++ [slash] := by
        have hne : s ≠ [] := by
          rintro rfl
          cases hlast
        refine ⟨s.dropLast, ?_⟩
        rw [List.getLast?_eq_getLast_of_ne_nil hne] at hlast
        conv_lhs => rw [← List.dropLast_append_getLast hne, Option.some.inj hlast]
      rw [ht, List.dropLast_concat, components_append_slash]
      simp
    · rfl
  rw [hcomp, dirPart, namePart, hs, (cut_last A hB).1, (cut_last A hB).2,
    components_append_slash, components_append_slash]
  simp

/-- A path of the given components. -/
def render (cs : List (List UInt8)) : List UInt8 := cs.flatMap fun c => slash :: c

theorem components_render : ∀ {cs : List (List UInt8)}, (∀ c ∈ cs, slash ∉ c ∧ c ≠ []) →
    components (render cs) = cs
  | [], _ => rfl
  | c :: cs, h => by
    have hc := h c List.mem_cons_self
    have ih := components_render fun d hd => h d (List.mem_cons_of_mem c hd)
    unfold render at ih ⊢
    rw [List.flatMap_cons, List.cons_append, components_slash]
    cases cs with
    | nil =>
      rw [List.flatMap_nil, List.append_nil]
      exact components_of_notMem hc.1 hc.2
    | cons d cs =>
      rw [List.flatMap_cons, List.cons_append, components_slash] at ih
      rw [List.flatMap_cons, List.cons_append, components_append_slash, ih,
        components_of_notMem hc.1 hc.2]
      rfl

end Raincloud
