import Raincloud.Klibc.PrintSpec

/-!
# Runs of `__print_format`

A complete format is printed as its specification says, and one that ends in the middle of a
directive is read past its end.
-/

namespace Raincloud.Printf

open Infra Infra.Mem

variable {fmt tail out x y : List UInt8} {args rest : List Arg} {ds ds' : List Directive}
  {d d' : Directive} {buf : Nat} {mem : Mem} {c : UInt8}

/-! ## The output of a complete format -/

/-- The output and its terminator are written and nothing else, the arguments are taken, and the
number of bytes is returned. -/
def Formats (fmt : List UInt8) (args : List Arg) (out : List UInt8) (rest : List Arg) : Prop :=
  ∀ buf mem, printFormat buf (fmt ++ [0]) () ⟨mem, args⟩ =
    .ok (((out.length + 1 : Nat) : Int), ⟨putList mem buf (out ++ [0]), rest⟩)

/-- What happens at the terminator. -/
theorem printFormat_of_loop {mem' : Mem}
    (h : printLoop (fmt ++ [0]) buf () ⟨mem, args⟩ =
      printLoop [0] (buf + out.length) () ⟨mem', rest⟩)
    (hw : Written mem mem' buf out) : printFormat buf (fmt ++ [0]) () ⟨mem, args⟩ =
      .ok (((out.length + 1 : Nat) : Int).bmod (2 ^ 32),
        ⟨putList mem buf (out ++ [0]), rest⟩) := by
  have hend : printLoop [0] (buf + out.length) () ⟨mem', rest⟩ =
      .ok (buf + out.length, ⟨mem', rest⟩) := rfl
  have hcount : ((buf + out.length + 1 : Nat) : Int) - buf = (out.length + 1 : Nat) := by omega
  unfold printFormat
  rw [Program.bind_of_ok (h.trans hend), writeByte_bind, hcount]
  dsimp only
  rw [hw.finish 0]
  rfl

theorem printFormat_run (h0 : 0 ∉ formatText ds) (h : expandAll ds args = some (out, rest))
    (hleast : AtEach NotLeast ds args) (hshort : AtEach ShortString ds args) (buf : Nat)
    (mem : Mem) : printFormat buf (formatText ds ++ [0]) () ⟨mem, args⟩ =
      .ok (((out.length + 1 : Nat) : Int).bmod (2 ^ 32),
        ⟨putList mem buf (out ++ [0]), rest⟩) := by
  obtain ⟨ptr, mem', hrun, hout⟩ := printLoop_directives h0 h [0] buf mem
  obtain ⟨rfl, hw⟩ := hout hleast hshort
  exact printFormat_of_loop hrun hw

/--
A complete format is written as the expansions of its directives with a terminator behind, if no
`%ld` gets the least `long` and the length of no string is too large for an `int`. The number of
bytes is returned as an `int`.
-/
theorem printFormat_writes (h0 : 0 ∉ formatText ds) (h : expandAll ds args = some (out, rest))
    (hleast : AtEach NotLeast ds args) (hshort : AtEach ShortString ds args) (buf : Nat)
    (mem : Mem) : ∃ ret : Int,
      printFormat buf (formatText ds ++ [0]) () ⟨mem, args⟩ =
        .ok (ret, ⟨putList mem buf (out ++ [0]), rest⟩) ∧
      ret = ((out.length + 1 : Nat) : Int).bmod (2 ^ 32) ∧
      (out.length + 1 < 2 ^ 31 → ret = (out.length + 1 : Nat)) :=
  ⟨_, printFormat_run h0 h hleast hshort buf mem, rfl,
    fun hlt => Int.bmod_eq_of_le (by omega) (by omega)⟩

/-- "%d!" with -7 -/
theorem printFormat_writes_number : ∃ ret : Int,
    printFormat 0 (formatText [.short (chr 'd') (by decide), .literal (chr '!') (by decide)] ++ [0])
      () ⟨fun _ => 0, [.int (-7)]⟩ =
      .ok (ret, ⟨putList (fun _ => 0) 0 ([0x2d, 0x37, 0x21] ++ [0]), []⟩) ∧
    ret = ((3 + 1 : Nat) : Int).bmod (2 ^ 32) ∧ (3 + 1 < 2 ^ 31 → ret = (3 + 1 : Nat)) := by
  refine printFormat_writes (by decide) (by decide) ?_ ?_ 0 fun _ => 0
  · exact ⟨trivial, fun _ _ _ => ⟨trivial, fun _ _ _ => trivial⟩⟩
  · exact ⟨trivial, fun _ _ _ => ⟨trivial, fun _ _ _ => trivial⟩⟩

/-! ### A text without directives -/

/-- The directives of a text without a '%'. -/
def plain (c : UInt8) (hc : c ≠ chr '%') (n : Nat) : List Directive :=
  List.replicate n (.literal c hc)

theorem formatText_plain (hc : c ≠ chr '%') (n : Nat) :
    formatText (plain c hc n) = List.replicate n c := by
  induction n with
  | zero => rfl
  | succ n ih => exact congrArg (c :: ·) ih

theorem expandAll_plain (hc : c ≠ chr '%') (n : Nat) (args : List Arg) :
    expandAll (plain c hc n) args = some (List.replicate n c, args) := by
  induction n with
  | zero => rfl
  | succ n ih =>
    change (expandAll (plain c hc n) args).map _ = _
    rw [ih]
    rfl

theorem atEach_plain {P : Directive → List Arg → Prop} (hc : c ≠ chr '%')
    (hP : ∀ args, P (.literal c hc) args) (n : Nat) (args : List Arg) :
    AtEach P (plain c hc n) args := by
  induction n generalizing args with
  | zero => trivial
  | succ n ih => exact ⟨hP args, fun _ rest _ => ih rest⟩

/-- With the terminator the length does not fit an `int`. -/
theorem plain_miscounted {n : Nat} (hn : n + 1 = 2 ^ 31) (h0 : c ≠ 0) (hc : c ≠ chr '%') :
    ¬ Formats (formatText (plain c hc n)) [] (List.replicate n c) [] := fun h => by
  have hnul : 0 ∉ formatText (plain c hc n) := by
    rw [formatText_plain, List.mem_replicate]
    exact fun hmem => h0 hmem.2.symm
  have hrun := printFormat_run hnul (expandAll_plain hc n [])
    (atEach_plain hc (fun _ => trivial) n []) (atEach_plain hc (fun _ => trivial) n []) 0 fun _ => 0
  have hclaim := (Prod.mk.inj (Except.ok.inj ((h 0 fun _ => 0).symm.trans hrun))).1
  rw [List.length_replicate, hn] at hclaim
  revert hclaim
  decide

/-- 2147483647 characters. -/
def longText : List Directive := plain (chr 'a') (by decide) (2 ^ 31 - 1)

theorem longText_miscounted : 0 ∉ formatText longText ∧
    expandAll longText [] = some (List.replicate (2 ^ 31 - 1) (chr 'a'), []) ∧
    AtEach NotLeast longText [] ∧
    ¬ Formats (formatText longText) [] (List.replicate (2 ^ 31 - 1) (chr 'a')) [] := by
  unfold longText
  have ha : chr 'a' ≠ 0 := by decide
  refine ⟨?_, expandAll_plain _ _ [], atEach_plain _ (fun _ => trivial) _ [],
    plain_miscounted (by norm_num) ha _⟩
  rw [formatText_plain, List.mem_replicate]
  exact fun hmem => ha hmem.2.symm

/-! ## Formats that end too early -/

/-- Every format is a list of directives with at most a cut one behind. -/
theorem format_cases (fmt : List UInt8) :
    ∃ ds, ∃ tail ∈ [] :: cuts, fmt = formatText ds ++ tail := by
  generalize hn : fmt.length = n
  induction n using Nat.strong_induction_on generalizing fmt with
  | _ n ih =>
    have hgo : ∀ (d : Directive) (fmt' : List UInt8), fmt = d.text ++ fmt' → fmt'.length < n →
        ∃ ds, ∃ tail ∈ [] :: cuts, fmt = formatText ds ++ tail := fun d fmt' he hlt => by
      obtain ⟨ds, tail, htail, hds⟩ := ih _ hlt fmt' rfl
      exact ⟨d :: ds, tail, htail, by rw [he, hds, ← List.append_assoc]; rfl⟩
    match fmt, hn with
    | [], _ => exact ⟨[], [], List.mem_cons_self, rfl⟩
    | c :: fmt, hn =>
      rw [List.length_cons] at hn
      by_cases hc : c = chr '%'
      · subst hc
        match fmt, hn with
        | [], _ => exact ⟨[], _, List.mem_cons_of_mem _ List.mem_cons_self, rfl⟩
        | c :: fmt, hn =>
          rw [List.length_cons] at hn
          by_cases hl : c = chr 'l' ∨ c = chr 'L'
          · match fmt, hn with
            | [], _ =>
              refine ⟨[], [chr '%', c], ?_, rfl⟩
              rcases hl with rfl | rfl <;> decide
            | c' :: fmt, hn =>
              rw [List.length_cons] at hn
              exact hgo (.long c hl c') fmt rfl (by omega)
          · exact hgo (.short c hl) fmt rfl (by omega)
      · exact hgo (.literal c hc) fmt rfl (by omega)

/-- Where a directive ends can be told from its text. -/
theorem text_append (h : d.text ++ x = d'.text ++ y) : x = y := by
  cases d <;> cases d' <;>
    simp only [Directive.text, List.cons_append, List.nil_append, List.cons.injEq] at h
  case literal.literal => exact h.2
  case literal.short hc _ _ => exact absurd h.1 hc
  case literal.long hc _ _ _ => exact absurd h.1 hc
  case short.literal hc => exact absurd h.1.symm hc
  case short.short => exact h.2.2
  case short.long hc l hl c' => exact absurd (h.2.1 ▸ hl) hc
  case long.literal hc => exact absurd h.1.symm hc
  case long.short hl _ _ hc => exact absurd (h.2.1 ▸ hl) hc
  case long.long => exact h.2.2.2

/-- No directive has the text of a cut one, or less than that. -/
theorem cut_not_text (htail : tail ∈ cuts) : tail ≠ d.text ++ x := by
  intro h
  simp only [cuts, List.mem_cons, List.not_mem_nil, or_false] at htail
  cases d with
  | literal c hc =>
    have hhead : tail.head? = some (chr '%') := by
      rcases htail with rfl | rfl | rfl <;> rfl
    rw [h] at hhead
    exact hc (Option.some.inj hhead)
  | short c hc =>
    rcases htail with rfl | rfl | rfl
    · cases h
    · exact hc (.inl (List.cons.inj (List.cons.inj h).2).1.symm)
    · exact hc (.inr (List.cons.inj (List.cons.inj h).2).1.symm)
  | long l hl c => rcases htail with rfl | rfl | rfl <;> cases h

/-- A cut format is not complete. -/
theorem cut_not_complete (htail : tail ∈ cuts) : ¬ Complete (formatText ds ++ tail) := by
  rintro ⟨ds', h⟩
  induction ds generalizing ds' with
  | nil =>
    cases ds' with
    | nil =>
      have hnil : tail = [] := h.symm
      subst hnil
      revert htail
      decide
    | cons d' ds' => exact cut_not_text htail (x := formatText ds') h.symm
  | cons d ds ih =>
    have hsplit : formatText ds' = d.text ++ (formatText ds ++ tail) :=
      h.trans (List.append_assoc _ _ _)
    cases ds' with
    | nil => cases d <;> cases hsplit
    | cons d' ds' => exact ih ds' (text_append hsplit)

/-- The arguments are what the directives ask for, up to a cut one. -/
def Supplies (fmt : List UInt8) (args : List Arg) : Prop :=
  ∃ ds, ∃ tail ∈ [] :: cuts, fmt = formatText ds ++ tail ∧ (expandAll ds args).isSome

/-- The format is not read past its end, and the function returns. -/
def StopsAtEnd (fmt : List UInt8) : Prop := ∀ buf mem args, Supplies fmt args →
  ∃ ret s, printFormat buf (fmt ++ [0]) () ⟨mem, args⟩ = .ok (ret, s)

theorem onString_supplied (f : List UInt8 → List UInt8) :
    ∃ as, ∀ args, ∃ out, onString f (as ++ args) = some (out, args) :=
  ⟨[.string []], fun _ => ⟨f [], rfl⟩⟩

theorem onInt_supplied (f : BitVec 32 → List UInt8) :
    ∃ as, ∀ args, ∃ out, onInt f (as ++ args) = some (out, args) :=
  ⟨[.int 0], fun _ => ⟨f 0, rfl⟩⟩

theorem onLong_supplied (f : BitVec 64 → List UInt8) :
    ∃ as, ∀ args, ∃ out, onLong f (as ++ args) = some (out, args) :=
  ⟨[.long 0], fun _ => ⟨f 0, rfl⟩⟩

/-- There are arguments for every directive. -/
theorem Directive.supplied (d : Directive) :
    ∃ as, ∀ args, ∃ out, d.expand (as ++ args) = some (out, args) := by
  have hnone : ∃ as : List Arg, ∀ args, ∃ out : List UInt8,
      some (([] : List UInt8), as ++ args) = some (out, args) := ⟨[], fun _ => ⟨[], rfl⟩⟩
  cases d with
  | literal c hc => exact ⟨[], fun _ => ⟨[c], rfl⟩⟩
  | short c hc =>
    simp only [Directive.expand, expandShort]
    split_ifs
    · exact onString_supplied _
    · exact onInt_supplied _
    · exact onInt_supplied _
    · exact onInt_supplied _
    · exact hnone
  | long l hl c =>
    simp only [Directive.expand, expandLong]
    split_ifs
    · exact onLong_supplied _
    · exact onLong_supplied _
    · exact hnone

theorem exists_args (ds : List Directive) : ∃ args, (expandAll ds args).isSome := by
  induction ds with
  | nil => exact ⟨[], rfl⟩
  | cons d ds ih =>
    obtain ⟨as, has⟩ := d.supplied
    obtain ⟨args, hargs⟩ := ih
    obtain ⟨out, hout⟩ := has args
    refine ⟨as ++ args, ?_⟩
    unfold expandAll
    rw [hout, Option.isSome_map]
    exact hargs

/-- A cut format is read past its end. -/
theorem printLoop_cut (htail : tail ∈ cuts) (buf : Nat) (s : PrintState) :
    printLoop (tail ++ [0]) buf () s = .error .pastEnd := by
  simp only [cuts, List.mem_cons, List.not_mem_nil, or_false] at htail
  rcases htail with rfl | rfl | rfl <;> rfl

theorem printFormat_cut (h0 : 0 ∉ formatText ds) (h : expandAll ds args = some (out, rest))
    (htail : tail ∈ cuts) (buf : Nat) (mem : Mem) :
    printFormat buf (formatText ds ++ tail ++ [0]) () ⟨mem, args⟩ = .error .pastEnd := by
  obtain ⟨ptr, mem', hrun, -⟩ := printLoop_directives h0 h (tail ++ [0]) buf mem
  unfold printFormat
  rw [List.append_assoc, Program.bind_apply, hrun, printLoop_cut htail]

/-- A complete one is not, whatever its arguments. -/
theorem printFormat_returns (h0 : 0 ∉ formatText ds) (h : expandAll ds args = some (out, rest))
    (buf : Nat) (mem : Mem) :
    ∃ ret s, printFormat buf (formatText ds ++ [0]) () ⟨mem, args⟩ = .ok (ret, s) := by
  obtain ⟨ptr, mem', hrun, -⟩ := printLoop_directives h0 h [0] buf mem
  have hend : printLoop [0] ptr () ⟨mem', rest⟩ = .ok (ptr, ⟨mem', rest⟩) := rfl
  unfold printFormat
  rw [Program.bind_of_ok (hrun.trans hend)]
  exact ⟨_, _, rfl⟩

/-- The format is read up to its end and no further if and only if it is complete. -/
theorem printFormat_stops_iff (h0 : 0 ∉ fmt) : StopsAtEnd fmt ↔ Complete fmt := by
  constructor
  · intro hstops
    obtain ⟨ds, tail, htail, rfl⟩ := format_cases fmt
    rcases List.mem_cons.mp htail with rfl | hcut
    · exact ⟨ds, (List.append_nil _).symm⟩
    · obtain ⟨args, hargs⟩ := exists_args ds
      obtain ⟨⟨out, rest⟩, h⟩ := Option.isSome_iff_exists.mp hargs
      obtain ⟨ret, s, hrun⟩ := hstops 0 (fun _ => 0) args ⟨ds, tail, htail, rfl, hargs⟩
      rw [printFormat_cut (fun hmem => h0 (List.mem_append_left _ hmem)) h hcut] at hrun
      cases hrun
  · rintro hcomplete buf mem args ⟨ds, tail, htail, rfl, hargs⟩
    rcases List.mem_cons.mp htail with rfl | hcut
    · obtain ⟨⟨out, rest⟩, h⟩ := Option.isSome_iff_exists.mp hargs
      rw [List.append_nil] at h0 ⊢
      exact printFormat_returns h0 h buf mem
    · exact absurd hcomplete (cut_not_complete hcut)

/-- "%d" -/
theorem number_stops : StopsAtEnd [chr '%', chr 'd'] :=
  (printFormat_stops_iff (by decide)).mpr ⟨[.short (chr 'd') (by decide)], rfl⟩

theorem percent_overruns : ¬ StopsAtEnd [chr '%'] := by
  intro h
  have hrun : printFormat 0 ([chr '%'] ++ [0]) () ⟨fun _ => 0, []⟩ = .error .pastEnd := by
    have hargs : expandAll [] [] = some ([], []) := rfl
    exact printFormat_cut List.not_mem_nil hargs List.mem_cons_self 0 fun _ => 0
  obtain ⟨ret, s, hret⟩ := h 0 (fun _ => 0) [] ⟨[], [chr '%'], by decide, rfl, rfl⟩
  rw [hrun] at hret
  cases hret

end Raincloud.Printf
