import Raincloud.Klibc.PrintFormat
import Raincloud.Klibc.Stdout

/-!
# Texts for `__stdout`

A format is taken apart into pieces, and what is put together in a buffer is followed piece by
piece.
-/

set_option linter.style.nameCheck false

namespace Raincloud.Printf

open Infra Infra.Mem Infra.Terminal

/-! ## Formats -/

/-- The format is complete and asks for arguments that are there: with them it becomes `out`. -/
structure Expands (fmt : List UInt8) (args : List Arg) (out : List UInt8) (rest : List Arg) :
    Prop where
  noZero : 0 ∉ fmt
  directives : ∃ ds, formatText ds = fmt ∧ expandAll ds args = some (out, rest) ∧
    AtEach NotLeast ds args ∧ AtEach ShortString ds args

section Formats

variable {fmt fmt' out out' : List UInt8} {args rest rest' : List Arg} {ds ds' : List Directive}
  {P : Directive → List Arg → Prop}

theorem expandAll_append (h : expandAll ds args = some (out, rest)) :
    expandAll (ds ++ ds') args
      = (expandAll ds' rest).map fun (outs, args) => (out ++ outs, args) := by
  induction ds generalizing args out with
  | nil =>
    cases h
    simp
  | cons d ds ih =>
    rw [expandAll] at h
    rw [List.cons_append, expandAll]
    cases hd : d.expand args with
    | none => simp [hd] at h
    | some r =>
      obtain ⟨o, args'⟩ := r
      simp only [hd, Option.map_eq_some_iff, Prod.exists, Prod.mk.injEq] at h
      obtain ⟨os, args'', hds, rfl, rfl⟩ := h
      simp [ih hds, Option.map_map, Function.comp_def]

theorem atEach_append (h : expandAll ds args = some (out, rest)) (hds : AtEach P ds args)
    (hds' : AtEach P ds' rest) : AtEach P (ds ++ ds') args := by
  induction ds generalizing args out with
  | nil =>
    cases h
    exact hds'
  | cons d ds ih =>
    refine ⟨hds.1, fun o args' hd => ?_⟩
    simp only [expandAll, hd, Option.map_eq_some_iff, Prod.exists, Prod.mk.injEq] at h
    obtain ⟨os, args'', hrest, -, rfl⟩ := h
    exact ih hrest (hds.2 o args' hd)

/-- Formats one behind the other. -/
theorem Expands.append (h : Expands fmt args out rest) (h' : Expands fmt' rest out' rest') :
    Expands (fmt ++ fmt') args (out ++ out') rest' := by
  obtain ⟨ds, rfl, hout, hleast, hshort⟩ := h.directives
  obtain ⟨ds', rfl, hout', hleast', hshort'⟩ := h'.directives
  refine ⟨by simp [h.noZero, h'.noZero], ds ++ ds', by simp [formatText], ?_,
    atEach_append hout hleast hleast', atEach_append hout hshort hshort'⟩
  rw [expandAll_append hout, hout']
  rfl

theorem Expands.single {d : Directive} (h0 : 0 ∉ d.text) (h : d.expand args = some (out, rest))
    (hleast : NotLeast d args) (hshort : ShortString d args) : Expands d.text args out rest := by
  refine ⟨h0, [d], by simp [formatText], ?_, ⟨hleast, fun _ _ _ => trivial⟩,
    ⟨hshort, fun _ _ _ => trivial⟩⟩
  simp [expandAll, h]

/-- Text without directives is printed as it is. -/
theorem Expands.text {l : List UInt8} (h0 : 0 ∉ l) (hpercent : chr '%' ∉ l) (args : List Arg) :
    Expands l args l args := by
  induction l with
  | nil => exact ⟨h0, [], rfl, rfl, trivial, trivial⟩
  | cons c l ih =>
    simp only [List.mem_cons, not_or] at h0 hpercent
    have hone : Expands [c] args [c] args := Expands.single (d := .literal c (Ne.symm hpercent.1))
      (by simpa [Directive.text] using h0.1) rfl trivial trivial
    exact hone.append (ih h0.2 hpercent.2)

/-- `%s` -/
theorem Expands.string {l : List UInt8} (hl : l.length < 2 ^ 31) (args : List Arg) :
    Expands [chr '%', chr 's'] (.string l :: args) l args :=
  Expands.single (d := .short (chr 's') (by decide)) (by decide) rfl trivial fun _ => hl

/-- `%d` -/
theorem Expands.int (w : BitVec 32) (args : List Arg) :
    Expands [chr '%', chr 'd'] (.int w :: args) (signedDecimal w.toInt) args :=
  Expands.single (d := .short (chr 'd') (by decide)) (by decide) rfl trivial trivial

theorem Expands.run (h : Expands fmt args out rest) (buf : Nat) (mem : Mem) :
    printFormat buf (fmt ++ [0]) () ⟨mem, args⟩ =
      .ok (((out.length + 1 : Nat) : Int).bmod (2 ^ 32), ⟨putList mem buf (out ++ [0]), rest⟩) := by
  obtain ⟨ds, rfl, hout, hleast, hshort⟩ := h.directives
  exact printFormat_run h.noZero hout hleast hshort buf mem

end Formats

/-! ## Strings in memory -/

variable {ρ ε δ : Type} {o : Stdout ρ ε δ} {e : ρ} {s : Terminal δ} {m : Mem} {buf : Nat}
  {l piece text fmt out : List UInt8} {args rest : List Arg} {line : BitVec 32}

/-- The loops of `strlen` and `strcat` end at the terminator. -/
theorem returns_strEnd {endless : ε} {a : Nat} (h : s.mem.TextAt a l) :
    Program.Returns (strEnd endless a) e s (a + l.length) s := by
  induction l generalizing a with
  | nil =>
    refine ⟨1, fun fuel hfuel => ?_⟩
    obtain ⟨fuel, rfl⟩ := Nat.exists_eq_add_of_le' hfuel
    rw [strEnd, Program.bind_of_ok Program.gets_apply, if_pos (textAt_nil_iff.mp h)]
    rfl
  | cons c l ih =>
    obtain ⟨hc, hzero, hl⟩ := textAt_cons_iff.mp h
    obtain ⟨n, hn⟩ := ih hl
    refine ⟨n + 1, fun fuel hfuel => ?_⟩
    obtain ⟨fuel, rfl⟩ := Nat.exists_eq_add_of_le' (Nat.le_of_add_left_le hfuel)
    rw [strEnd, Program.bind_of_ok Program.gets_apply, hc, if_neg hzero, hn fuel (by omega),
      List.length_cons, Nat.add_right_comm, Nat.add_assoc]

theorem copyString_run (a : Nat) (l : List UInt8) (e : ρ) (s : Terminal δ) :
    (copyString a l : Program ρ ε (Terminal δ) Unit) e s
      = .ok ((), { s with mem := putList s.mem a (l ++ [0]) }) := by
  induction l generalizing a s with
  | nil =>
    rw [List.nil_append, ← putList_cons, putList_nil]
    rfl
  | cons c l ih =>
    rw [copyString, Program.bind_of_ok Program.modify_apply, ih, List.cons_append, ← putList_cons]

theorem appends_strcat (o : Stdout ρ ε δ) (e : ρ) (buf : Nat) (piece : List UInt8) :
    Appends (fun fuel => strcat o fuel buf piece) e buf piece := by
  intro d m l hl _
  have hend : Program.Returns (strEnd o.endless buf) e ⟨d, putList m buf (l ++ [0])⟩
      (buf + l.length) ⟨d, putList m buf (l ++ [0])⟩ := returns_strEnd (textAt_putList m buf hl)
  refine hend.bind (.of_run ?_)
  rw [copyString_run, putList_behind]

/-- The length of a text that an `int` can count. -/
theorem returns_strlenAt {endless : ε} {a : Nat} (h : s.mem.TextAt a l) (hlen : l.length < 2 ^ 31) :
    Program.Returns (fun fuel => strlenAt endless fuel a) e s (l.length : Int) s := by
  refine (returns_strEnd h).bind (.of_run ?_)
  have hcount : ((a + l.length : Nat) : Int) - a = l.length := by omega
  rw [hcount, Int.bmod_eq_of_le (by omega) (by omega)]
  rfl

theorem formatInto_run (h : Expands fmt args out rest) (o : Stdout ρ ε δ) (buf : Nat) (e : ρ)
    (s : Terminal δ) : formatInto o buf fmt args e s
      = .ok (((out.length + 1 : Nat) : Int).bmod (2 ^ 32),
        { s with mem := putList s.mem buf (out ++ [0]) }) := by
  rw [formatInto, h.run]

/-- A format behind a text. -/
theorem appends_format (h : Expands fmt args out rest) (o : Stdout ρ ε δ) (e : ρ) (buf : Nat) :
    Appends (fun fuel => formatBehind o fuel buf fmt args) e buf out := by
  intro d m l hl hlen
  have hcount : Program.Returns (fun fuel => strlenAt o.endless fuel buf) e
      ⟨d, putList m buf (l ++ [0])⟩ (l.length : Int) ⟨d, putList m buf (l ++ [0])⟩ :=
    returns_strlenAt (textAt_putList m buf hl) (by omega)
  have haddr : ((buf : Int) + (l.length : Int)).toNat = buf + l.length := by omega
  have hformat := formatInto_run h o (buf + l.length) e ⟨d, putList m buf (l ++ [0])⟩
  rw [← haddr, haddr, putList_behind, ← haddr] at hformat
  exact hcount.bind (.step hformat (.of_run rfl))

/-- What is in the buffer is given to `__stdout`. -/
theorem returns_print {shows : δ → List UInt8 → Prop} {t : List UInt8} {d : δ}
    (hprint : PutsText o.print e shows) (hbuf : buf ≠ 0) (hlen : l.length < 2 ^ 31)
    (hshows : shows d t) : ∃ d', Program.Returns (fun fuel => o.print fuel buf) e
        ⟨d, putList m buf (l ++ [0])⟩ () ⟨d', putList m buf (l ++ [0])⟩ ∧
      shows d' (t ++ l.takeWhile (· ≠ 0)) :=
  hprint ⟨d, putList m buf (l ++ [0])⟩ t buf _ hbuf (textAt_takeWhile m buf l)
    (Nat.lt_of_le_of_lt (List.takeWhile_prefix _).length_le hlen) hshows

/-- The message of a failed assertion. -/
def assertText (assertion file : List UInt8) (line : BitVec 32) (function : List UInt8) :
    List UInt8 :=
  file ++ colon ++ signedDecimal line.toInt ++ colon ++ function ++ colon ++ assertionWord ++
    assertion ++ failedWord

theorem zero_notMem_signedDecimal (z : Int) : 0 ∉ signedDecimal z := by
  have hdigits : 0 ∉ decimal z.natAbs := fun hmem => by
    simpa [isDigit] using decimal_isDigit 0 hmem
  unfold signedDecimal
  split
  · simpa using hdigits
  · exact hdigits

/-- The line of a message. -/
theorem appends_line (o : Stdout ρ ε δ) (e : ρ) (buf : Nat) (line : BitVec 32) :
    Appends (fun fuel => formatBehind o fuel buf lineFormat [.int line]) e buf
      (signedDecimal line.toInt) :=
  appends_format (Expands.int line []) o e buf

section Reports

variable {shows : δ → List UInt8 → Prop} {t : List UInt8} {file function : List UInt8}

/-- The texts of the messages between their first and their last piece. -/
def place (o : Stdout ρ ε δ) (buf : Nat) (line : BitVec 32) (function : List UInt8) :
    List ((Nat → Program ρ ε (Terminal δ) Unit) × List UInt8) :=
  [(fun fuel => strcat o fuel buf colon, colon),
    (fun fuel => formatBehind o fuel buf lineFormat [.int line], signedDecimal line.toInt),
    (fun fuel => strcat o fuel buf colon, colon),
    (fun fuel => strcat o fuel buf function, function),
    (fun fuel => strcat o fuel buf colon, colon)]

theorem appends_place (o : Stdout ρ ε δ) (e : ρ) (buf : Nat) (line : BitVec 32)
    (hfunction : 0 ∉ function) :
    ∀ p ∈ place o buf line function, Appends p.1 e buf p.2 ∧ 0 ∉ p.2 := by
  have hcolon : 0 ∉ colon := by decide
  simp only [place, List.forall_mem_cons]
  exact ⟨⟨appends_strcat o e buf colon, hcolon⟩,
    ⟨appends_line o e buf line, zero_notMem_signedDecimal _⟩,
    ⟨appends_strcat o e buf colon, hcolon⟩, ⟨appends_strcat o e buf function, hfunction⟩,
    ⟨appends_strcat o e buf colon, hcolon⟩, by simp⟩

theorem returns_assertFail {assertion : List UInt8} (hprint : PutsText o.print e shows)
    (hbuf : buf ≠ 0) (hfile : 0 ∉ file) (hfunction : 0 ∉ function) (hassertion : 0 ∉ assertion)
    (hlen : (assertText assertion file line function).length < 2 ^ 31)
    (hshows : shows s.device t) :
    ∃ d, Program.Returns (fun fuel => assertFail o fuel buf assertion file line function) e s ()
        ⟨d, putList s.mem buf (assertText assertion file line function ++ [0])⟩ ∧
      shows d (t ++ assertText assertion file line function) := by
  obtain ⟨d, hrun, hd⟩ := returns_print (m := s.mem)
    (l := assertText assertion file line function) hprint hbuf hlen hshows
  let steps := place o buf line function ++ [(fun fuel => strcat o fuel buf assertionWord,
    assertionWord), (fun fuel => strcat o fuel buf assertion, assertion),
    (fun fuel => strcat o fuel buf failedWord, failedWord)]
  have hsteps : ∀ p ∈ steps, Appends p.1 e buf p.2 ∧ 0 ∉ p.2 := by
    simp only [steps, List.forall_mem_append, List.forall_mem_cons]
    exact ⟨appends_place o e buf line hfunction, ⟨appends_strcat o e buf _, by decide⟩,
      ⟨appends_strcat o e buf _, hassertion⟩, ⟨appends_strcat o e buf _, by decide⟩, by simp⟩
  have htext : assertText assertion file line function = file ++ steps.flatMap Prod.snd := by
    simp [assertText, steps, place, List.append_assoc]
  have hzero : 0 ∉ file ++ steps.flatMap Prod.snd := by
    simp only [List.mem_append, List.mem_flatMap, not_or, not_exists, not_and]
    exact ⟨hfile, fun p hp => (hsteps p hp).2⟩
  rw [htext] at hrun hlen hd ⊢
  rw [takeWhile_of_notMem hzero] at hd
  exact ⟨d, .step (copyString_run buf file e s) (returns_pieces steps hsteps hfile hlen hrun), hd⟩

end Reports

/-! ## Calls one after another -/

inductive PrintCall where
  | printf (buf : Nat) (fmt : List UInt8) (ap : List Arg)
  | bug (buf : Nat) (file : List UInt8) (line : BitVec 32) (function fmt : List UInt8)
    (ap : List Arg)
  /-- The rest of the kernel works on the memory. -/
  | other (f : Mem → Mem)

namespace PrintCall

def run (o : Stdout ρ ε δ) (fuel : Nat) : PrintCall → Program ρ ε (Terminal δ) Unit
  | printf buf fmt ap => do
    let _ ← Printf.printf o fuel buf fmt ap
    return ()
  | bug buf file line function fmt ap => Printf.bug o fuel buf file line function fmt ap
  | other f => Program.modify fun s => { s with mem := f s.mem }

end PrintCall

section Calls

variable {shows : δ → List UInt8 → Prop} {t : List UInt8}

end Calls

end Raincloud.Printf
