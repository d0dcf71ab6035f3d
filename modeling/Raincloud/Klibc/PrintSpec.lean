import Raincloud.Infra.Decimal
import Raincloud.Infra.Word
import Raincloud.Klibc.Printf

/-!
# What `__print_format` writes

A format is a list of directives, each with its text, and ends in the middle of one if anything
is left over. A directive takes what it asks for from the arguments and has an expansion; the
output is the expansions one behind the other.
-/

namespace Raincloud.Printf

open Infra Infra.Mem

/-! ## Directives -/

inductive Directive where
  | literal (c : UInt8) (h : c ≠ chr '%')
  | short (c : UInt8) (h : ¬ (c = chr 'l' ∨ c = chr 'L'))
  | long (l : UInt8) (h : l = chr 'l' ∨ l = chr 'L') (c : UInt8)

def Directive.text : Directive → List UInt8
  | .literal c _ => [c]
  | .short c _ => [chr '%', c]
  | .long l _ c => [chr '%', l, c]

def formatText (ds : List Directive) : List UInt8 := ds.flatMap Directive.text

/-- Each '%', and each '%l' or '%L', has a further character behind it. -/
def Complete (fmt : List UInt8) : Prop := ∃ ds, formatText ds = fmt

/-- What is left over of a format that is not complete. -/
def cuts : List (List UInt8) := [[chr '%'], [chr '%', chr 'l'], [chr '%', chr 'L']]

def hexDigit (d : Nat) : UInt8 := chr d.digitChar.toUpper

/-- Exactly `n` upper-case digits. -/
def hexText (n x : Nat) : List UInt8 :=
  (List.range n).reverse.map fun i => hexDigit (x / 16 ^ i % 16)

/-- The text of the first argument, which is a string, and the arguments behind it. -/
def onString (f : List UInt8 → List UInt8) : List Arg → Option (List UInt8 × List Arg)
  | .string s :: args => some (f s, args)
  | _ => none

def onInt (f : BitVec 32 → List UInt8) : List Arg → Option (List UInt8 × List Arg)
  | .int w :: args => some (f w, args)
  | _ => none

def onLong (f : BitVec 64 → List UInt8) : List Arg → Option (List UInt8 × List Arg)
  | .long w :: args => some (f w, args)
  | _ => none

/-- The expansion of a specifier, and the arguments that are left. -/
def expandShort (c : UInt8) (args : List Arg) : Option (List UInt8 × List Arg) :=
  if c = chr 's' ∨ c = chr 'S' then onString (fun s => s) args
  else if c = chr 'c' ∨ c = chr 'C' then onInt (fun w => [UInt8.ofNat w.toNat]) args
  else if c = chr 'd' ∨ c = chr 'D' then onInt (fun w => signedDecimal w.toInt) args
  else if c = chr 'x' ∨ c = chr 'X' then onInt (fun w => hexText 8 w.toNat) args
  else some ([], args)

def expandLong (c : UInt8) (args : List Arg) : Option (List UInt8 × List Arg) :=
  if c = chr 'd' ∨ c = chr 'D' then onLong (fun w => signedDecimal w.toInt) args
  else if c = chr 'x' ∨ c = chr 'X' then onLong (fun w => hexText 16 w.toNat) args
  else some ([], args)

def Directive.expand : Directive → List Arg → Option (List UInt8 × List Arg)
  | .literal c _, args => some ([c], args)
  | .short c _, args => expandShort c args
  | .long _ _ c, args => expandLong c args

def expandAll : List Directive → List Arg → Option (List UInt8 × List Arg)
  | [], args => some ([], args)
  | d :: ds, args =>
    match d.expand args with
    | none => none
    | some (out, args) => (expandAll ds args).map fun (outs, args) => (out ++ outs, args)

/-- For each directive, with the arguments that are left when its turn comes. -/
def AtEach (P : Directive → List Arg → Prop) : List Directive → List Arg → Prop
  | [], _ => True
  | d :: ds, args => P d args ∧ ∀ out rest, d.expand args = some (out, rest) → AtEach P ds rest

/-- The argument of a `%ld` is not the least one. -/
def NotLeast : Directive → List Arg → Prop
  | .long _ _ c, .long w :: _ => (c = chr 'd' ∨ c = chr 'D') → w.toInt ≠ -2 ^ 63
  | _, _ => True

/-- The length of the string of a `%s` fits an `int`. -/
def ShortString : Directive → List Arg → Prop
  | .short c _, .string s :: _ => (c = chr 's' ∨ c = chr 'S') → s.length < 2 ^ 31
  | _, _ => True

/-- "n=%d, %lx" -/
example : (expandAll [.literal (chr 'n') (by decide), .literal (chr '=') (by decide),
    .short (chr 'd') (by decide), .long (chr 'l') (.inl rfl) (chr 'x')] [.int (-7), .long 0xff]) =
    some ([0x6e, 0x3d, 0x2d, 0x37] ++ List.replicate 14 0x30 ++ [0x46, 0x46], []) := by decide

/-! ## The helpers -/

variable {s : PrintState} {mem : Mem} {args rest : List Arg} {out fmt : List UInt8} {c : UInt8}

theorem hexText_succ (n x : Nat) :
    hexText (n + 1) x = hexDigit (x / 16 ^ n % 16) :: hexText n x := by
  unfold hexText
  rw [List.range_succ, List.reverse_append, List.map_append]
  rfl

@[simp] theorem length_hexText (n x : Nat) : (hexText n x).length = n := by
  unfold hexText
  rw [List.length_map, List.length_reverse, List.length_range]

theorem hexTable_eq : ∀ d < 16, hexTable.getD d 0 = hexDigit d := by decide

theorem hexTable_nibble (hex : BitVec 64) (n : Nat) :
    hexTable.getD (hex >>> (n * 4) &&& 0x0f).toNat 0 = hexDigit (hex.toNat / 16 ^ n % 16) := by
  have hnibble : (hex >>> (n * 4) &&& 0x0f).toNat = hex.toNat / 16 ^ n % 16 := by
    rw [BitVec.toNat_and, BitVec.toNat_ushiftRight, Nat.shiftRight_eq_div_pow, Nat.mul_comm n,
      Nat.pow_mul]
    exact and_mask _ 4
  rw [hnibble]
  exact hexTable_eq _ (Nat.mod_lt _ (by decide))

theorem writeByte_bind {α : Type} (ptr : Nat) (f : Unit → Print α) :
    (writeByte ptr c >>= f) () s = f () () { s with mem := Function.update s.mem ptr c } := rfl

theorem printHex_eq (n buf : Nat) (hex : BitVec 64) (s : PrintState) :
    printHex buf hex n () s =
      .ok (buf + n, { s with mem := putList s.mem buf (hexText n hex.toNat) }) := by
  induction n generalizing buf s with
  | zero => rw [show hexText 0 hex.toNat = [] from rfl, putList_nil]; rfl
  | succ n ih =>
    rw [printHex, writeByte_bind, ih, hexTable_nibble, putList_cons, ← hexText_succ,
      Nat.add_assoc, Nat.add_comm 1 n]

theorem writeTemp_eq (l : List UInt8) (buf : Nat) (s : PrintState) :
    writeTemp buf l () s = .ok (buf + l.length, { s with mem := putList s.mem buf l }) := by
  induction l generalizing buf s with
  | nil => rw [putList_nil]; rfl
  | cons c l ih =>
    rw [writeTemp, writeByte_bind, ih, putList_cons, List.length_cons, Nat.add_assoc,
      Nat.add_comm 1 l.length]

theorem strcpy_eq (str : List UInt8) (buf : Nat) (s : PrintState) :
    strcpy buf str () s = .ok ((), { s with mem := putList s.mem buf (str ++ [0]) }) := by
  induction str generalizing buf s with
  | nil => rw [List.nil_append, ← putList_cons, putList_nil]; rfl
  | cons c str ih => rw [strcpy, writeByte_bind, ih, putList_cons, List.cons_append]

/-! ## Decimal digits -/

/-- A digit of the loop is a digit of the text. -/
theorem ofInt_digit : ∀ d < 10, UInt8.ofInt ((d : Nat) + 0x30) = digitByte d := by decide

/-- The digits of a number come out as its text. -/
theorem deciDigits_eq {room n : Nat} (hroom : 0 < room) (h : n < 10 ^ room) (temp : List UInt8) :
    deciDigits room n temp () s = .ok (decimal n ++ temp, s) := by
  induction room generalizing n temp with
  | zero => cases hroom
  | succ room ih =>
    have hmod : (n : Int).tmod 10 = (n % 10 : Nat) := (Int.ofNat_tmod n 10).symm
    have hdiv : (n : Int).tdiv 10 = (n / 10 : Nat) := (Int.ofNat_tdiv n 10).symm
    rw [deciDigits, hmod, hdiv, ofInt_digit _ (Nat.mod_lt n (by decide))]
    by_cases hn : n < 10
    · rw [Nat.div_eq_of_lt hn, if_pos Nat.cast_zero, Nat.mod_eq_of_lt hn, decimal_of_lt hn]
      rfl
    · have hpos : 0 < n / 10 := Nat.div_pos (Nat.le_of_not_lt hn) (by decide)
      have hlt : n / 10 < 10 ^ room := Nat.div_lt_of_lt_mul (by rwa [← Nat.pow_succ'])
      have hroom : 0 < room := by
        refine Nat.pos_of_ne_zero ?_
        rintro rfl
        exact hn h
      rw [if_neg (by omega), ih hroom hlt, decimal_of_le (Nat.le_of_not_lt hn), List.append_assoc]
      rfl

/-- Whatever the number, there are no more digits than it has. -/
theorem deciDigits_ends {room k : Nat} {z : Int} (hk : 0 < k) (h : z.natAbs < 10 ^ k)
    (hroom : k ≤ room) (temp : List UInt8) : ∃ ds, deciDigits room z temp () s =
      .ok (ds ++ temp, s) ∧ ds.length ≤ k := by
  induction k generalizing room z temp with
  | zero => cases hk
  | succ k ih =>
    obtain ⟨room, rfl⟩ : ∃ r, room = r + 1 := ⟨room - 1, by omega⟩
    rw [deciDigits]
    by_cases hz : z.tdiv 10 = 0
    · refine ⟨[UInt8.ofInt (z.tmod 10 + 0x30)], ?_, Nat.succ_le_succ (Nat.zero_le k)⟩
      rw [if_pos hz]
      rfl
    · have habs : (z.tdiv 10).natAbs < 10 ^ k := by
        rw [Int.natAbs_tdiv]
        refine Nat.div_lt_of_lt_mul ?_
        rwa [Nat.pow_succ'] at h
      have hk : 0 < k := by
        refine Nat.pos_of_ne_zero ?_
        rintro rfl
        exact hz (Int.natAbs_eq_zero.mp (Nat.lt_one_iff.mp habs))
      obtain ⟨ds, hds, hlen⟩ := ih hk habs (Nat.le_of_succ_le_succ hroom)
        (UInt8.ofInt (z.tmod 10 + 0x30) :: temp)
      refine ⟨ds ++ [UInt8.ofInt (z.tmod 10 + 0x30)], ?_, ?_⟩
      · rw [if_neg hz, hds, List.append_assoc]
        rfl
      · rw [List.length_append, List.length_singleton]
        exact Nat.succ_le_succ hlen

/-- Any `long` but the least one is written as its decimal text. -/
theorem printDeci_eq {z : Int} (hlo : -2 ^ 63 < z) (hhi : z < 2 ^ 63) (buf : Nat)
    (s : PrintState) : printDeci buf z () s =
      .ok (buf + (signedDecimal z).length,
        { s with mem := putList s.mem buf (signedDecimal z) }) := by
  have habs : z.natAbs < 10 ^ 19 := by
    have h63 : (2 : Int) ^ 63 < 10 ^ 19 := by norm_num
    omega
  have hdigits : deciDigits 21 z.natAbs [] () s = .ok (decimal z.natAbs ++ [], s) :=
    deciDigits_eq (by decide)
      (Nat.lt_of_lt_of_le habs (Nat.pow_le_pow_right (by decide) (by decide))) []
  rw [List.append_nil] at hdigits
  unfold printDeci signedDecimal
  by_cases hz : z < 0
  · have hneg : (-z).bmod (2 ^ 64) = (z.natAbs : Int) := by
      rw [Int.bmod_eq_of_le (by omega) (by omega)]
      omega
    have hlen : (decimal z.natAbs).length < 21 :=
      Nat.lt_of_le_of_lt (length_decimal_le (by decide) habs) (by decide)
    rw [if_pos hz, if_pos hz, hneg, Program.bind_of_ok hdigits, if_pos hz,
      Program.bind_of_ok (Program.check_of hlen), writeTemp_eq]
  · have hpos : z = (z.natAbs : Int) := by omega
    rw [if_neg hz, if_neg hz]
    conv_lhs =>
      rw [hpos]
    rw [Program.bind_of_ok hdigits, if_neg (by omega), writeTemp_eq]

/-- The least one is written in some way. -/
theorem printDeci_ends {z : Int} (hlo : -2 ^ 63 ≤ z) (hhi : z < 2 ^ 63) (buf : Nat)
    (s : PrintState) : ∃ ptr mem, printDeci buf z () s = .ok (ptr, { s with mem := mem }) := by
  rcases Int.lt_or_eq_of_le hlo with hlo | rfl
  · exact ⟨_, _, printDeci_eq hlo hhi buf s⟩
  · have habs : (-2 ^ 63 : Int).natAbs < 10 ^ 19 := by norm_num
    obtain ⟨ds, hds, hlen⟩ : ∃ ds, deciDigits 21 (-2 ^ 63) [] () s = .ok (ds ++ [], s) ∧
        ds.length ≤ 19 := deciDigits_ends (by decide) habs (by decide) []
    rw [List.append_nil] at hds
    have hneg : (- -2 ^ 63 : Int).bmod (2 ^ 64) = -2 ^ 63 := by decide
    refine ⟨buf + (0x2d :: ds).length, putList s.mem buf (0x2d :: ds), ?_⟩
    unfold printDeci
    rw [if_pos (by norm_num), hneg, Program.bind_of_ok hds, if_pos (by norm_num),
      Program.bind_of_ok (Program.check_of (Nat.lt_of_le_of_lt hlen (by decide))), writeTemp_eq]

/-! ## Specifiers -/

/-- Wherever `x` starts, it takes its arguments and stops. If `ok` it has written `out` then, and
stops behind it. -/
def Prints (x : Nat → Print Nat) (args : List Arg) (out : List UInt8) (rest : List Arg)
    (ok : Prop) : Prop :=
  ∀ buf mem, ∃ ptr mem', x buf () ⟨mem, args⟩ = .ok (ptr, ⟨mem', rest⟩) ∧
    (ok → ptr = buf + out.length ∧ Written mem mem' buf out)

/-- A directive as the loop carries it out. -/
def Directive.print : Directive → Nat → Print Nat
  | .literal c _, ptr => do
    writeByte ptr c
    return ptr + 1
  | .short c _, ptr => specifier c ptr
  | .long _ _ c, ptr => longSpecifier c ptr

variable {ok : Prop}

theorem onString_some {f : List UInt8 → List UInt8} (h : onString f args = some (out, rest)) :
    ∃ s, args = .string s :: rest ∧ out = f s := by
  unfold onString at h
  split at h
  · next s args =>
    obtain ⟨rfl, rfl⟩ := Prod.mk.inj (Option.some.inj h)
    exact ⟨s, rfl, rfl⟩
  · cases h

theorem onInt_some {f : BitVec 32 → List UInt8} (h : onInt f args = some (out, rest)) :
    ∃ w, args = .int w :: rest ∧ out = f w := by
  unfold onInt at h
  split at h
  · next w args =>
    obtain ⟨rfl, rfl⟩ := Prod.mk.inj (Option.some.inj h)
    exact ⟨w, rfl, rfl⟩
  · cases h

theorem onLong_some {f : BitVec 64 → List UInt8} (h : onLong f args = some (out, rest)) :
    ∃ w, args = .long w :: rest ∧ out = f w := by
  unfold onLong at h
  split at h
  · next w args =>
    obtain ⟨rfl, rfl⟩ := Prod.mk.inj (Option.some.inj h)
    exact ⟨w, rfl, rfl⟩
  · cases h

theorem prints_nothing (args : List Arg) (ok : Prop) : Prints pure args [] args ok :=
  fun buf mem => ⟨buf, mem, rfl, fun _ => ⟨rfl, written_nil mem buf⟩⟩

theorem prints_byte (c : UInt8) (args : List Arg) (ok : Prop) :
    Prints (fun ptr => printCh ptr c) args [c] args ok := fun buf mem => by
  refine ⟨buf + 1, Function.update mem buf c, rfl, fun _ => ⟨rfl, ?_⟩⟩
  rw [← putList_nil (Function.update mem buf c) (buf + 1), putList_cons]
  exact written_putList mem buf [c]

theorem prints_hex (n : Nat) (hex : BitVec 64) (args : List Arg) (ok : Prop) :
    Prints (fun ptr => printHex ptr hex n) args (hexText n hex.toNat) args ok := fun buf mem =>
  ⟨_, _, printHex_eq n buf hex ⟨mem, args⟩, fun _ =>
    ⟨by rw [length_hexText], written_putList mem buf _⟩⟩

theorem strlen_eq {str : List UInt8} (h : str.length < 2 ^ 31) : strlen str = str.length := by
  unfold strlen
  rw [Int.bmod_eq_of_le (by omega) (by omega)]

theorem prints_str (str : List UInt8) (args : List Arg) :
    Prints (fun ptr => printStr ptr str) args str args (str.length < 2 ^ 31) := fun buf mem => by
  refine ⟨(buf + strlen str).toNat, putList mem buf (str ++ [0]), ?_, fun h => ⟨?_, ?_⟩⟩
  · change (strcpy buf str >>= fun _ => pure (buf + strlen str).toNat) () ⟨mem, args⟩ = _
    rw [Program.bind_of_ok (strcpy_eq str buf _)]
    rfl
  · rw [strlen_eq h]
    omega
  · exact written_behind mem buf str 0

theorem prints_deci {z : Int} (hlo : -2 ^ 63 ≤ z) (hhi : z < 2 ^ 63) (args : List Arg) :
    Prints (fun ptr => printDeci ptr z) args (signedDecimal z) args (z ≠ -2 ^ 63) :=
  fun buf mem => by
    by_cases hz : z = -2 ^ 63
    · obtain ⟨ptr, mem', hrun⟩ := printDeci_ends hlo hhi buf ⟨mem, args⟩
      exact ⟨ptr, mem', hrun, fun hne => absurd hz hne⟩
    · exact ⟨_, _, printDeci_eq (lt_of_le_of_ne hlo (Ne.symm hz)) hhi buf ⟨mem, args⟩,
        fun _ => ⟨rfl, written_putList mem buf _⟩⟩

theorem Prints.mono {x : Nat → Print Nat} {ok' : Prop} (h : Prints x args out rest ok)
    (hok : ok' → ok) : Prints x args out rest ok' := fun buf mem => by
  obtain ⟨ptr, mem', hrun, hout⟩ := h buf mem
  exact ⟨ptr, mem', hrun, fun h' => hout (hok h')⟩

theorem specifier_prints (hc : ¬ (c = chr 'l' ∨ c = chr 'L'))
    (h : expandShort c args = some (out, rest)) :
    Prints (specifier c) args out rest (ShortString (.short c hc) args) := by
  unfold expandShort at h
  unfold specifier
  intro buf mem
  split_ifs at h ⊢ with hs hc hd hx
  · obtain ⟨t, rfl, rfl⟩ := onString_some h
    exact ((prints_str out rest).mono fun hok => hok hs) buf mem
  · obtain ⟨w, rfl, rfl⟩ := onInt_some h
    exact prints_byte _ rest _ buf mem
  · obtain ⟨w, rfl, rfl⟩ := onInt_some h
    have hlo := BitVec.le_toInt w
    have hhi := BitVec.toInt_lt (x := w)
    exact ((prints_deci (by omega) (by omega) rest).mono fun _ => by omega) buf mem
  · obtain ⟨w, rfl, rfl⟩ := onInt_some h
    have hw : (w.setWidth 64).toNat = w.toNat := by
      rw [BitVec.toNat_setWidth]
      exact Nat.mod_eq_of_lt (Nat.lt_trans w.isLt (by decide))
    have hhex := prints_hex 8 (w.setWidth 64) rest (ShortString (.short c ‹_›) (.int w :: rest))
    rw [hw] at hhex
    exact hhex buf mem
  · obtain ⟨rfl, rfl⟩ := Prod.mk.inj (Option.some.inj h)
    exact prints_nothing args _ buf mem

theorem longSpecifier_prints {l : UInt8} (hl : l = chr 'l' ∨ l = chr 'L')
    (h : expandLong c args = some (out, rest)) :
    Prints (longSpecifier c) args out rest (NotLeast (.long l hl c) args) := by
  unfold expandLong at h
  unfold longSpecifier
  intro buf mem
  split_ifs at h ⊢ with hd hx
  · obtain ⟨w, rfl, rfl⟩ := onLong_some h
    have hlo := BitVec.le_toInt w
    have hhi := BitVec.toInt_lt (x := w)
    exact ((prints_deci (by omega) (by omega) rest).mono fun hok => hok hd) buf mem
  · obtain ⟨w, rfl, rfl⟩ := onLong_some h
    exact prints_hex 16 w rest _ buf mem
  · obtain ⟨rfl, rfl⟩ := Prod.mk.inj (Option.some.inj h)
    exact prints_nothing args _ buf mem

/-- Each directive prints its expansion. -/
theorem Directive.prints {d : Directive} (h : d.expand args = some (out, rest)) :
    Prints d.print args out rest (NotLeast d args ∧ ShortString d args) := by
  cases d with
  | literal c hc =>
    obtain ⟨rfl, rfl⟩ := Prod.mk.inj (Option.some.inj h)
    exact prints_byte c args _
  | short c hc => exact (specifier_prints hc h).mono And.right
  | long l hl c => exact (longSpecifier_prints hl h).mono And.left

/-! ## The loop -/

theorem chr_percent_ne_zero : chr '%' ≠ 0 := by decide

theorem printLoop_literal (h0 : c ≠ 0) (hc : c ≠ chr '%') (ptr : Nat) :
    printLoop (c :: fmt) ptr = (writeByte ptr c >>= fun _ => printLoop fmt (ptr + 1)) := by
  rw [printLoop.eq_def]
  simp only [if_neg h0, if_neg hc]

theorem printLoop_short (hc : ¬ (c = chr 'l' ∨ c = chr 'L')) (ptr : Nat) :
    printLoop (chr '%' :: c :: fmt) ptr = (specifier c ptr >>= printLoop fmt) := by
  rw [printLoop.eq_def]
  simp only [if_neg chr_percent_ne_zero, if_neg hc, if_true]

theorem printLoop_long {l : UInt8} (hl : l = chr 'l' ∨ l = chr 'L') (ptr : Nat) :
    printLoop (chr '%' :: l :: c :: fmt) ptr = (longSpecifier c ptr >>= printLoop fmt) := by
  rw [printLoop.eq_def]
  simp only [if_neg chr_percent_ne_zero, if_pos hl, if_true]

/-- The loop carries out the first directive and goes on behind it. -/
theorem printLoop_directive (d : Directive) (h0 : 0 ∉ d.text) (ptr : Nat) :
    printLoop (d.text ++ fmt) ptr () s = (d.print ptr >>= printLoop fmt) () s := by
  cases d with
  | literal c hc =>
    have hc0 : c ≠ 0 := fun he => h0 (he ▸ List.mem_singleton_self c)
    exact congrFun (congrFun (printLoop_literal hc0 hc ptr) ()) s
  | short c hc => exact congrFun (congrFun (printLoop_short hc ptr) ()) s
  | long l hl c => exact congrFun (congrFun (printLoop_long hl ptr) ()) s

/--
The loop carries out the directives in front of anything else. If no `%ld` gets the least `long`
and no `%s` too long a string, it has written their expansions then.
-/
theorem printLoop_directives {ds : List Directive} (h0 : 0 ∉ formatText ds)
    (h : expandAll ds args = some (out, rest)) (tail : List UInt8) (buf : Nat) (mem : Mem) :
    ∃ ptr mem', printLoop (formatText ds ++ tail) buf () ⟨mem, args⟩ =
        printLoop tail ptr () ⟨mem', rest⟩ ∧
      (AtEach NotLeast ds args → AtEach ShortString ds args →
        ptr = buf + out.length ∧ Written mem mem' buf out) := by
  induction ds generalizing args out buf mem with
  | nil =>
    obtain ⟨rfl, rfl⟩ := Prod.mk.inj (Option.some.inj h)
    exact ⟨buf, mem, rfl, fun _ _ => ⟨rfl, written_nil mem buf⟩⟩
  | cons d ds ih =>
    unfold expandAll at h
    cases hd : d.expand args with
    | none =>
      rw [hd] at h
      cases h
    | some r =>
      obtain ⟨out1, args1⟩ := r
      rw [hd] at h
      obtain ⟨⟨outs, args2⟩, hds, he⟩ := Option.map_eq_some_iff.mp h
      obtain ⟨rfl, rfl⟩ := Prod.mk.inj he
      have hsplit : formatText (d :: ds) = d.text ++ formatText ds := rfl
      rw [hsplit, List.mem_append, not_or] at h0
      obtain ⟨ptr1, mem1, hrun1, hout1⟩ := d.prints hd buf mem
      obtain ⟨ptr2, mem2, hrun2, hout2⟩ := ih h0.2 hds ptr1 mem1
      refine ⟨ptr2, mem2, ?_, fun hleast hshort => ?_⟩
      · rw [hsplit, List.append_assoc, printLoop_directive d h0.1, Program.bind_of_ok hrun1, hrun2]
      · obtain ⟨rfl, hw1⟩ := hout1 ⟨hleast.1, hshort.1⟩
        obtain ⟨rfl, hw2⟩ := hout2 (hleast.2 _ _ hd) (hshort.2 _ _ hd)
        exact ⟨by rw [List.length_append, Nat.add_assoc], hw1.append hw2⟩

end Raincloud.Printf
