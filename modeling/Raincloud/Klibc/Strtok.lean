import Raincloud.Infra.Tokens
import Raincloud.Klibc.CString

/-!
# `strtok_r`

The string is in a block of its own, with its terminator at the end, and a pointer into it is an
offset. A read outside of the block is refused. What is left of the block from a pointer on is
what the scanning functions get.
-/

set_option linter.style.nameCheck false

namespace Raincloud.Strtok

open Infra

/-! ## The functions -/

/-- The byte of `accept` at which `for (ptr = accept; *s != *ptr && *ptr != NULL; ptr ++)` stops. -/
def stopByte (c : UInt8) : List UInt8 → Option UInt8
  | [] => none
  | b :: accept => if c ≠ b ∧ b ≠ 0 then stopByte c accept else some b

def strspn (s accept : List UInt8) : Option Nat :=
  match s with
  | [] => none
  | c :: s =>
    if c = 0 then some 0
    else
      match stopByte c accept with
      | none => none
      | some b => if b = 0 then some 0 else (strspn s accept).map (· + 1)

/-- Whether the loop over `accept` finds `c`. -/
def accepts (c : UInt8) : List UInt8 → Option Bool
  | [] => none
  | b :: accept => if b = 0 then some false else if c = b then some true else accepts c accept

/-- How far it is to the byte, or `NULL`. -/
def strpbrk (s accept : List UInt8) : Option (Option Nat) :=
  match s with
  | [] => none
  | c :: s =>
    if c = 0 then some none
    else
      match accepts c accept with
      | none => none
      | some true => some (some 0)
      | some false => (strpbrk s accept).map (·.map (· + 1))

/-- How far it is to the byte, or to the end. -/
def strchr (s : List UInt8) (c : Int) : Option Nat :=
  match s with
  | [] => none
  | b :: s => if b.toInt8.toInt ≠ c ∧ b ≠ 0 then (strchr s c).map (· + 1) else some 0

/-- The string's block, and `*save_ptr`, which is `none` if it points nowhere into the block. -/
structure Tokenizer where
  block : List UInt8
  save : Option Nat
  deriving Repr, DecidableEq

/-- `none` for `s` is `NULL`. -/
def strtokR (s : Option Nat) (delim : List UInt8) (t : Tokenizer) :
    Option (Option Nat × Tokenizer) := do
  let s ← match s with
    | some s => some s
    | none => t.save
  -- Scan leading delimiters.
  let token := s + (← strspn (t.block.drop s) delim)
  let c ← t.block[token]?
  if c = 0 then return (none, t)
  -- Find the end of the token.
  match ← strpbrk (t.block.drop token) delim with
  | none =>
    let n ← strchr (t.block.drop token) 0
    return (some token, { t with save := some (token + n) })
  | some n =>
    return (some token, ⟨t.block.set (token + n) 0, some (token + n + 1)⟩)

/-- `n` calls of `strtok_r(NULL, delim, save_ptr)`. -/
def laterCalls (delim : List UInt8) : Nat → Tokenizer → Option (List (Option Nat) × Tokenizer)
  | 0, t => some ([], t)
  | n + 1, t => do
    let (ret, t) ← strtokR none delim t
    let (rets, t) ← laterCalls delim n t
    return (ret :: rets, t)

/-- A call with `s`, and then `n` with `NULL`. -/
def calls (delim : List UInt8) (n : Nat) (t : Tokenizer) :
    Option (List (Option Nat) × Tokenizer) := do
  let (ret, t) ← strtokR (some 0) delim t
  let (rets, t) ← laterCalls delim n t
  return (ret :: rets, t)

/-- ":ab::c" cut at ':'. -/
example : calls [0x3a, 0] 3 ⟨[0x3a, 0x61, 0x62, 0x3a, 0x3a, 0x63, 0], none⟩ =
    some ([some 1, some 5, none, none], ⟨[0x3a, 0x61, 0x62, 0, 0x3a, 0x63, 0], some 6⟩) := by
  decide

/-! ## The scanning functions -/

variable {s d l : List UInt8} {c : UInt8}

theorem stopByte_eq (hd : 0 ∉ d) :
    stopByte c (d ++ [0]) = some (if c ∈ d then c else 0) := by
  induction d with
  | nil => simp [stopByte]
  | cons b d ih =>
    obtain ⟨hb, hd⟩ := not_or.mp (List.mem_cons.not.mp hd)
    rw [List.cons_append, stopByte]
    by_cases hcb : c = b
    · rw [if_neg fun h => h.1 hcb, if_pos (hcb ▸ List.mem_cons_self), hcb]
    · rw [if_pos ⟨hcb, Ne.symm hb⟩, ih hd]
      simp [hcb]

theorem accepts_eq (hd : 0 ∉ d) : accepts c (d ++ [0]) = some (decide (c ∈ d)) := by
  induction d with
  | nil => simp [accepts]
  | cons b d ih =>
    obtain ⟨hb, hd⟩ := not_or.mp (List.mem_cons.not.mp hd)
    rw [List.cons_append, accepts, if_neg (Ne.symm hb), ih hd]
    by_cases hcb : c = b
    · simp [hcb]
    · simp [hcb]

/-- The first byte that is no delimiter, or the end. -/
theorem strspn_eq (hd : 0 ∉ d) :
    strspn l (d ++ [0]) = l.findIdx? fun c => decide (c = 0 ∨ c ∉ d) := by
  induction l with
  | nil => rfl
  | cons c l ih =>
    rw [List.findIdx?_cons, strspn]
    by_cases hc : c = 0
    · simp [hc]
    · rw [if_neg hc, stopByte_eq hd]
      by_cases hmem : c ∈ d
      · simp [hc, hmem, ih]
      · simp [hmem]

/-- The first delimiter, unless the string ends before it. -/
theorem strpbrk_eq (hd : 0 ∉ d) : strpbrk l (d ++ [0]) =
    (l.findIdx? fun c => decide (c = 0 ∨ c ∈ d)).map fun n =>
      if l[n]? = some 0 then none else some n := by
  induction l with
  | nil => rfl
  | cons c l ih =>
    rw [List.findIdx?_cons, strpbrk]
    by_cases hc : c = 0
    · simp [hc]
    · rw [if_neg hc, accepts_eq hd]
      by_cases hmem : c ∈ d
      · simp [hc, hmem]
      · rw [ih]
        cases hfind : l.findIdx? fun c => decide (c = 0 ∨ c ∈ d) with
        | none => simp [hc, hmem]
        | some n =>
          by_cases hn : l[n]? = some 0 <;> simp [hc, hmem, hn]

theorem strchr_zero : strchr l 0 = l.findIdx? fun c => decide (c = 0) := by
  induction l with
  | nil => rfl
  | cons c l ih =>
    have hzero : c.toInt8.toInt = 0 ↔ c = 0 := by
      constructor
      · intro h
        have h8 : c.toInt8 = 0 := Int8.toInt_inj.mp h
        exact congrArg Int8.toUInt8 h8
      · rintro rfl
        rfl
    rw [List.findIdx?_cons, strchr]
    by_cases hc : c = 0
    · simp [hc]
    · simp [hzero, hc, ih]

/-! ## The step -/

variable {t : Tokenizer} {q n a b : Nat} {f : UInt8 → Bool} {arg : Option Nat}

/-- From `q` on the block holds what the string does, and `q` is not inside a token. -/
structure Left (s d : List UInt8) (block : List UInt8) (q : Nat) : Prop where
  le : q ≤ s.length
  length : block.length = s.length + 1
  same : ∀ i, q ≤ i → block[i]? = (s ++ [0])[i]?
  before : ∀ i x, q = i + 1 → q < s.length → s[i]? = some x → x ∈ d

theorem Left.byte {block : List UInt8} (h : Left s d block q) {i : Nat} (hi : q ≤ i)
    (hlt : i < s.length) : block[i]? = s[i]? := by
  rw [h.same i hi, List.getElem?_append_left hlt]

theorem Left.terminator {block : List UInt8} (h : Left s d block q) :
    block[s.length]? = some 0 := by
  rw [h.same s.length h.le, List.getElem?_concat_length]

/-- A scan finds a byte to stop at, if only at the terminator. -/
theorem Left.find {block : List UInt8} (h : Left s d block q) (hstop : f 0 = true) (ha : q ≤ a)
    (hle : a ≤ s.length) : ∃ n, (block.drop a).findIdx? f = some n ∧ a + n ≤ s.length ∧
      (∀ i x, a ≤ i → i < a + n → s[i]? = some x → f x = false) ∧
      ∃ x, block[a + n]? = some x ∧ f x = true := by
  have hend : (block.drop a)[s.length - a]? = some 0 := by
    rw [List.getElem?_drop, Nat.add_sub_cancel' hle, h.terminator]
  obtain ⟨n, hn⟩ : ∃ n, (block.drop a).findIdx? f = some n := by
    rw [← Option.isSome_iff_exists, List.findIdx?_isSome, List.any_eq_true]
    exact ⟨0, List.mem_of_getElem? hend, hstop⟩
  obtain ⟨hlt, hx, hbefore⟩ := List.findIdx?_eq_some_iff_getElem.mp hn
  have hget : ∀ j (hj : j < (block.drop a).length), block[a + j]? = some (block.drop a)[j] :=
    fun j hj => by rw [← List.getElem?_drop, List.getElem?_eq_getElem hj]
  have hnle : a + n ≤ s.length := by
    by_contra hgt
    have hj : s.length - a < n := by omega
    have hzero := (List.getElem?_eq_some_iff.mp hend).2
    have hns := hbefore (s.length - a) hj
    rw [hzero] at hns
    exact hns hstop
  refine ⟨n, hn, hnle, fun i x h1 h2 hi => ?_, _, hget n hlt, hx⟩
  obtain ⟨j, rfl⟩ := Nat.exists_eq_add_of_le h1
  have hj : j < n := by omega
  have hns := hbefore j hj
  have hbyte := hget j (Nat.lt_trans hj hlt)
  rw [h.byte (by omega) (by omega), hi] at hbyte
  rw [← Option.some.inj hbyte] at hns
  exact Bool.eq_false_iff.mpr hns

theorem Left.set {block : List UInt8} (h : Left s d block q) {q' : Nat} (hle : q ≤ q')
    (hq' : q' ≤ s.length) (hb : b < q') (hx : ∀ x, s[q' - 1]? = some x → x ∈ d) :
    Left s d (block.set b 0) q' := by
  refine ⟨hq', by rw [List.length_set, h.length], fun i hi => ?_, fun i x hi _ hix => ?_⟩
  · rw [List.getElem?_set_ne (by omega), h.same i (hle.trans hi)]
  · refine hx x ?_
    rwa [hi]

/-- The terminator is there already. -/
theorem Left.set_end {block : List UInt8} (h : Left s d block q) :
    block.set s.length 0 = block := by
  refine List.ext_getElem? fun i => ?_
  by_cases hi : s.length = i
  · rw [← hi, List.getElem?_set_self (by rw [h.length]; omega), h.terminator]
  · rw [List.getElem?_set_ne hi]

theorem strtokR_at (harg : arg = some q ∨ arg = none ∧ t.save = some q) :
    strtokR arg d t = strtokR (some q) d t := by
  rcases harg with rfl | ⟨rfl, hsave⟩
  · rfl
  · simp only [strtokR, hsave]

/-- A call that comes upon a token cuts it off, and the next call goes on behind it. -/
theorem strtokR_token (hs : 0 ∉ s) (hd : 0 ∉ d) (h : Left s d t.block q)
    (hspn : strspn (t.block.drop q) (d ++ [0]) = some n) (hc : s[q + n]? = some c) (hcd : c ∉ d)
    (hbefore : ∀ i y, q + n = i + 1 → s[i]? = some y → ¬ y ∉ d) :
    ∃ b q', IsToken (· ∉ d) s (q + n) b ∧ b ≤ q' ∧ q' ≤ b + 1 ∧
      Left s d (t.block.set b 0) q' ∧
      strtokR (some q) (d ++ [0]) t = some (some (q + n), ⟨t.block.set b 0, some q'⟩) := by
  have hlt : q + n < s.length := (List.getElem?_eq_some_iff.mp hc).1
  have hget : t.block[q + n]? = some c := by rw [h.byte (Nat.le_add_right q n) hlt, hc]
  have hc0 : c ≠ 0 := fun he => hs (he ▸ List.mem_of_getElem? hc)
  obtain ⟨m, hfind, hmle, hin, x, hx, hxstop⟩ := h.find
    (f := fun c => decide (c = 0 ∨ c ∈ d)) (by simp) (Nat.le_add_right q n) (Nat.le_of_lt hlt)
  have hpbrk := strpbrk_eq (l := t.block.drop (q + n)) hd
  rw [hfind, Option.map_some, List.getElem?_drop, hx] at hpbrk
  have hinside : ∀ i y, q + n ≤ i → i < q + n + m → s[i]? = some y → y ∉ d :=
    fun i y h1 h2 hy => by
      have hgo := hin i y h1 h2 hy
      rw [decide_eq_false_iff_not, not_or] at hgo
      exact hgo.2
  have hm : 0 < m := by
    refine Nat.pos_of_ne_zero fun he => ?_
    rw [he, Nat.add_zero, hget] at hx
    rw [← Option.some.inj hx] at hxstop
    simp [hc0, hcd] at hxstop
  have htoken : (∀ y, s[q + n + m]? = some y → ¬ y ∉ d) →
      IsToken (· ∉ d) s (q + n) (q + n + m) := fun hafter =>
    ⟨by omega, hmle, hinside, hbefore, hafter⟩
  rcases Nat.eq_or_lt_of_le hmle with hend | hmlt
  · -- The token finishes the string.
    rw [hend, h.terminator] at hx
    obtain rfl := Option.some.inj hx
    rw [if_pos rfl] at hpbrk
    obtain ⟨k, hchr, hkle, -, y, hy, hystop⟩ := h.find
      (f := fun c => decide (c = 0)) (by simp) (Nat.le_add_right q n) (Nat.le_of_lt hlt)
    have hk : q + n + k = s.length := by
      refine Nat.le_antisymm hkle (Nat.le_of_not_lt fun hlt' => ?_)
      rw [h.byte (by omega) hlt'] at hy
      rw [decide_eq_true_iff] at hystop
      exact hs (hystop ▸ List.mem_of_getElem? hy)
    rw [← strchr_zero] at hchr
    refine ⟨q + n + m, s.length, htoken fun y hy => ?_, by omega, by omega, ?_, ?_⟩
    · rw [hend, List.getElem?_eq_none (Nat.le_refl _)] at hy
      cases hy
    · rw [hend, h.set_end]
      exact ⟨Nat.le_refl _, h.length, fun i hi => h.same i (h.le.trans hi),
        fun i x hi hlt => absurd hlt (Nat.lt_irrefl _)⟩
    · rw [hend, h.set_end]
      simp [strtokR, hspn, hget, hc0, hpbrk, hchr, hk]
  · -- A delimiter ends the token.
    rw [h.byte (by omega) hmlt] at hx
    have hx0 : x ≠ 0 := fun he => hs (he ▸ List.mem_of_getElem? hx)
    have hxd : x ∈ d := by simpa [hx0] using hxstop
    rw [if_neg fun he => hx0 (Option.some.inj he)] at hpbrk
    have hat : ∀ y, s[q + n + m]? = some y → y ∈ d := fun y hy => by
      rw [hx] at hy
      exact Option.some.inj hy ▸ hxd
    refine ⟨q + n + m, q + n + m + 1, htoken fun y hy => not_not.mpr (hat y hy), by omega,
      by omega, h.set (by omega) (by omega) (by omega) hat, ?_⟩
    simp [strtokR, hspn, hget, hc0, hpbrk]

/-- What a call does from the position `q`: there is no token and nothing happens, or the first
token is cut off. -/
theorem strtokR_cases (hs : 0 ∉ s) (hd : 0 ∉ d) (h : Left s d t.block q)
    (harg : arg = some q ∨ arg = none ∧ t.save = some q) :
    ((∀ i x, q ≤ i → s[i]? = some x → ¬ x ∉ d) ∧ strtokR arg (d ++ [0]) t = some (none, t)) ∨
    ∃ a b q', IsToken (· ∉ d) s a b ∧ q ≤ a ∧
      (∀ i x, q ≤ i → i < a → s[i]? = some x → ¬ x ∉ d) ∧ b ≤ q' ∧ q' ≤ b + 1 ∧
      Left s d (t.block.set b 0) q' ∧
      strtokR arg (d ++ [0]) t = some (some a, ⟨t.block.set b 0, some q'⟩) := by
  rw [strtokR_at harg]
  obtain ⟨n, hspn, hle, hskip, c, hc, hstop⟩ :=
    h.find (f := fun c => decide (c = 0 ∨ c ∉ d)) (by simp) (Nat.le_refl q) h.le
  rw [← strspn_eq hd] at hspn
  have hdelim : ∀ i x, q ≤ i → i < q + n → s[i]? = some x → ¬ x ∉ d := fun i x h1 h2 hx => by
    have hgo := hskip i x h1 h2 hx
    rw [decide_eq_false_iff_not, not_or] at hgo
    exact hgo.2
  rcases Nat.eq_or_lt_of_le hle with hall | hlt
  · refine .inl ⟨fun i x h1 hx => ?_, ?_⟩
    · have hi : i < s.length := (List.getElem?_eq_some_iff.mp hx).1
      exact hdelim i x h1 (by omega) hx
    · simp [strtokR, hspn, hall, h.terminator]
  · have hbyte : s[q + n]? = some c := by rw [← h.byte (Nat.le_add_right q n) hlt, hc]
    have hc0 : c ≠ 0 := fun he => hs (he ▸ List.mem_of_getElem? hbyte)
    have hcd : c ∉ d := by simpa [hc0] using hstop
    obtain ⟨b, q', htoken, h1, h2, hleft, hcall⟩ :=
      strtokR_token hs hd h hspn hbyte hcd fun i y hi hy => by
        rcases Nat.eq_zero_or_pos n with rfl | hn
        · exact not_not.mpr (h.before i y hi hlt hy)
        · exact hdelim i y (by omega) (by omega) hy
    exact .inr ⟨q + n, b, q', htoken, Nat.le_add_right q n, hdelim, h1, h2, hleft, hcall⟩

/-! ## The strings behind the pointers -/

section Strings

variable {A T R : List UInt8}

theorem strspn_append (hA : ∀ c ∈ A, c ∈ d) (hR : ∀ c ∈ R.head?, c ∉ d) :
    Raincloud.strspn (A ++ R) d = A.length := by
  induction A with
  | nil =>
    cases R with
    | nil => rfl
    | cons c R => exact if_neg (hR c rfl)
  | cons c A ih =>
    rw [List.cons_append, Raincloud.strspn, if_pos (hA c List.mem_cons_self),
      ih fun x hx => hA x (List.mem_cons_of_mem c hx), List.length_cons]

theorem strpbrk_append (hT : ∀ c ∈ T, c ∉ d) (hR : ∀ c ∈ R.head?, c ∈ d) :
    Raincloud.strpbrk (T ++ R) d = if R = [] then none else some R := by
  induction T with
  | nil =>
    cases R with
    | nil => rfl
    | cons c R => simp [Raincloud.strpbrk, hR c rfl]
  | cons c T ih =>
    rw [List.cons_append, Raincloud.strpbrk, if_neg (hT c List.mem_cons_self),
      ih fun x hx => hT x (List.mem_cons_of_mem c hx)]

/-- Delimiters, a token, and what is left with a delimiter first. -/
theorem strtokR_append (hA : ∀ c ∈ A, c ∈ d) (hT : ∀ c ∈ T, c ∉ d) (hne : T ≠ [])
    (hR : ∀ c ∈ R.head?, c ∈ d) : Raincloud.strtokR (A ++ (T ++ R)) d = some (T, R.tail) := by
  obtain ⟨c, T, rfl⟩ := List.exists_cons_of_ne_nil hne
  have hhead : ∀ x ∈ (c :: T ++ R).head?, x ∉ d := fun x hx =>
    Option.some.inj hx ▸ hT c List.mem_cons_self
  unfold Raincloud.strtokR
  rw [strspn_append hA hhead, List.drop_left]
  dsimp only
  rw [strpbrk_append hT hR, if_neg (List.append_ne_nil_of_left_ne_nil hne R)]
  by_cases hR0 : R = []
  · simp [hR0]
  · rw [if_neg hR0]
    simp only [List.length_append, Nat.add_sub_cancel, List.take_left]

theorem get_of_mem_slice (h : c ∈ (s.take b).drop a) : ∃ i, a ≤ i ∧ i < b ∧ s[i]? = some c := by
  obtain ⟨i, hi⟩ := List.mem_iff_getElem?.mp h
  rw [List.getElem?_drop, List.getElem?_take] at hi
  obtain ⟨hlt, hi⟩ := Option.ite_none_right_eq_some.mp hi
  exact ⟨a + i, Nat.le_add_right a i, hlt, hi⟩

theorem drop_slice (hab : a ≤ b) (hb : b ≤ s.length) :
    s.drop a = (s.take b).drop a ++ s.drop b := by
  conv_lhs => rw [← List.take_append_drop b s]
  rw [List.drop_append_of_le_length (by rw [List.length_take]; omega)]

/-- The call on the block does what the function on strings does. -/
theorem strtokR_refines (hs : 0 ∉ s) (hd : 0 ∉ d) (h : Left s d t.block q)
    (harg : arg = some q ∨ arg = none ∧ t.save = some q) :
    match Raincloud.strtokR (s.drop q) d with
    | none => strtokR arg (d ++ [0]) t = some (none, t)
    | some (token, rest) => ∃ a b q', token = (s.take b).drop a ∧ rest = s.drop q' ∧
        strtokR arg (d ++ [0]) t = some (some a, ⟨t.block.set b 0, some q'⟩) := by
  rcases strtokR_cases hs hd h harg with ⟨hnone, hcall⟩ |
    ⟨a, b, q', htoken, hqa, hskip, h1, h2, hleft, hcall⟩
  · have hall : ∀ c ∈ s.drop q, c ∈ d := fun c hc => by
      obtain ⟨i, hi⟩ := List.mem_iff_getElem?.mp hc
      rw [List.getElem?_drop] at hi
      exact not_not.mp (hnone (q + i) c (Nat.le_add_right q i) hi)
    have hspan : Raincloud.strspn (s.drop q) d = (s.drop q).length := by
      simpa using strspn_append (R := []) hall (by simp)
    have htok : Raincloud.strtokR (s.drop q) d = none := by
      unfold Raincloud.strtokR
      rw [hspan, List.drop_length, if_pos rfl]
    rw [htok]
    exact hcall
  · have hlt := htoken.lt
    have hle := htoken.le
    have hsplit : s.drop q = (s.take a).drop q ++ ((s.take b).drop a ++ s.drop b) := by
      rw [← drop_slice (by omega) hle, ← drop_slice hqa (by omega)]
    have hA : ∀ c ∈ (s.take a).drop q, c ∈ d := fun c hc => by
      obtain ⟨i, h1, h2, hi⟩ := get_of_mem_slice hc
      exact not_not.mp (hskip i c h1 h2 hi)
    have hT : ∀ c ∈ (s.take b).drop a, c ∉ d := fun c hc => by
      obtain ⟨i, h1, h2, hi⟩ := get_of_mem_slice hc
      exact htoken.inside i c h1 h2 hi
    have hne : (s.take b).drop a ≠ [] := List.ne_nil_of_length_pos (by
      rw [List.length_drop, List.length_take]
      omega)
    have hR : ∀ c ∈ (s.drop b).head?, c ∈ d := fun c hc => by
      rw [List.head?_drop] at hc
      exact not_not.mp (htoken.after c hc)
    rw [hsplit, strtokR_append hA hT hne hR]
    refine ⟨a, b, q', rfl, ?_, hcall⟩
    rw [List.tail_drop]
    rcases Nat.eq_or_lt_of_le h1 with rfl | hb
    · have hend : s.length ≤ b := by
        -- The string has no NUL, so the one at `b` is the terminator.
        refine Nat.le_of_not_lt fun hlt => hs (List.mem_of_getElem? (i := b) ?_)
        rw [← hleft.byte (Nat.le_refl b) hlt, List.getElem?_set_self (by rw [h.length]; omega)]
      rw [List.drop_eq_nil_of_le (Nat.le_succ_of_le hend), List.drop_eq_nil_of_le hend]
    · rw [show q' = b + 1 by omega]

end Strings

/-! ## Runs of calls -/

variable {ts : List (Nat × Nat)} {i : Nat}

/-- The block after the tokens `ts` have been cut off. -/
def cut (ts : List (Nat × Nat)) (block : List UInt8) : List UInt8 :=
  ts.foldl (fun block tok => block.set tok.2 0) block

theorem cut_length (ts : List (Nat × Nat)) (block : List UInt8) :
    (cut ts block).length = block.length := by
  induction ts generalizing block with
  | nil => rfl
  | cons tok ts ih => exact (ih _).trans List.length_set

theorem cut_of_notMem {block : List UInt8} (h : ∀ tok ∈ ts, tok.2 ≠ i) :
    (cut ts block)[i]? = block[i]? := by
  induction ts generalizing block with
  | nil => rfl
  | cons tok ts ih =>
    refine (ih fun t ht => h t (List.mem_cons_of_mem tok ht)).trans ?_
    exact List.getElem?_set_ne (h tok List.mem_cons_self)

/-- A byte that is 0 stays 0. -/
theorem cut_zero {block : List UInt8} (h : block[i]? = some 0) : (cut ts block)[i]? = some 0 := by
  induction ts generalizing block with
  | nil => exact h
  | cons tok ts ih =>
    refine ih ?_
    change (block.set tok.2 0)[i]? = some 0
    by_cases he : tok.2 = i
    · rw [he, List.getElem?_set_self (List.getElem?_eq_some_iff.mp h).1]
    · rw [List.getElem?_set_ne he, h]

theorem cut_of_mem {block : List UInt8} {tok : Nat × Nat} (h : tok ∈ ts)
    (hlt : tok.2 < block.length) : (cut ts block)[tok.2]? = some 0 := by
  induction ts generalizing block with
  | nil => cases h
  | cons first ts ih =>
    change (cut ts (block.set first.2 0))[tok.2]? = some 0
    rcases List.mem_cons.mp h with rfl | hmem
    · exact cut_zero (List.getElem?_set_self hlt)
    · exact ih hmem (by rwa [List.length_set])

/-- Where the tokens start, and then `NULL`. -/
def returns (ts : List (Nat × Nat)) (n : Nat) : List (Option Nat) :=
  (List.range n).map fun k => ts[k]?.map (·.1)

theorem returns_cons (tok : Nat × Nat) (ts : List (Nat × Nat)) (n : Nat) :
    returns (tok :: ts) (n + 1) = some tok.1 :: returns ts n := by
  unfold returns
  rw [List.range_succ_eq_map, List.map_cons, List.map_map]
  rfl

theorem returns_nil (n : Nat) : returns [] (n + 1) = none :: returns [] n := by
  unfold returns
  rw [List.range_succ_eq_map, List.map_cons, List.map_map]
  rfl

/-- Where there are no tokens every call returns `NULL`. -/
theorem laterCalls_nil (hcall : strtokR none d t = some (none, t)) (n : Nat) :
    laterCalls d n t = some (returns [] n, t) := by
  induction n with
  | zero => rfl
  | succ n ih => simp [laterCalls, hcall, ih, returns_nil]

/-- The calls from the position `q` on hand out the tokens from there on. -/
theorem laterCalls_run (hs : 0 ∉ s) (hd : 0 ∉ d) (h : Left s d t.block q)
    (hsave : t.save = some q) : ∃ ts, TokensFrom (· ∉ d) s q ts ∧ ∀ n, ∃ q' ≤ s.length,
      laterCalls (d ++ [0]) n t = some (returns ts n, ⟨cut (ts.take n) t.block, some q'⟩) := by
  -- Each token shortens what is left.
  generalize hm : s.length - q = m
  induction m using Nat.strong_induction_on generalizing q t with
  | _ m ih =>
    rcases strtokR_cases hs hd h (.inr ⟨rfl, hsave⟩) with ⟨hnone, hcall⟩ |
      ⟨a, b, q', htoken, hqa, hskip, h1, h2, hleft, hcall⟩
    · refine ⟨[], .nil hnone, fun n => ⟨q, h.le, ?_⟩⟩
      rw [laterCalls_nil hcall, List.take_nil, ← hsave]
      rfl
    · have hlt := htoken.lt
      have hle := htoken.le
      obtain ⟨ts, hts, hrun⟩ := ih (s.length - q') (by omega)
        (t := ⟨t.block.set b 0, some q'⟩) hleft rfl rfl
      refine ⟨(a, b) :: ts, hts.cons htoken hqa hskip h1 h2, fun n => ?_⟩
      cases n with
      | zero => exact ⟨q, h.le, by rw [← hsave]; rfl⟩
      | succ n =>
        obtain ⟨q'', hq'', hcalls⟩ := hrun n
        refine ⟨q'', hq'', ?_⟩
        rw [returns_cons, List.take_succ_cons]
        simp only [laterCalls, hcall, hcalls, Option.bind_eq_bind, Option.bind_some]
        rfl

/-! ## Tokenising a string -/

/-- The string `w` stands at `a`, with a terminator behind it. -/
def StringAt (block : List UInt8) (a : Nat) (w : List UInt8) : Prop :=
  0 ∉ w ∧ ∃ rest, block.drop a = w ++ 0 :: rest

/-- What the first `n` calls, the tokens of the string being `ts`, return and leave behind. -/
structure CallsLawful (s : List UInt8) (ts : List (Nat × Nat)) (n : Nat)
    (rets : List (Option Nat)) (t : Tokenizer) : Prop where
  /-- The tokens in order and each once, and then `NULL`. -/
  returned : rets = returns ts n
  strings : ∀ tok ∈ ts.take n, StringAt t.block tok.1 ((s.take tok.2).drop tok.1)
  save : ∃ q ≤ s.length, t.save = some q
  length : t.block.length = s.length + 1
  /-- What is directly after a token becomes `NUL`, and nothing else changes. -/
  ends : ∀ tok ∈ ts.take n, t.block[tok.2]? = some 0
  same : ∀ i, (∀ tok ∈ ts.take n, tok.2 ≠ i) → t.block[i]? = (s ++ [0])[i]?

/-- However often `strtok_r` is called after the first time, it hands out the tokens of `s`. -/
def Tokenises (s d : List UInt8) (save : Option Nat) : Prop :=
  ∃ ts, TokensFrom (· ∉ d) s 0 ts ∧ ∀ n, ∃ rets t,
    calls (d ++ [0]) n ⟨s ++ [0], save⟩ = some (rets, t) ∧ CallsLawful s ts (n + 1) rets t

/-- A token stays what it was when its end and the ends of others are cut. -/
theorem stringAt_cut (hs : 0 ∉ s) (hts : TokensFrom (· ∉ d) s 0 ts) {n : Nat} {tok : Nat × Nat}
    (h : tok ∈ ts.take n) :
    StringAt (cut (ts.take n) (s ++ [0])) tok.1 ((s.take tok.2).drop tok.1) := by
  have htoken := ((hts.mem tok).mp (List.mem_of_mem_take h)).1
  have hlt := htoken.lt
  have hle := htoken.le
  have hend : tok.2 < (s ++ [0]).length := by
    rw [List.length_append, List.length_singleton]
    omega
  have hinside : ∀ i, tok.1 ≤ i → i < tok.2 → (cut (ts.take n) (s ++ [0]))[i]? = s[i]? :=
    fun i h1 h2 => by
      rw [cut_of_notMem fun t ht he => ?_, List.getElem?_append_left (by omega)]
      have htok := ((hts.mem t).mp (List.mem_of_mem_take ht)).1
      exact htoken.not_inside htok (he ▸ h1) (he ▸ h2)
  refine ⟨fun hmem => hs (List.mem_of_mem_take (List.mem_of_mem_drop hmem)),
    (cut (ts.take n) (s ++ [0])).drop (tok.2 + 1), ?_⟩
  refine List.ext_getElem? fun i => ?_
  have hlen : ((s.take tok.2).drop tok.1).length = tok.2 - tok.1 := by
    rw [List.length_drop, List.length_take, Nat.min_eq_left hle]
  rw [List.getElem?_drop]
  rcases Nat.lt_trichotomy i (tok.2 - tok.1) with hi | rfl | hi
  · rw [hinside _ (by omega) (by omega), List.getElem?_append_left (by omega), List.getElem?_drop,
      List.getElem?_take_of_lt (by omega)]
  · rw [List.getElem?_append_right (by omega), hlen, Nat.sub_self, List.getElem?_cons_zero,
      Nat.add_sub_cancel' (Nat.le_of_lt hlt), cut_of_mem h hend]
  · obtain ⟨j, rfl⟩ : ∃ j, i = tok.2 - tok.1 + (j + 1) := ⟨i - (tok.2 - tok.1) - 1, by omega⟩
    rw [List.getElem?_append_right (by omega), hlen, Nat.add_sub_cancel_left,
      List.getElem?_cons_succ, List.getElem?_drop]
    congr 1
    omega

theorem callsLawful_cut (hs : 0 ∉ s) (hts : TokensFrom (· ∉ d) s 0 ts) (n : Nat)
    (hq : q ≤ s.length) : CallsLawful s ts n (returns ts n)
      ⟨cut (ts.take n) (s ++ [0]), some q⟩ := by
  refine ⟨rfl, fun tok h => stringAt_cut hs hts h, ⟨q, hq, rfl⟩, ?_, fun tok h => ?_,
    fun i h => cut_of_notMem h⟩
  · rw [cut_length, List.length_append, List.length_singleton]
  · have htoken := ((hts.mem tok).mp (List.mem_of_mem_take h)).1
    have hle := htoken.le
    refine cut_of_mem h ?_
    rw [List.length_append, List.length_singleton]
    omega

theorem left_start (s d : List UInt8) : Left s d (s ++ [0]) 0 :=
  ⟨Nat.zero_le _, List.length_append, fun _ _ => rfl, fun _ _ h => by cases h⟩

/--
`strtok_r` hands out the tokens of a string if it has one. If it has none the first call leaves
`*save_ptr` as it was, which has to point into the string already.
-/
theorem tokenises_iff (hs : 0 ∉ s) (hd : 0 ∉ d) (save : Option Nat) :
    Tokenises s d save ↔ (∃ c ∈ s, c ∉ d) ∨ ∃ q ≤ s.length, save = some q := by
  have hfirst := strtokR_cases (t := ⟨s ++ [0], save⟩) hs hd (left_start s d) (.inl rfl)
  rcases hfirst with ⟨hnone, hcall⟩ | ⟨a, b, q, htoken, -, hskip, h1, h2, hleft, hcall⟩
  · have hall : ¬ ∃ c ∈ s, c ∉ d := by
      rintro ⟨c, hc, hcd⟩
      obtain ⟨i, hi⟩ := List.mem_iff_getElem?.mp hc
      exact hnone i c (Nat.zero_le i) hi hcd
    rw [or_iff_right hall]
    constructor
    · rintro ⟨ts, -, hrun⟩
      obtain ⟨rets, t, hcalls, hlaw⟩ := hrun 0
      simp only [calls, hcall, laterCalls, Option.bind_eq_bind, Option.bind_some] at hcalls
      obtain ⟨-, rfl⟩ := Prod.mk.inj (Option.some.inj hcalls)
      exact hlaw.save
    · rintro ⟨q, hq, rfl⟩
      have hlater : strtokR none (d ++ [0]) ⟨s ++ [0], some q⟩ =
          some (none, ⟨s ++ [0], some q⟩) := by
        have hleft : Left s d (s ++ [0]) q := ⟨hq, List.length_append, fun _ _ => rfl,
          fun i x _ _ hx => not_not.mp (hnone i x (Nat.zero_le i) hx)⟩
        rcases strtokR_cases (t := ⟨s ++ [0], some q⟩) hs hd hleft (.inr ⟨rfl, rfl⟩) with
          ⟨-, h⟩ | ⟨a, b, -, htoken, -⟩
        · exact h
        · obtain ⟨x, hx, hxd⟩ := htoken.get (Nat.le_refl a) htoken.lt
          exact absurd hxd (hnone a x (Nat.zero_le a) hx)
      have hts : TokensFrom (· ∉ d) s 0 [] := .nil hnone
      refine ⟨[], hts, fun n => ⟨returns [] (n + 1), ⟨s ++ [0], some q⟩, ?_, ?_⟩⟩
      · rw [returns_nil]
        simp only [calls, hcall, laterCalls_nil hlater, Option.bind_eq_bind, Option.bind_some]
        rfl
      · exact callsLawful_cut hs hts (n + 1) hq
  · obtain ⟨x, hx, hxd⟩ := htoken.get (Nat.le_refl a) htoken.lt
    refine iff_of_true ?_ (.inl ⟨x, List.mem_of_getElem? hx, hxd⟩)
    obtain ⟨ts, hts, hrun⟩ := laterCalls_run hs hd (t := ⟨(s ++ [0]).set b 0, some q⟩) hleft rfl
    have hall := hts.cons htoken (Nat.zero_le a) hskip h1 h2
    refine ⟨(a, b) :: ts, hall, fun n => ?_⟩
    obtain ⟨q', hq', hcalls⟩ := hrun n
    refine ⟨_, _, ?_, callsLawful_cut hs hall (n + 1) hq'⟩
    rw [returns_cons]
    simp only [calls, hcall, hcalls, Option.bind_eq_bind, Option.bind_some]
    rfl

/-- A string of two tokens, whatever `*save_ptr` was. -/
theorem path_tokenises : Tokenises [0x2f, 0x61, 0x2f, 0x62] [0x2f] none :=
  (tokenises_iff (by decide) (by decide) none).mpr (.inl (by decide))

/-- A path of slashes, with a `*save_ptr` that points nowhere yet. -/
theorem slash_not_tokenised : ¬ Tokenises [0x2f] [0x2f] none := by
  rintro ⟨ts, -, hrun⟩
  obtain ⟨rets, t, hcalls, hlaw⟩ := hrun 0
  obtain ⟨-, rfl⟩ := Prod.mk.inj (Option.some.inj hcalls)
  obtain ⟨q, -, hq⟩ := hlaw.save
  cases hq

end Raincloud.Strtok
