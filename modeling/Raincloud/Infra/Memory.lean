import Mathlib.Tactic
import Mathlib.Order.CompletePartialOrder

/-!
# Byte memory

A memory gives every address a byte. A word is eight bytes, low byte first; `load` and
`store` take the number of bytes, and `load64`/`store64` are their eight-byte cases.

Two facts carry all reasoning about stores: what was stored is read back
(`load64_store64`), and an access that does not overlap the stored bytes does not notice
(`load64_store64_of_disjoint`, `store_apply_of_not_mem`).
-/

namespace Infra

/-- A byte at every address. -/
abbrev Mem := Nat → UInt8

namespace Mem

/-! ## Loads and stores -/

/-- The number whose `n` little-endian bytes start at `a`. -/
def load (m : Mem) (a : Nat) : Nat → Nat
  | 0 => 0
  | n + 1 => (m a).toNat + 256 * load m (a + 1) n

/-- Write the low `n` bytes of `v` at `a`. -/
def store (m : Mem) (a n v : Nat) : Mem := fun x =>
  if a ≤ x ∧ x < a + n then UInt8.ofNat (v / 256 ^ (x - a)) else m x

def load64 (m : Mem) (a : Nat) : Nat := load m a 8

def store64 (m : Mem) (a v : Nat) : Mem := store m a 8 v

theorem store_apply_of_not_mem {m : Mem} {a n v x : Nat} (h : x < a ∨ a + n ≤ x) :
    store m a n v x = m x := by
  unfold store
  rw [if_neg (by omega)]

theorem load_congr {m m' : Mem} : ∀ {n a : Nat}, (∀ x, a ≤ x → x < a + n → m' x = m x) →
    load m' a n = load m a n
  | 0, _, _ => rfl
  | n + 1, a, h => by
    rw [load, load, h a (by omega) (by omega),
      load_congr fun x hx hx' => h x (by omega) (by omega)]

/-- Words of the same bytes are the same. -/
theorem load_shift {m m' : Mem} : ∀ {n a a' : Nat}, (∀ i < n, m (a + i) = m' (a' + i)) →
    load m a n = load m' a' n
  | 0, _, _, _ => rfl
  | n + 1, a, a', h => by
    have h0 : m a = m' a' := h 0 (Nat.succ_pos n)
    have hs : ∀ i < n, m (a + 1 + i) = m' (a' + 1 + i) := fun i hi => by
      rw [Nat.add_assoc, Nat.add_assoc, Nat.add_comm 1 i]
      exact h (i + 1) (Nat.succ_lt_succ hi)
    rw [load, load, h0, load_shift hs]

/-- Bytes that are the digits of `v` to base 256 load as `v`. -/
theorem load_eq_of_digits {m : Mem} : ∀ {n a v : Nat},
    (∀ i < n, (m (a + i)).toNat = v / 256 ^ i % 256) → load m a n = v % 256 ^ n
  | 0, _, v, _ => by simp [load, Nat.mod_one]
  | n + 1, a, v, h => by
    have h0 : (m a).toNat = v % 256 := by simpa using h 0 (by omega)
    have hs : load m (a + 1) n = v / 256 % 256 ^ n := by
      refine load_eq_of_digits fun i hi => ?_
      rw [Nat.div_div_eq_div_mul, ← pow_succ', ← h (i + 1) (by omega)]
      congr 2
      omega
    rw [load, h0, hs, pow_succ', Nat.mod_mul]

theorem load_store (m : Mem) (a n v : Nat) : load (store m a n v) a n = v % 256 ^ n := by
  refine load_eq_of_digits fun i hi => ?_
  unfold store
  rw [if_pos (by omega), Nat.add_sub_cancel_left, UInt8.toNat_ofNat']

theorem load_store_of_disjoint {m : Mem} {a n v b k : Nat} (h : b + k ≤ a ∨ a + n ≤ b) :
    load (store m a n v) b k = load m b k :=
  load_congr fun _ _ _ => store_apply_of_not_mem (by omega)

theorem load_lt (m : Mem) : ∀ (a n : Nat), load m a n < 256 ^ n
  | _, 0 => by simp [load]
  | a, n + 1 => by
    have h := load_lt m (a + 1) n
    have hb : (m a).toNat < 256 := (m a).toNat_lt
    rw [load, pow_succ']
    omega

/-- The bytes of a loaded number. -/
theorem load_div_mod (m : Mem) : ∀ {n a i : Nat}, i < n →
    load m a n / 256 ^ i % 256 = (m (a + i)).toNat
  | n + 1, a, 0, _ => by
    have hb : (m a).toNat < 256 := (m a).toNat_lt
    rw [load, pow_zero, Nat.div_one, Nat.add_zero a]
    omega
  | n + 1, a, i + 1, h => by
    have hb : (m a).toNat < 256 := (m a).toNat_lt
    have hdiv : ((m a).toNat + 256 * load m (a + 1) n) / 256 = load m (a + 1) n := by omega
    rw [load, pow_succ', ← Nat.div_div_eq_div_mul, hdiv,
      load_div_mod m (Nat.lt_of_succ_lt_succ h), Nat.add_assoc, Nat.add_comm 1 i]

theorem load64_lt (m : Mem) (a : Nat) : load64 m a < 2 ^ 64 := load_lt m a 8

theorem load64_store64_mod (m : Mem) (a v : Nat) : load64 (store64 m a v) a = v % 2 ^ 64 :=
  load_store m a 8 v

theorem load64_store64 {m : Mem} {a v : Nat} (h : v < 2 ^ 64) :
    load64 (store64 m a v) a = v := by
  rw [load64_store64_mod, Nat.mod_eq_of_lt h]

theorem load64_store64_of_disjoint {m : Mem} {a v b : Nat} (h : b + 8 ≤ a ∨ a + 8 ≤ b) :
    load64 (store64 m a v) b = load64 m b :=
  load_store_of_disjoint h

theorem load64_congr {m m' : Mem} {a : Nat} (h : ∀ x, a ≤ x → x < a + 8 → m' x = m x) :
    load64 m' a = load64 m a :=
  load_congr h

/-! ## Frames -/

/-- Outside `S` the two memories hold the same bytes. -/
def SameOutside (S : Set Nat) (m m' : Mem) : Prop := ∀ x, x ∉ S → m' x = m x

namespace SameOutside

variable {S T : Set Nat} {m m' m'' : Mem}

theorem refl (S : Set Nat) (m : Mem) : SameOutside S m m := fun _ _ => rfl

theorem trans (h : SameOutside S m m') (h' : SameOutside S m' m'') : SameOutside S m m'' :=
  fun x hx => (h' x hx).trans (h x hx)

theorem mono (hST : S ⊆ T) (h : SameOutside S m m') : SameOutside T m m' :=
  fun x hx => h x fun hS => hx (hST hS)

theorem load64_eq (h : SameOutside S m m') {a : Nat} (ha : ∀ x, a ≤ x → x < a + 8 → x ∉ S) :
    load64 m' a = load64 m a :=
  load64_congr fun x h1 h2 => h x (ha x h1 h2)

theorem store64 (h : SameOutside S m m') {a v : Nat} (ha : Set.Ico a (a + 8) ⊆ S) :
    SameOutside S m (Mem.store64 m' a v) := by
  intro x hx
  have hout : x < a ∨ a + 8 ≤ x := by
    by_contra hc
    exact hx (ha ⟨by omega, by omega⟩)
  rw [← h x hx]
  exact store_apply_of_not_mem hout

end SameOutside

/-! ## Filling and copying -/

/-- `n` bytes from `a` set to `c`. -/
def fill (m : Mem) (a : Nat) (c : UInt8) : Nat → Mem
  | 0 => m
  | n + 1 => fill (Function.update m a c) (a + 1) c n

theorem fill_apply (m : Mem) (c : UInt8) : ∀ (n a x : Nat),
    fill m a c n x = if a ≤ x ∧ x < a + n then c else m x := by
  intro n
  induction n generalizing m with
  | zero =>
    intro a x
    rw [fill, if_neg (by omega)]
  | succ n ih =>
    intro a x
    rw [fill, ih]
    by_cases hx : x = a
    · subst hx
      rw [if_neg (by omega), if_pos (by omega), Function.update_self]
    · rw [Function.update_of_ne hx]
      by_cases hin : a + 1 ≤ x ∧ x < a + 1 + n
      · rw [if_pos hin, if_pos (by omega)]
      · rw [if_neg hin, if_neg (by omega)]

theorem fill_sameOutside (m : Mem) (a : Nat) (c : UInt8) (n : Nat) :
    SameOutside (Set.Ico a (a + n)) m (fill m a c n) := by
  intro x hx
  rw [fill_apply]
  exact if_neg hx

/-- Byte by byte from `src` up to `dst` up. -/
def copy (m : Mem) (dst src : Nat) : Nat → Mem
  | 0 => m
  | n + 1 => copy (Function.update m dst (m src)) (dst + 1) (src + 1) n

/-- A copy between ranges that do not overlap. -/
theorem copy_apply : ∀ (n : Nat) (m : Mem) (dst src x : Nat),
    (dst + n ≤ src ∨ src + n ≤ dst) →
    copy m dst src n x = if dst ≤ x ∧ x < dst + n then m (src + (x - dst)) else m x
  | 0, m, dst, src, x, _ => by rw [copy, if_neg (by omega)]
  | n + 1, m, dst, src, x, h => by
    rw [copy, copy_apply n _ _ _ _ (by omega)]
    by_cases hx : x = dst
    · subst hx
      rw [if_neg (by omega), if_pos (by omega), Function.update_self, Nat.sub_self, Nat.add_zero]
    · by_cases hin : dst + 1 ≤ x ∧ x < dst + 1 + n
      · rw [if_pos hin, if_pos (by omega), Function.update_of_ne (by omega)]
        congr 1
        omega
      · rw [if_neg hin, if_neg (by omega), Function.update_of_ne hx]

/-- Whatever the ranges, a copy writes only its destination. -/
theorem copy_sameOutside : ∀ (n : Nat) (m : Mem) (dst src : Nat),
    SameOutside (Set.Ico dst (dst + n)) m (copy m dst src n)
  | 0, m, _, _ => SameOutside.refl _ m
  | n + 1, m, dst, src => by
    intro x hx
    have hx' : x ∉ Set.Ico (dst + 1) (dst + 1 + n) := fun h => hx ⟨by have := h.1; omega, by
      have := h.2; omega⟩
    have hne : x ≠ dst := fun h => hx ⟨by omega, by omega⟩
    rw [copy, copy_sameOutside n _ _ _ x hx', Function.update_of_ne hne]

/-! ## Putting bytes -/

/-- `n` bytes from `a` on set to those of `f`. -/
def put (m : Mem) (a n : Nat) (f : Nat → UInt8) : Mem := fun x =>
  if a ≤ x ∧ x < a + n then f (x - a) else m x

@[simp] theorem put_zero (m : Mem) (a : Nat) (f : Nat → UInt8) : put m a 0 f = m :=
  funext fun x => if_neg (by omega)

theorem put_congr {m : Mem} {a n : Nat} {f g : Nat → UInt8} (h : ∀ j < n, f j = g j) :
    put m a n f = put m a n g := by
  funext x
  unfold put
  split
  · exact h _ (by omega)
  · rfl

/-- Bytes put right behind others. -/
theorem put_put (m : Mem) (a n k : Nat) (f g : Nat → UInt8) :
    put (put m a n f) (a + n) k g = put m a (n + k) fun j => if j < n then f j else g (j - n) := by
  funext x
  unfold put
  by_cases hlo : a ≤ x ∧ x < a + n
  · rw [if_neg (by omega), if_pos hlo, if_pos (by omega)]
    exact (if_pos (by omega)).symm
  · by_cases hhi : a + n ≤ x ∧ x < a + n + k
    · rw [if_pos hhi, if_pos (by omega), Nat.sub_add_eq]
      exact (if_neg (by omega)).symm
    · rw [if_neg hhi, if_neg hlo, if_neg (by omega)]

/-- Storing what was loaded moves bytes. -/
theorem store_load (m m' : Mem) (a b n : Nat) :
    store m a n (load m' b n) = put m a n fun j => m' (b + j) := by
  funext x
  unfold store put
  by_cases hx : a ≤ x ∧ x < a + n
  · rw [if_pos hx, if_pos hx]
    apply UInt8.toNat.inj
    rw [UInt8.toNat_ofNat', load_div_mod m' (by omega)]
  · rw [if_neg hx, if_neg hx]

/-! ## Bytes as a list -/

/-- The `n` bytes from `a` on. -/
def bytes (m : Mem) (a : Nat) : Nat → List UInt8
  | 0 => []
  | n + 1 => m a :: bytes m (a + 1) n

@[simp] theorem length_bytes (m : Mem) : ∀ a n, (bytes m a n).length = n
  | _, 0 => rfl
  | a, n + 1 => by rw [bytes, List.length_cons, length_bytes m]

theorem bytes_congr {m m' : Mem} : ∀ {n a : Nat}, (∀ x, a ≤ x → x < a + n → m' x = m x) →
    bytes m' a n = bytes m a n
  | 0, _, _ => rfl
  | n + 1, a, h => by
    rw [bytes, bytes, h a (by omega) (by omega),
      bytes_congr fun x hx hx' => h x (by omega) (by omega)]

theorem getElem?_bytes (m : Mem) : ∀ {n a i : Nat}, i < n → (bytes m a n)[i]? = some (m (a + i))
  | n + 1, a, 0, _ => by rw [bytes, List.getElem?_cons_zero, Nat.add_zero]
  | n + 1, a, i + 1, h => by
    rw [bytes, List.getElem?_cons_succ, getElem?_bytes m (Nat.lt_of_succ_lt_succ h), Nat.add_assoc,
      Nat.add_comm 1 i]

attribute [irreducible] load64 store64

end Mem

end Infra
