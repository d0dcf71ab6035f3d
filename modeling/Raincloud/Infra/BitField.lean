import Raincloud.Infra.Memory

/-!
# Bit fields of structures in memory

A field of a structure is some bits of a unit of bytes at an offset. Writing a field changes no
other field of the structure and nothing outside its unit, and reading it back gives the bits
that it has room for.
-/

namespace Infra

/-! ## Bits of a number -/

/-- The bits `lo` to `lo + w` of `x` replaced by those of `v`. -/
def insertBits (x lo w v : Nat) : Nat :=
  2 ^ lo * (2 ^ w * (x / 2 ^ (lo + w)) + v % 2 ^ w) + x % 2 ^ lo

theorem testBit_insertBits (x lo w v i : Nat) : (insertBits x lo w v).testBit i =
    if lo ≤ i ∧ i < lo + w then v.testBit (i - lo) else x.testBit i := by
  have hlow : x % 2 ^ lo < 2 ^ lo := Nat.mod_lt _ (Nat.two_pow_pos lo)
  have hmid : v % 2 ^ w < 2 ^ w := Nat.mod_lt _ (Nat.two_pow_pos w)
  unfold insertBits
  rw [Nat.testBit_two_pow_mul_add _ hlow, Nat.testBit_two_pow_mul_add _ hmid]
  by_cases h1 : i < lo
  · rw [if_pos h1, if_neg (by omega), Nat.testBit_mod_two_pow, decide_eq_true h1, Bool.true_and]
  · rw [if_neg h1]
    by_cases h2 : i < lo + w
    · rw [if_pos (by omega), if_pos (by omega), Nat.testBit_mod_two_pow,
        decide_eq_true (show i - lo < w by omega), Bool.true_and]
    · rw [if_neg (by omega), if_neg (by omega), Nat.testBit_div_two_pow]
      congr 1
      omega

theorem insertBits_lt {x lo w v k : Nat} (hx : x < 2 ^ k) (h : lo + w ≤ k) :
    insertBits x lo w v < 2 ^ k := by
  refine Nat.lt_pow_two_of_testBit _ fun i hi => ?_
  rw [testBit_insertBits, if_neg (by omega)]
  exact Nat.testBit_lt_two_pow (Nat.lt_of_lt_of_le hx (Nat.pow_le_pow_right (by decide) hi))

/-- Some bits of a number. -/
def bitsAt (x lo w : Nat) : Nat := x / 2 ^ lo % 2 ^ w

theorem testBit_bitsAt (x lo w i : Nat) :
    (bitsAt x lo w).testBit i = (decide (i < w) && x.testBit (i + lo)) := by
  unfold bitsAt
  rw [Nat.testBit_mod_two_pow, Nat.testBit_div_two_pow]

theorem bitsAt_insertBits (x lo w v : Nat) : bitsAt (insertBits x lo w v) lo w = v % 2 ^ w := by
  apply Nat.eq_of_testBit_eq
  intro i
  rw [testBit_bitsAt, testBit_insertBits, Nat.testBit_mod_two_pow]
  by_cases hi : i < w
  · rw [if_pos (by omega), Nat.add_sub_cancel]
  · rw [decide_eq_false hi, Bool.false_and, Bool.false_and]

theorem bitsAt_insertBits_of_disjoint {x lo w v lo' w' : Nat} (h : lo' + w' ≤ lo ∨ lo + w ≤ lo') :
    bitsAt (insertBits x lo w v) lo' w' = bitsAt x lo' w' := by
  apply Nat.eq_of_testBit_eq
  intro i
  rw [testBit_bitsAt, testBit_bitsAt, testBit_insertBits]
  by_cases hi : i < w'
  · rw [if_neg (by omega)]
  · rw [decide_eq_false hi, Bool.false_and, Bool.false_and]

/-! ## Fields -/

/-- Bits of a unit of bytes of a structure. -/
structure Field where
  offset : Nat
  bytes : Nat
  lo : Nat
  width : Nat
  deriving DecidableEq

namespace Field

/-- The field lies in its unit. -/
def Fits (f : Field) : Prop := f.lo + f.width ≤ 8 * f.bytes

/-- The fields have units apart, or bits apart in the same unit. -/
def Apart (f g : Field) : Prop :=
  f.offset + f.bytes ≤ g.offset ∨ g.offset + g.bytes ≤ f.offset ∨
    f.offset = g.offset ∧ f.bytes = g.bytes ∧ (f.lo + f.width ≤ g.lo ∨ g.lo + g.width ≤ f.lo)

instance (f : Field) : Decidable f.Fits := inferInstanceAs (Decidable (_ ≤ _))

instance (f g : Field) : Decidable (f.Apart g) := inferInstanceAs (Decidable (_ ∨ _))

end Field

namespace Mem

variable {m m' : Mem} {a b v : Nat} {f g : Field}

/-- The field `f` of the structure at `a`. -/
def field (m : Mem) (a : Nat) (f : Field) : Nat :=
  bitsAt (m.load (a + f.offset) f.bytes) f.lo f.width

def setField (m : Mem) (a : Nat) (f : Field) (v : Nat) : Mem :=
  m.store (a + f.offset) f.bytes (insertBits (m.load (a + f.offset) f.bytes) f.lo f.width v)

theorem load_setField (h : f.Fits) : (m.setField a f v).load (a + f.offset) f.bytes
    = insertBits (m.load (a + f.offset) f.bytes) f.lo f.width v := by
  have hlt : m.load (a + f.offset) f.bytes < 2 ^ (8 * f.bytes) := by
    rw [pow_mul]
    exact load_lt m _ _
  unfold setField
  rw [load_store]
  refine Nat.mod_eq_of_lt (Nat.lt_of_lt_of_eq (insertBits_lt hlt h) ?_)
  rw [pow_mul]
  rfl

theorem field_setField (h : f.Fits) : (m.setField a f v).field a f = v % 2 ^ f.width := by
  unfold field
  rw [load_setField h, bitsAt_insertBits]

theorem field_setField_of_apart (hf : f.Fits) (h : f.Apart g) :
    (m.setField a f v).field a g = m.field a g := by
  unfold field
  rcases h with h | h | ⟨hoff, hbytes, hbits⟩
  · rw [setField, load_store_of_disjoint (by omega)]
  · rw [setField, load_store_of_disjoint (by omega)]
  · have hload := load_setField (m := m) (a := a) (v := v) hf
    rw [← hoff, ← hbytes, hload, bitsAt_insertBits_of_disjoint (by omega)]

/-- A field of another structure. -/
theorem field_setField_of_disjoint (h : b + g.offset + g.bytes ≤ a + f.offset ∨
    a + f.offset + f.bytes ≤ b + g.offset) : (m.setField a f v).field b g = m.field b g := by
  unfold field setField
  rw [load_store_of_disjoint (by omega)]

theorem setField_apply_of_not_mem {x : Nat}
    (h : x < a + f.offset ∨ a + f.offset + f.bytes ≤ x) : m.setField a f v x = m x :=
  store_apply_of_not_mem h

theorem field_congr (h : ∀ i, a + f.offset ≤ i → i < a + f.offset + f.bytes → m' i = m i) :
    m'.field a f = m.field a f := by
  unfold field
  rw [load_congr h]

/-- A field that is its whole unit. -/
theorem setField_whole (hlo : f.lo = 0) (hwidth : f.width = 8 * f.bytes) :
    m.setField a f v = m.store (a + f.offset) f.bytes (v % 2 ^ f.width) := by
  have hlt : m.load (a + f.offset) f.bytes < 2 ^ f.width := by
    rw [hwidth, pow_mul]
    exact load_lt m _ _
  unfold setField insertBits
  rw [hlo, Nat.zero_add, Nat.div_eq_of_lt hlt, Nat.mul_zero, Nat.zero_add, pow_zero, Nat.one_mul,
    Nat.mod_one, Nat.add_zero]

/-- A field of a structure of `n` bytes is written. -/
theorem SameOutside.setField {n : Nat} (h : SameOutside (Set.Ico a (a + n)) m m')
    (hf : f.offset + f.bytes ≤ n) : SameOutside (Set.Ico a (a + n)) m (m'.setField a f v) := by
  intro x hx
  rw [← h x hx]
  refine setField_apply_of_not_mem ?_
  by_contra hin
  exact hx ⟨by omega, by omega⟩

/-- A structure that is copied has the fields of the one it was copied from. -/
theorem field_put {n : Nat} (h : f.offset + f.bytes ≤ n) :
    (m.put a n fun j => m' (b + j)).field a f = m'.field b f := by
  unfold field
  congr 1
  refine load_shift fun i hi => ?_
  refine (if_pos ⟨by omega, by omega⟩).trans ?_
  show m' (b + (a + f.offset + i - a)) = m' (b + f.offset + i)
  congr 1
  omega

/-- All fields of zeroed memory are zero. -/
theorem field_eq_zero (h : ∀ i, a + f.offset ≤ i → i < a + f.offset + f.bytes → m i = 0) :
    m.field a f = 0 := by
  have hload : m.load (a + f.offset) f.bytes = 0 := by
    have hdigits : m.load (a + f.offset) f.bytes = 0 % 256 ^ f.bytes :=
      load_eq_of_digits fun i hi => by
        rw [h _ (by omega) (by omega), Nat.zero_div]
        rfl
    rw [hdigits, Nat.zero_mod]
  unfold field bitsAt
  rw [hload, Nat.zero_div, Nat.zero_mod]

end Mem

end Infra
