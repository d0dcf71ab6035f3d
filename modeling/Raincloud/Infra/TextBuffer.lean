import Raincloud.Infra.Memory

/-!
# Text in a buffer

A list of bytes is put into memory from an address on. A writer that may leave a terminator
behind its text keeps `Written`, which says nothing about that one byte, and texts written one
behind the other are written as one.
-/

namespace Infra

namespace Mem

/-- The bytes of `l` from `a` on. -/
def putList (m : Mem) (a : Nat) (l : List UInt8) : Mem := fun x =>
  if a ≤ x ∧ x < a + l.length then l.getD (x - a) 0 else m x

variable {m m' m'' : Mem} {a : Nat} {l k : List UInt8}

@[simp] theorem putList_nil (m : Mem) (a : Nat) : putList m a [] = m :=
  funext fun _ => if_neg fun h => absurd (Nat.lt_of_le_of_lt h.1 h.2) (Nat.lt_irrefl a)

theorem putList_outside {x : Nat} (h : x < a ∨ a + l.length ≤ x) : putList m a l x = m x :=
  if_neg (by omega)

theorem putList_cons (m : Mem) (a : Nat) (c : UInt8) (l : List UInt8) :
    putList (Function.update m a c) (a + 1) l = putList m a (c :: l) := by
  funext x
  unfold putList
  rw [List.length_cons]
  rcases Nat.lt_trichotomy x a with h | rfl | h
  · rw [if_neg (by omega), if_neg (by omega), Function.update_of_ne (Nat.ne_of_lt h)]
  · rw [if_neg (by omega), if_pos (by omega), Function.update_self, Nat.sub_self]
    rfl
  · obtain ⟨j, rfl⟩ := Nat.exists_eq_add_of_lt h
    have hj : a + j + 1 - a = j + 1 := by omega
    have hj' : a + j + 1 - (a + 1) = j := by omega
    rw [hj, hj', List.getD_cons_succ, Function.update_of_ne (by omega)]
    by_cases hlt : j < l.length
    · rw [if_pos (by omega), if_pos (by omega)]
    · rw [if_neg (by omega), if_neg (by omega)]

theorem putList_append (m : Mem) (a : Nat) (l k : List UInt8) :
    putList (putList m a l) (a + l.length) k = putList m a (l ++ k) := by
  induction l generalizing m a with
  | nil => rw [putList_nil, List.nil_append, List.length_nil, Nat.add_zero]
  | cons c l ih =>
    rw [← putList_cons, List.length_cons, Nat.add_comm l.length, ← Nat.add_assoc, ih,
      List.cons_append, putList_cons]

theorem putList_inside {i : Nat} (h : i < l.length) : putList m a l (a + i) = l[i] := by
  unfold putList
  rw [if_pos (by omega), Nat.add_sub_cancel_left, List.getD_eq_getElem?_getD,
    List.getElem?_eq_getElem h, Option.getD_some]

/-- The bytes put are read back. -/
theorem bytes_putList (m : Mem) (a : Nat) (l : List UInt8) :
    bytes (putList m a l) a l.length = l := by
  refine List.ext_getElem? fun i => ?_
  by_cases hi : i < l.length
  · rw [getElem?_bytes _ hi, List.getElem?_eq_getElem hi, putList_inside hi]
  · rw [List.getElem?_eq_none (Nat.le_of_not_lt hi),
      List.getElem?_eq_none (by rw [length_bytes]; omega)]

/-- Lists that change every memory alike are the same. -/
theorem putList_injective (h : ∀ m, putList m a l = putList m a k) : l = k := by
  have hle : ∀ {s t : List UInt8}, (∀ m, putList m a s = putList m a t) → ¬ s.length < t.length :=
    fun {s t} hst hlt => by
      -- The byte behind the shorter one is the memory's.
      have hbyte : ∀ c, t[s.length] = c := fun c => by
        have hx := congrFun (hst fun _ => c) (a + s.length)
        rw [putList_outside (.inr (Nat.le_refl _)), putList_inside hlt] at hx
        exact hx.symm
      exact absurd ((hbyte 0).symm.trans (hbyte 1)) (by decide)
  have hlen : l.length = k.length := Nat.le_antisymm
    (Nat.le_of_not_lt (hle fun m => (h m).symm)) (Nat.le_of_not_lt (hle h))
  refine List.ext_getElem hlen fun i h1 h2 => ?_
  have hx := congrFun (h fun _ => 0) (a + i)
  rwa [putList_inside h1, putList_inside h2] at hx

/-- The text from `a` on, up to a terminator. -/
def TextAt (m : Mem) (a : Nat) (text : List UInt8) : Prop :=
  0 ∉ text ∧ bytes m a (text.length + 1) = text ++ [0]

theorem textAt_putList (m : Mem) (a : Nat) (h : 0 ∉ l) : TextAt (putList m a (l ++ [0])) a l := by
  have hbytes := bytes_putList m a (l ++ [0])
  rw [List.length_append] at hbytes
  exact ⟨h, hbytes⟩

/-- A text ends at its first 0, so there is only one. -/
theorem TextAt.unique (hl : TextAt m a l) (hk : TextAt m a k) : l = k := by
  have hnot : ∀ {s t : List UInt8}, TextAt m a s → TextAt m a t → ¬ s.length < t.length :=
    fun {s t} hs ht hlt => by
      have hzero := getElem?_bytes m (a := a) (Nat.lt_succ_self s.length)
      have hbyte := getElem?_bytes m (a := a) (Nat.lt_succ_of_lt hlt)
      rw [hs.2, List.getElem?_concat_length] at hzero
      rw [ht.2, List.getElem?_append_left hlt, ← hzero] at hbyte
      exact ht.1 (List.mem_of_getElem? hbyte)
  have hlen : l.length = k.length :=
    Nat.le_antisymm (Nat.le_of_not_lt (hnot hk hl)) (Nat.le_of_not_lt (hnot hl hk))
  have heq := hl.2.symm.trans ((congrArg (fun n => bytes m a (n + 1)) hlen).trans hk.2)
  exact List.append_cancel_right heq

/-- The text `l` from `a` on and nothing else, but perhaps a byte behind it. -/
def Written (m m' : Mem) (a : Nat) (l : List UInt8) : Prop :=
  ∀ x, x ≠ a + l.length → m' x = putList m a l x

theorem written_putList (m : Mem) (a : Nat) (l : List UInt8) : Written m (putList m a l) a l :=
  fun _ _ => rfl

theorem written_nil (m : Mem) (a : Nat) : Written m m a [] := fun x _ => by rw [putList_nil]

/-- A text with one byte more behind it. -/
theorem written_behind (m : Mem) (a : Nat) (l : List UInt8) (c : UInt8) :
    Written m (putList m a (l ++ [c])) a l := by
  intro x hx
  rw [← putList_append]
  exact putList_outside (by rw [List.length_singleton]; omega)

theorem Written.append (h : Written m m' a l) (h' : Written m' m'' (a + l.length) k) :
    Written m m'' a (l ++ k) := by
  intro x hx
  rw [List.length_append, ← Nat.add_assoc] at hx
  rw [h' x hx, ← putList_append]
  by_cases hin : a + l.length ≤ x ∧ x < a + l.length + k.length
  · exact (if_pos hin).trans (if_pos hin).symm
  · refine (if_neg hin).trans (Eq.trans ?_ (if_neg hin).symm)
    exact h x (by omega)

/-- A last byte behind the text settles all of it. -/
theorem Written.finish (h : Written m m' a l) (c : UInt8) :
    Function.update m' (a + l.length) c = putList m a (l ++ [c]) := by
  rw [← putList_append, ← putList_cons, putList_nil]
  funext x
  by_cases hx : x = a + l.length
  · rw [hx, Function.update_self, Function.update_self]
  · rw [Function.update_of_ne hx, Function.update_of_ne hx, h x hx]

end Mem

end Infra
