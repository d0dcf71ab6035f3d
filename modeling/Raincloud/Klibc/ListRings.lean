import Raincloud.Infra.MemRing
import Raincloud.Infra.Rings
import Raincloud.Klibc.ListHead

/-!
# `list.h` on rings in memory

Each operation does to the sequence of a ring what it is called after, wherever in the ring the
entry is and however short the ring. The bytes of all other rings and entries stay as they are.
-/

set_option linter.style.nameCheck false

namespace Raincloud

open Infra Infra.LinkStore

universe u v

section

variable {σ : Type u} {α : Type v} [LinkStore σ α] [DecidableEq α] {S : Set α} {s : σ}
  {h p x y : α} {l : List α} {R : List (List α)}

/-! ## `list_replace` -/

/-- The entry that precedes the new one: itself if the old one was alone. -/
def replacedPrev (s : σ) (old new : α) : α := if old = next s old then new else prev s old

theorem replacedPrev_mem (hp : prev s p ∈ S) (hx : x ∈ S) : replacedPrev s p x ∈ S := by
  unfold replacedPrev
  split
  · exact hx
  · exact hp

theorem listReplace_eq (hS : LawfulOn σ S) (hp : p ∈ S) (hnp : next s p ∈ S) (hpp : prev s p ∈ S)
    (hx : x ∈ S) : listReplace s p x =
      setNext (setPrev (setPrev (setNext s x (next s p)) (next s p) x) x (replacedPrev s p x))
        (replacedPrev s p x) x := by
  have hP := replacedPrev_mem hpp hx
  have hprev : prev (setPrev (setNext s x (next s p)) (next s p) x) p = replacedPrev s p x := by
    rw [hS.prev_setPrev _ hnp hx hp, hS.prev_setNext _ hx hnp hp]
    rfl
  unfold listReplace
  dsimp only
  rw [hS.next_setNext _ hx hnp hx, if_pos rfl, hprev, hS.prev_setPrev _ hx hP hx, if_pos rfl]

theorem next_listReplace (hS : LawfulOn σ S) (hp : p ∈ S) (hnp : next s p ∈ S)
    (hpp : prev s p ∈ S) (hx : x ∈ S) (hy : y ∈ S) : next (listReplace s p x) y =
      if y = replacedPrev s p x then x else if y = x then next s p else next s y := by
  have hP := replacedPrev_mem hpp hx
  rw [listReplace_eq hS hp hnp hpp hx, hS.next_setNext _ hP hx hy, hS.next_setPrev _ hx hP hy,
    hS.next_setPrev _ hnp hx hy, hS.next_setNext _ hx hnp hy]

theorem prev_listReplace (hS : LawfulOn σ S) (hp : p ∈ S) (hnp : next s p ∈ S)
    (hpp : prev s p ∈ S) (hx : x ∈ S) (hy : y ∈ S) : prev (listReplace s p x) y =
      if y = x then replacedPrev s p x else if y = next s p then x else prev s y := by
  have hP := replacedPrev_mem hpp hx
  rw [listReplace_eq hS hp hnp hpp hx, hS.prev_setNext _ hP hx hy, hS.prev_setPrev _ hx hP hy,
    hS.prev_setPrev _ hnp hx hy, hS.prev_setNext _ hx hnp hy]

/-- The links of an entry when another one has come in before it. -/
theorem links_preceded (hS : LawfulOn σ S) (hp : p ∈ S) (hpp : prev s p ∈ S) (hx : x ∈ S)
    (hxp : p ≠ x) :
    next (listAddBefore s p x) p = (if p = prev s p then x else next s p) ∧
      prev (listAddBefore s p x) p = x := by
  unfold listAddBefore
  rw [next_listAdd hS hpp hp hx hp, prev_listAdd hS hpp hp hx hp, if_neg hxp, if_pos rfl]
  exact ⟨rfl, rfl⟩

omit [DecidableEq α] in
/-- An entry is its own neighbour on both sides or on none. -/
theorem prev_self_iff (hpn : prev s (next s p) = p) (hnp : next s (prev s p) = p) :
    p = prev s p ↔ p = next s p :=
  ⟨fun he => by rw [← he] at hnp; exact hnp.symm, fun he => by rw [← he] at hpn; exact hpn.symm⟩

/-- `list_replace` leaves the links that are there when the new entry comes in before the old one
and the old one leaves. -/
theorem sameLinks_listReplace (hS : LawfulOn σ S) (hr : Ring s p l) (hl : ∀ y ∈ p :: l, y ∈ S)
    (hx : x ∈ S) (hnew : x ∉ p :: l) (hy : y ∈ x :: l) :
    SameLinks (listDel (listAddBefore s p x) p) (listReplace s p x) y := by
  have hp : p ∈ S := hl p List.mem_cons_self
  obtain ⟨hpn, hnp, hnmem, hpmem⟩ := hr.inverse
  have hn := hl _ hnmem
  have hpp := hl _ hpmem
  have hxn : next s p ≠ x := fun he => hnew (he ▸ hnmem)
  have hxp : p ≠ x := fun he => hnew (he ▸ List.mem_cons_self)
  have hyS : y ∈ S := (List.mem_cons.mp hy).elim (fun he => he ▸ hx) fun hy =>
    hl y (List.mem_cons_of_mem p hy)
  have hyp : y ≠ p := by
    rintro rfl
    exact (List.mem_cons.mp hy).elim hxp hr.not_mem
  obtain ⟨hnext1, hprev1⟩ := links_preceded hS hp hpp hx hxp
  have hnext1S : next (listAddBefore s p x) p ∈ S := by
    rw [hnext1]
    split
    · exact hx
    · exact hn
  unfold SameLinks
  rw [next_listReplace hS hp hn hpp hx hyS, prev_listReplace hS hp hn hpp hx hyS]
  unfold listDel
  rw [hprev1, next_listDel hS hx hnext1S hyS, prev_listDel hS hx hnext1S hyS, hnext1]
  unfold listAddBefore
  rw [next_listAdd hS hpp hp hx hyS, prev_listAdd hS hpp hp hx hyS, if_neg hyp]
  unfold replacedPrev
  by_cases he : p = next s p
  · -- the old entry was alone
    have he' := (prev_self_iff hpn hnp).mpr he
    rw [if_pos he, if_pos he', ← he, ← he', if_neg hyp, if_neg hyp]
    by_cases hyx : y = x
    · simp only [if_pos hyx, and_self]
    · simp only [if_neg hyx, and_self]
  · have he' := fun h => he ((prev_self_iff hpn hnp).mp h)
    rw [if_neg he, if_neg he']
    by_cases hyx : y = x
    · subst hyx
      have hyn : y ≠ next s p := Ne.symm hxn
      have hypp : y ≠ prev s p := fun h => hnew (h ▸ hpmem)
      simp only [if_neg hyn, if_neg hypp, if_true, and_self]
    · simp only [if_neg hyx, and_self]

/-- The ring keeps its other entries. -/
theorem ring_listReplace (hS : LawfulOn σ S) (hr : Ring s p l) (hl : ∀ y ∈ p :: l, y ∈ S)
    (hx : x ∈ S) (hnew : x ∉ p :: l) : Ring (listReplace s p x) x l := by
  have hins : Ring (listAddBefore s p x) x (p :: l) := by
    have hadd := ring_listAddBefore_head hS hr hl hx hnew
    have hclosed : Closed (listAddBefore s p x) ([x] ++ p :: l) := (ring_iff.mp hadd).2.rotate
    exact ring_iff.mpr ⟨List.nodup_cons.mpr ⟨hnew, hr.nodup⟩, hclosed⟩
  have hall : ∀ y ∈ x :: p :: l, y ∈ S := fun y hy => by
    rcases List.mem_cons.mp hy with rfl | hy
    · exact hx
    · exact hl y hy
  have hdel : Ring (listDel (listAddBefore s p x) p) x l := ring_listDel (A := []) hS hins hall
  exact hdel.congr fun y hy => sameLinks_listReplace hS hr hl hx hnew hy

/-! ## Families of rings -/

theorem rings_listAddAfter (hS : LawfulOn σ S) (hR : Rings s R) (hl : ∀ y ∈ R.flatten, y ∈ S)
    (hp : p ∈ R.flatten) (hx : x ∈ S) (hnew : x ∉ R.flatten) :
    Rings (listAddAfter s p x) (R.map (insertAfter p x)) := by
  obtain ⟨A, B, hmem, hr, hin⟩ := hR.turn hp
  have hxp : x ≠ p := fun he => hnew (he ▸ hp)
  have hxr : x ∉ p :: (B ++ A) := fun h => hnew (hin x h)
  have hnext : next s p = (B ++ A).headD p := hr.next_head
  have hnmem : next s p ∈ p :: (B ++ A) := hr.inverse.2.2.1
  refine hR.replace hmem ?_ (fun y hy hyp => ?_) ?_ fun y hy hyr => ?_
  · exact List.nodup_cons.mpr ⟨fun h => hxp (List.mem_singleton.mp h).symm, List.nodup_singleton x⟩
  · rw [List.mem_pair, or_iff_right hyp] at hy
    exact hy ▸ hnew
  · have hring : Ring (__listAdd s p ((B ++ A).headD p) x) p (x :: (B ++ A)) :=
      ring_listAdd (A := []) hS hr (fun y hy => hl y (hin y hy)) hx hxr
    rw [← hnext] at hring
    exact (ring_iff.mp hring).2
  · exact sameLinks_listAdd hS (hl p hp) (hl _ (hin _ hnmem)) hx (hl y hy)
      (fun he => hnew (he ▸ hy)) (fun he => hyr (he ▸ List.mem_cons_self)) fun he => hyr (he ▸ hnmem)

theorem rings_listAddBefore (hS : LawfulOn σ S) (hR : Rings s R) (hl : ∀ y ∈ R.flatten, y ∈ S)
    (hp : p ∈ R.flatten) (hx : x ∈ S) (hnew : x ∉ R.flatten) :
    Rings (listAddBefore s p x) (R.map (insertBefore p x)) := by
  obtain ⟨A, B, hmem, hr, hin⟩ := hR.turn hp
  have hxp : x ≠ p := fun he => hnew (he ▸ hp)
  have hxr : x ∉ p :: (B ++ A) := fun h => hnew (hin x h)
  have hpmem : prev s p ∈ p :: (B ++ A) := hr.inverse.2.2.2
  refine hR.replace hmem ?_ (fun y hy hyp => ?_) ?_ fun y hy hyr => ?_
  · exact List.nodup_cons.mpr ⟨fun h => hxp (List.mem_singleton.mp h), List.nodup_singleton p⟩
  · rw [List.mem_pair, or_iff_left hyp] at hy
    exact hy ▸ hnew
  · have hring := ring_listAddBefore_head hS hr (fun y hy => hl y (hin y hy)) hx hxr
    exact Closed.rotate (A := p :: (B ++ A)) (ring_iff.mp hring).2
  · exact sameLinks_listAdd hS (hl _ (hin _ hpmem)) (hl p hp) hx (hl y hy)
      (fun he => hnew (he ▸ hy)) (fun he => hyr (he ▸ hpmem)) fun he => hyr (he ▸ List.mem_cons_self)

theorem rings_listDel (hS : LawfulOn σ S) (hR : Rings s R) (hl : ∀ y ∈ R.flatten, y ∈ S)
    (hx : x ∈ R.flatten) : Rings (listDel s x) (R.map (without x)) := by
  obtain ⟨A, B, hmem, hr, hin⟩ := hR.turn hx
  obtain ⟨-, -, hnmem, hpmem⟩ := hr.inverse
  refine hR.replace hmem List.nodup_nil (fun y hy => absurd hy List.not_mem_nil) ?_
    fun y hy hyr => ?_
  · rw [List.nil_append]
    cases hrest : B ++ A with
    | nil => exact closed_nil _
    | cons h t =>
      rw [hrest] at hr hin
      -- the ring from the entry behind on, where the one to delete comes last
      have hturned : Ring s h (t ++ [x]) := by
        have hclosed : Closed s (h :: t ++ [x]) := Closed.rotate (A := [x]) (ring_iff.mp hr).2
        refine ring_iff.mpr ⟨?_, hclosed⟩
        have hnd := hr.nodup
        rwa [← List.singleton_append, List.nodup_append_comm] at hnd
      have hdel := ring_listDel (B := []) hS hturned fun y hy => hl y (hin y ?_)
      · rw [List.append_nil] at hdel
        exact (ring_iff.mp hdel).2
      · simp only [List.mem_cons, List.mem_append, List.not_mem_nil, or_false] at hy ⊢
        tauto
  · exact sameLinks_listDel hS (hl _ (hin _ hpmem)) (hl _ (hin _ hnmem)) (hl y hy)
      (fun he => hyr (he ▸ hpmem)) fun he => hyr (he ▸ hnmem)

theorem rings_listReplace (hS : LawfulOn σ S) (hR : Rings s R) (hl : ∀ y ∈ R.flatten, y ∈ S)
    (hp : p ∈ R.flatten) (hx : x ∈ S) (hnew : x ∉ R.flatten) :
    Rings (listReplace s p x) (R.map (replaced p x)) := by
  obtain ⟨A, B, hmem, hr, hin⟩ := hR.turn hp
  obtain ⟨-, -, hnmem, hpmem⟩ := hr.inverse
  have hxr : x ∉ p :: (B ++ A) := fun h => hnew (hin x h)
  refine hR.replace hmem (List.nodup_singleton x) (fun y hy _ => ?_) ?_ fun y hy hyr => ?_
  · exact List.mem_singleton.mp hy ▸ hnew
  · exact (ring_iff.mp (ring_listReplace hS hr (fun y hy => hl y (hin y hy)) hx hxr)).2
  · have hyx : y ≠ x := fun he => hnew (he ▸ hy)
    have hyn : y ≠ next s p := fun he => hyr (he ▸ hnmem)
    have hyP : y ≠ replacedPrev s p x := by
      unfold replacedPrev
      split
      · exact hyx
      · exact fun he => hyr (he ▸ hpmem)
    unfold SameLinks
    rw [next_listReplace hS (hl p hp) (hl _ (hin _ hnmem)) (hl _ (hin _ hpmem)) hx (hl y hy),
      prev_listReplace hS (hl p hp) (hl _ (hin _ hnmem)) (hl _ (hin _ hpmem)) hx (hl y hy),
      if_neg hyP, if_neg hyx, if_neg hyx, if_neg hyn]
    exact ⟨rfl, rfl⟩

theorem mem_without : y ∈ (R.map (without x)).flatten ↔ y ∈ R.flatten ∧ y ≠ x := by
  unfold without
  rw [flatten_splice, mem_splice]
  exact or_iff_left fun h => List.not_mem_nil h.1

/-- An entry that has left is on no ring. -/
theorem notMem_without (x : α) (R : List (List α)) : x ∉ (R.map (without x)).flatten := fun h =>
  (mem_without.mp h).2 rfl

theorem rings_listMove (hS : LawfulOn σ S) (hR : Rings s R) (hl : ∀ y ∈ R.flatten, y ∈ S)
    (hh : h ∈ R.flatten) (hx : x ∈ R.flatten) (hne : x ≠ h) :
    Rings (listMove s h x) ((R.map (without x)).map (insertAfter h x)) :=
  rings_listAddAfter hS (rings_listDel hS hR hl hx) (fun y hy => hl y (mem_without.mp hy).1)
    (mem_without.mpr ⟨hh, hne.symm⟩) (hl x hx) (notMem_without x R)

theorem rings_listMoveTail (hS : LawfulOn σ S) (hR : Rings s R) (hl : ∀ y ∈ R.flatten, y ∈ S)
    (hh : h ∈ R.flatten) (hx : x ∈ R.flatten) (hne : x ≠ h) :
    Rings (listMoveTail s h x) ((R.map (without x)).map (insertBefore h x)) :=
  rings_listAddBefore hS (rings_listDel hS hR hl hx) (fun y hy => hl y (mem_without.mp hy).1)
    (mem_without.mpr ⟨hh, hne.symm⟩) (hl x hx) (notMem_without x R)

end

/-! ## In memory -/

variable {m m' : Mem} {R R' : List (List Nat)} {N T : Set Nat} {es : List Nat} {h p x y : Nat}

def nodeBytes (T : Set Nat) : Set Nat := {a | ∃ y ∈ T, y ≤ a ∧ a < y + 16}

/-- Some entries, and what is on their rings. -/
def sharing (R : List (List Nat)) (es : List Nat) : Set Nat :=
  {y | y ∈ es ∨ ∃ l ∈ R, y ∈ l ∧ ∃ e ∈ es, e ∈ l}

/-- The memory `m'` has the rings `R'`, and differs from `m` only on the rings of `es`. -/
structure Refines (m m' : Mem) (R R' : List (List Nat)) (es : List Nat) : Prop where
  rings : Rings m' R'
  inverse : ∀ y ∈ R'.flatten, prev m' (next m' y) = y ∧ next m' (prev m' y) = y
  /-- The rings without these entries are the same, and so is every byte that is not theirs. -/
  kept : ∀ l ∈ R, (∀ e ∈ es, e ∉ l) → l ∈ R'
  others : m.SameOutside (nodeBytes (sharing R es)) m'

theorem Refines.of_rings {f : List Nat → List Nat} (hR : Rings m' (R.map f))
    (hf : ∀ l, (∀ e ∈ es, e ∉ l) → f l = l)
    (hm : m.SameOutside (nodeBytes (sharing R es)) m') : Refines m m' R (R.map f) es :=
  ⟨hR, fun _ hy => hR.inverse hy, fun l hl hes => List.mem_map.mpr ⟨l, hl, hf l hes⟩, hm⟩

/-- An entry of another ring, or of none, is not touched. -/
theorem Refines.entry (h : Refines m m' R R' es) (hN : Mem.NodesApart N) (hes : ∀ e ∈ es, e ∈ N)
    (hR : ∀ l ∈ R, ∀ e ∈ l, e ∈ N) (hy : y ∈ N) (hys : y ∉ sharing R es) : SameLinks m m' y := by
  have hbytes : ∀ a, y ≤ a → a < y + 16 → m' a = m a := fun a h1 h2 => by
    refine h.others a fun ⟨z, hz, hza⟩ => ?_
    have hzN : z ∈ N := hz.elim (hes z) fun ⟨l, hl, hzl, _⟩ => hR l hl z hzl
    have hne : y ≠ z := fun he => hys (he ▸ hz)
    have hapart := hN.apart y hy z hzN hne
    omega
  exact ⟨Mem.load64_congr fun a h1 h2 => hbytes a h1 (by omega),
    Mem.load64_congr fun a h1 h2 => hbytes a (by omega) (by omega)⟩

theorem others_setNext (hm : m.SameOutside (nodeBytes T) m') (hy : y ∈ T) (v : Nat) :
    m.SameOutside (nodeBytes T) (setNext m' y v) := by
  rw [Mem.setNext_def]
  refine hm.store64 fun a ha => ⟨y, hy, ha.1, ?_⟩
  have hlt := ha.2
  omega

theorem others_setPrev (hm : m.SameOutside (nodeBytes T) m') (hy : y ∈ T) (v : Nat) :
    m.SameOutside (nodeBytes T) (setPrev m' y v) := by
  rw [Mem.setPrev_def]
  refine hm.store64 fun a ha => ⟨y, hy, ?_, ?_⟩
  · exact (Nat.le_add_right y 8).trans ha.1
  · have hlt := ha.2
    omega

theorem others_listAdd (hm : m.SameOutside (nodeBytes T) m') {a b : Nat} (ha : a ∈ T)
    (hb : b ∈ T) (hx : x ∈ T) : m.SameOutside (nodeBytes T) (__listAdd m' a b x) := by
  unfold __listAdd
  refine others_setPrev (others_setNext (others_setNext ?_ ha x) hx b) hb x
  exact others_setPrev hm hx a

theorem others_listDel (hm : m.SameOutside (nodeBytes T) m') {a b : Nat} (ha : a ∈ T)
    (hb : b ∈ T) : m.SameOutside (nodeBytes T) (__listDel m' a b) := by
  unfold __listDel
  exact others_setPrev (others_setNext hm ha b) hb a

theorem mem_sharing_self (hy : y ∈ es) : y ∈ sharing R es := .inl hy

/-- The neighbours of an entry share its ring. -/
theorem mem_sharing_neighbours (hR : Rings m R) (hp : p ∈ R.flatten) (he : p ∈ es) :
    next m p ∈ sharing R es ∧ prev m p ∈ sharing R es := by
  obtain ⟨l, hl, hpl, hn, hpr⟩ := hR.neighbours hp
  exact ⟨.inr ⟨l, hl, hn, p, he, hpl⟩, .inr ⟨l, hl, hpr, p, he, hpl⟩⟩

/-- What is on a ring that an entry has left was on it before. -/
theorem sharing_without : sharing (R.map (without x)) es ⊆ sharing R es := by
  rintro y (hy | ⟨l, hl, hyl, e, he, hel⟩)
  · exact .inl hy
  · obtain ⟨k, hk, rfl⟩ := List.mem_map.mp hl
    have hsub : ∀ z ∈ without x k, z ∈ k := fun z hz =>
      (mem_splice.mp hz).elim And.left fun h => absurd h.1 List.not_mem_nil
    exact .inr ⟨k, hk, hsub y hyl, e, he, hsub e hel⟩

/-- An entry that leaves changes the bytes of its ring at most. -/
theorem others_leave (hR : Rings m R) (hx : x ∈ R.flatten) (he : x ∈ es) :
    m.SameOutside (nodeBytes (sharing R es)) (listDel m x) := by
  have hnbrs := mem_sharing_neighbours hR hx he
  exact others_listDel (Mem.SameOutside.refl _ m) hnbrs.2 hnbrs.1

/-! ### The operations -/

section

variable (hN : Mem.NodesApart N) (hR : Rings m R) (hsub : ∀ y ∈ R.flatten, y ∈ N)
include hN hR hsub

theorem refines_listAddAfter (hp : p ∈ R.flatten) (hx : x ∈ N) (hnew : x ∉ R.flatten) :
    Refines m (listAddAfter m p x) R (R.map (insertAfter p x)) [p, x] := by
  have hpes : p ∈ [p, x] := List.mem_cons_self
  refine .of_rings (rings_listAddAfter hN.lawfulOn hR hsub hp hx hnew)
    (fun l hl => splice_of_notMem (hl p hpes)) ?_
  exact others_listAdd (Mem.SameOutside.refl _ m) (mem_sharing_self hpes)
    (mem_sharing_neighbours hR hp hpes).1 (mem_sharing_self (List.mem_cons_of_mem p
      (List.mem_singleton_self x)))

theorem refines_listAddBefore (hp : p ∈ R.flatten) (hx : x ∈ N) (hnew : x ∉ R.flatten) :
    Refines m (listAddBefore m p x) R (R.map (insertBefore p x)) [p, x] := by
  have hpes : p ∈ [p, x] := List.mem_cons_self
  refine .of_rings (rings_listAddBefore hN.lawfulOn hR hsub hp hx hnew)
    (fun l hl => splice_of_notMem (hl p hpes)) ?_
  exact others_listAdd (Mem.SameOutside.refl _ m) (mem_sharing_neighbours hR hp hpes).2
    (mem_sharing_self hpes) (mem_sharing_self (List.mem_cons_of_mem p
      (List.mem_singleton_self x)))

theorem refines_listReplace (hp : p ∈ R.flatten) (hx : x ∈ N) (hnew : x ∉ R.flatten) :
    Refines m (listReplace m p x) R (R.map (replaced p x)) [p, x] := by
  have hpes : p ∈ [p, x] := List.mem_cons_self
  have hxT : x ∈ sharing R [p, x] :=
    mem_sharing_self (List.mem_cons_of_mem p (List.mem_singleton_self x))
  obtain ⟨l, hl, hpl, hn, hpr⟩ := hR.neighbours hp
  have hnbrs := mem_sharing_neighbours hR hp hpes
  refine .of_rings (rings_listReplace hN.lawfulOn hR hsub hp hx hnew)
    (fun l hl => splice_of_notMem (hl p hpes)) ?_
  rw [listReplace_eq hN.lawfulOn (hsub p hp) (hsub _ (List.mem_flatten_of_mem hl hn))
    (hsub _ (List.mem_flatten_of_mem hl hpr)) hx]
  refine others_setNext (others_setPrev (others_setPrev ?_ hnbrs.1 x) hxT _)
    (replacedPrev_mem hnbrs.2 hxT) x
  exact others_setNext (Mem.SameOutside.refl _ m) hxT _

theorem refines_listDel (hx : x ∈ R.flatten) :
    Refines m (listDel m x) R (R.map (without x)) [x] :=
  .of_rings (rings_listDel hN.lawfulOn hR hsub hx)
    (fun _ hl => splice_of_notMem (hl x (List.mem_singleton_self x)))
    (others_leave hR hx (List.mem_singleton_self x))

theorem refines_listMove (hh : h ∈ R.flatten) (hx : x ∈ R.flatten) (hne : x ≠ h) :
    Refines m (listMove m h x) R ((R.map (without x)).map (insertAfter h x)) [h, x] := by
  have hhes : h ∈ [h, x] := List.mem_cons_self
  have hxes : x ∈ [h, x] := List.mem_cons_of_mem h (List.mem_singleton_self x)
  have hdel := rings_listDel hN.lawfulOn hR hsub hx
  have hnbrs := mem_sharing_neighbours hdel (mem_without.mpr ⟨hh, hne.symm⟩) hhes
  have hrings := rings_listMove hN.lawfulOn hR hsub hh hx hne
  rw [List.map_map] at hrings ⊢
  refine .of_rings hrings (fun l hl => ?_) ?_
  · exact (congrArg _ (splice_of_notMem (hl x hxes))).trans (splice_of_notMem (hl h hhes))
  · exact others_listAdd (others_leave hR hx hxes) (mem_sharing_self hhes)
      (sharing_without hnbrs.1) (mem_sharing_self hxes)

theorem refines_listMoveTail (hh : h ∈ R.flatten) (hx : x ∈ R.flatten) (hne : x ≠ h) :
    Refines m (listMoveTail m h x) R ((R.map (without x)).map (insertBefore h x)) [h, x] := by
  have hhes : h ∈ [h, x] := List.mem_cons_self
  have hxes : x ∈ [h, x] := List.mem_cons_of_mem h (List.mem_singleton_self x)
  have hdel := rings_listDel hN.lawfulOn hR hsub hx
  have hnbrs := mem_sharing_neighbours hdel (mem_without.mpr ⟨hh, hne.symm⟩) hhes
  have hrings := rings_listMoveTail hN.lawfulOn hR hsub hh hx hne
  rw [List.map_map] at hrings ⊢
  refine .of_rings hrings (fun l hl => ?_) ?_
  · exact (congrArg _ (splice_of_notMem (hl x hxes))).trans (splice_of_notMem (hl h hhes))
  · exact others_listAdd (others_leave hR hx hxes) (sharing_without hnbrs.2)
      (mem_sharing_self hhes) (mem_sharing_self hxes)

end

/--
The operations of `list.h` on any rings: an entry that is on no ring is linked in or put in the
place of another one, and an entry leaves its ring, for good or for a place next to any other one.
-/
theorem list_refines (hN : Mem.NodesApart N) (hR : Rings m R) (hsub : ∀ y ∈ R.flatten, y ∈ N) :
    (∀ p ∈ R.flatten, ∀ x ∈ N, x ∉ R.flatten →
      Refines m (listAddBefore m p x) R (R.map (insertBefore p x)) [p, x] ∧
      Refines m (listAddAfter m p x) R (R.map (insertAfter p x)) [p, x] ∧
      Refines m (listReplace m p x) R (R.map (replaced p x)) [p, x]) ∧
    (∀ x ∈ R.flatten, Refines m (listDel m x) R (R.map (without x)) [x]) ∧
    ∀ h ∈ R.flatten, ∀ x ∈ R.flatten, x ≠ h →
      Refines m (listMove m h x) R ((R.map (without x)).map (insertAfter h x)) [h, x] ∧
      Refines m (listMoveTail m h x) R ((R.map (without x)).map (insertBefore h x)) [h, x] :=
  ⟨fun _ hp _ hx hnew => ⟨refines_listAddBefore hN hR hsub hp hx hnew,
      refines_listAddAfter hN hR hsub hp hx hnew, refines_listReplace hN hR hsub hp hx hnew⟩,
    fun _ hx => refines_listDel hN hR hsub hx, fun _ hh _ hx hne =>
      ⟨refines_listMove hN hR hsub hh hx hne, refines_listMoveTail hN hR hsub hh hx hne⟩⟩

/-- A ring of two entries, and one more that is on no ring. -/
def pairRing : Mem := listAddAfter (listInit (fun _ => 0) 0x1000) 0x1000 0x2000

theorem pairRing_apart : Mem.NodesApart {0x1000, 0x2000, 0x3000} := by
  constructor
  · rintro x (rfl | rfl | rfl) <;> decide
  · rintro x (rfl | rfl | rfl) y (rfl | rfl | rfl) hne <;> omega

theorem pairRing_rings : Rings pairRing [[0x1000, 0x2000]] := by
  have hone : Rings (listInit (fun _ => 0 : Mem) 0x1000) [[0x1000]] := by
    have hring := ring_listInit (s := (fun _ => 0 : Mem)) pairRing_apart.lawfulOn (x := 0x1000)
      (.inl rfl)
    exact ⟨by decide, fun l hl => List.mem_singleton.mp hl ▸ (ring_iff.mp hring).2⟩
  exact rings_listAddAfter pairRing_apart.lawfulOn hone
    (fun y hy => .inl (List.mem_singleton.mp hy)) (List.mem_singleton_self _) (.inr (.inl rfl))
    (by decide)

/-- The second entry moves in front of the first one, next to which it is already. -/
theorem pairRing_refines : Refines pairRing (listMoveTail pairRing 0x1000 0x2000)
    [[0x1000, 0x2000]] [[0x2000, 0x1000]] [0x1000, 0x2000] :=
  ((list_refines pairRing_apart pairRing_rings (fun y hy => by
    rcases List.mem_pair.mp hy with rfl | rfl
    · exact .inl rfl
    · exact .inr (.inl rfl))).2.2 0x1000 (by decide) 0x2000 (by decide) (by decide)).2

end Raincloud
