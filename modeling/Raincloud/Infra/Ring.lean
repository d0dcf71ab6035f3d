import Mathlib.Tactic

/-!
# Circular doubly linked lists

A list node is a pair of links, `next` and `prev`, kept in some store. The store is a
parameter: bytes in memory and a record of functions are both `LinkStore`s. What the proofs
need of it is `LawfulOn S`: on the nodes of `S`, a link written is the link read, and
nothing else changes.

`Ring s h l` says that the nodes of `l`, in this order, hang on the list head `h`: each node
of the closed walk `h :: l ++ [h]` points to the following one, which points back.
Insertion and removal at any position are `Ring.insert` and `Ring.remove`.
-/

namespace Infra

universe u v

/-- The members of a list with one of them named. -/
theorem mem_middle {α : Type u} {x y : α} {A B : List α} :
    y ∈ A ++ x :: B ↔ y = x ∨ y ∈ A ++ B := by
  simp only [List.mem_append, List.mem_cons]
  tauto

/-- A store of list nodes. -/
class LinkStore (σ : Type u) (α : outParam (Type v)) where
  next : σ → α → α
  prev : σ → α → α
  setNext : σ → α → α → σ
  setPrev : σ → α → α → σ

namespace LinkStore

variable {σ : Type u} {α : Type v} [LinkStore σ α]

/-- Writing links among the nodes of `S` behaves like updating two functions. -/
structure LawfulOn (σ : Type u) {α : Type v} [LinkStore σ α] [DecidableEq α] (S : Set α) :
    Prop where
  next_setNext : ∀ (s : σ) {x v y : α}, x ∈ S → v ∈ S → y ∈ S →
    next (setNext s x v) y = if y = x then v else next s y
  prev_setNext : ∀ (s : σ) {x v y : α}, x ∈ S → v ∈ S → y ∈ S →
    prev (setNext s x v) y = prev s y
  next_setPrev : ∀ (s : σ) {x v y : α}, x ∈ S → v ∈ S → y ∈ S →
    next (setPrev s x v) y = next s y
  prev_setPrev : ∀ (s : σ) {x v y : α}, x ∈ S → v ∈ S → y ∈ S →
    prev (setPrev s x v) y = if y = x then v else prev s y

theorem LawfulOn.mono [DecidableEq α] {S T : Set α} (hST : S ⊆ T) (h : LawfulOn σ T) :
    LawfulOn σ S where
  next_setNext := fun s _ _ _ hx hv hy => h.next_setNext s (hST hx) (hST hv) (hST hy)
  prev_setNext := fun s _ _ _ hx hv hy => h.prev_setNext s (hST hx) (hST hv) (hST hy)
  next_setPrev := fun s _ _ _ hx hv hy => h.next_setPrev s (hST hx) (hST hv) (hST hy)
  prev_setPrev := fun s _ _ _ hx hv hy => h.prev_setPrev s (hST hx) (hST hv) (hST hy)

/-- Two stores hold the same links at a node. -/
def SameLinks (s s' : σ) (x : α) : Prop := next s' x = next s x ∧ prev s' x = prev s x

/-! ## Walks -/

/-- `x` points to `y` and `y` points back. -/
def Linked (s : σ) (x y : α) : Prop := next s x = y ∧ prev s y = x

/-- A walk uses the `next` of all its nodes but the last and the `prev` of all but the first. -/
theorem linked_congr {s s' : σ} : ∀ {l : List α}, l.IsChain (Linked s) →
    (∀ x ∈ l.dropLast, next s' x = next s x) → (∀ y ∈ l.tail, prev s' y = prev s y) →
    l.IsChain (Linked s')
  | [], _, _, _ => .nil
  | [x], _, _, _ => .singleton x
  | x :: y :: l, h, hn, hp => by
    rw [List.isChain_cons_cons] at h ⊢
    obtain ⟨⟨h1, h2⟩, h3⟩ := h
    refine ⟨⟨?_, ?_⟩, ?_⟩
    · rw [hn x (by simp), h1]
    · rw [hp y (by simp), h2]
    · refine linked_congr h3 (fun z hz => hn z ?_) fun z hz => hp z ?_
      · rw [List.dropLast_cons_cons]
        exact List.mem_cons_of_mem _ hz
      · exact List.mem_cons_of_mem _ hz

/-- The nodes of `l`, in this order, hang on the list head `h`. -/
structure Ring (s : σ) (h : α) (l : List α) : Prop where
  nodup : (h :: l).Nodup
  chain : (h :: (l ++ [h])).IsChain (Linked s)

namespace Ring

variable {s s' : σ} {h : α} {l A B : List α}

/-- The last node of `h :: A`, and the rest. -/
theorem split_last (h : α) (A : List α) :
    h :: A = (h :: A).dropLast ++ [A.getLastD h] := by
  have hlast : (h :: A).getLast (List.cons_ne_nil h A) = A.getLastD h := by
    rw [List.getLast_eq_getLastD]
  rw [← hlast, List.dropLast_append_getLast]

/-- The first node of `B ++ [h]`, and the rest. -/
theorem split_head (h : α) (B : List α) : B ++ [h] = B.headD h :: (B ++ [h]).tail := by
  cases B with
  | nil => rfl
  | cons b B => rfl

theorem getLastD_mem (h : α) (A : List α) : A.getLastD h ∈ h :: A := by
  rw [split_last h A]
  simp

theorem headD_mem (h : α) (B : List α) : B.headD h ∈ B ++ [h] := by
  rw [split_head h B]
  simp

theorem headD_mem_cons (h : α) (B : List α) : B.headD h ∈ h :: B := by
  have := headD_mem h B
  simp only [List.mem_append, List.mem_cons] at this ⊢
  tauto

/-- The closed walk cut between `A` and `B`. -/
theorem walk_eq (h : α) (A B : List α) :
    h :: (A ++ B ++ [h])
      = (h :: A).dropLast ++ A.getLastD h :: B.headD h :: (B ++ [h]).tail := by
  rw [← split_head, List.append_assoc, ← List.cons_append, ← List.append_assoc]
  rw [show (h :: A).dropLast ++ A.getLastD h :: (B ++ [h])
      = ((h :: A).dropLast ++ [A.getLastD h]) ++ (B ++ [h]) by simp, ← split_last]
  simp

theorem chain_split (hr : (h :: (A ++ B ++ [h])).IsChain (Linked s)) :
    (h :: A).IsChain (Linked s) ∧ Linked s (A.getLastD h) (B.headD h) ∧
      (B ++ [h]).IsChain (Linked s) := by
  rw [walk_eq, List.isChain_append_cons_cons, ← split_last, ← split_head] at hr
  exact hr

theorem chain_join (h1 : (h :: A).IsChain (Linked s))
    (h2 : Linked s (A.getLastD h) (B.headD h)) (h3 : (B ++ [h]).IsChain (Linked s)) :
    (h :: (A ++ B ++ [h])).IsChain (Linked s) := by
  rw [walk_eq, List.isChain_append_cons_cons, ← split_last, ← split_head]
  exact ⟨h1, h2, h3⟩

/-- Two walks from one node to the head go the same way. -/
theorem walk_unique {l' : List α} : ∀ {x : α} {l : List α}, (x :: (l ++ [h])).IsChain (Linked s) →
    (x :: (l' ++ [h])).IsChain (Linked s) → h ∉ l → h ∉ l' → l = l' := by
  induction l' with
  | nil =>
    intro x l hl hl' hnot _
    cases l with
    | nil => rfl
    | cons a l =>
      have ha := (List.isChain_cons_cons.mp hl).1.1
      have hh := (List.isChain_cons_cons.mp hl').1.1
      exact absurd (ha.symm.trans hh ▸ List.mem_cons_self) hnot
  | cons b l' ih =>
    intro x l hl hl' hnot hnot'
    have hb := (List.isChain_cons_cons.mp hl').1.1
    cases l with
    | nil =>
      have hh := (List.isChain_cons_cons.mp hl).1.1
      exact absurd (hb.symm.trans hh ▸ List.mem_cons_self) hnot'
    | cons a l =>
      have ha := (List.isChain_cons_cons.mp hl).1.1
      obtain rfl : a = b := ha.symm.trans hb
      rw [List.mem_cons, not_or] at hnot hnot'
      rw [ih (List.isChain_cons_cons.mp hl).2 (List.isChain_cons_cons.mp hl').2 hnot.2 hnot'.2]

/-- A list head has one list of nodes. -/
theorem unique {l' : List α} (hl : Ring s h l) (hl' : Ring s h l') : l = l' :=
  walk_unique hl.chain hl'.chain (List.nodup_cons.mp hl.nodup).1 (List.nodup_cons.mp hl'.nodup).1

/-- The empty ring: the head points to itself both ways. -/
theorem nil_iff : Ring s h [] ↔ next s h = h ∧ prev s h = h := by
  constructor
  · rintro ⟨_, hc⟩
    simpa [Linked] using hc
  · rintro ⟨h1, h2⟩
    exact ⟨by simp, by simpa [Linked] using ⟨h1, h2⟩⟩

theorem next_head (hr : Ring s h l) : next s h = l.headD h := by
  have := hr.chain
  rw [split_head, List.isChain_cons_cons] at this
  exact this.1.1

theorem prev_head (hr : Ring s h l) : prev s h = l.getLastD h := by
  have hc : (h :: (l ++ [] ++ [h])).IsChain (Linked s) := by simpa using hr.chain
  exact (chain_split hc).2.1.2

theorem next_mem {x : α} (hr : Ring s h (A ++ x :: B)) : next s x = B.headD h := by
  have hc : (h :: ((A ++ [x]) ++ B ++ [h])).IsChain (Linked s) := by simpa using hr.chain
  have := (chain_split hc).2.1.1
  rwa [List.getLastD_concat] at this

theorem prev_mem {x : α} (hr : Ring s h (A ++ x :: B)) : prev s x = A.getLastD h := by
  have hc : (h :: (A ++ (x :: B) ++ [h])).IsChain (Linked s) := hr.chain.imp (by simp)
  exact (chain_split hc).2.1.2

theorem not_mem (hr : Ring s h l) : h ∉ l := (List.nodup_cons.mp hr.nodup).1

/-- A ring only depends on the links of its own nodes. -/
theorem congr (hr : Ring s h l) (hs : ∀ x ∈ h :: l, SameLinks s s' x) : Ring s' h l := by
  refine ⟨hr.nodup, linked_congr hr.chain (fun x hx => (hs x ?_).1) fun y hy => (hs y ?_).2⟩
  · rw [show h :: (l ++ [h]) = (h :: l) ++ [h] from rfl, List.dropLast_concat] at hx
    exact hx
  · simp only [List.tail_cons, List.mem_append, List.mem_cons] at hy ⊢
    tauto

/-- The two halves of a closed walk survive a change of links at the cut. -/
theorem halves_congr (hnd : (h :: (A ++ B)).Nodup) (hA : (h :: A).IsChain (Linked s))
    (hB : (B ++ [h]).IsChain (Linked s))
    (hn : ∀ y ∈ h :: (A ++ B), y ≠ A.getLastD h → next s' y = next s y)
    (hp : ∀ y ∈ h :: (A ++ B), y ≠ B.headD h → prev s' y = prev s y) :
    (h :: A).IsChain (Linked s') ∧ (B ++ [h]).IsChain (Linked s') := by
  have hdis : ∀ y ∈ h :: A, ∀ z ∈ B, y ≠ z := by
    rw [← List.cons_append, List.nodup_append] at hnd
    exact hnd.2.2
  have hndA : ((h :: A).dropLast ++ [A.getLastD h]).Nodup := by
    rw [← split_last]
    exact hnd.sublist (List.Sublist.cons_cons h (List.sublist_append_left A B))
  have hndB : (B.headD h :: (B ++ [h]).tail).Nodup := by
    rw [← split_head, List.nodup_append_comm]
    exact hnd.sublist (List.Sublist.cons_cons h (List.sublist_append_right A B))
  constructor
  · refine linked_congr hA (fun y hy => hn y ?_ ?_) fun y hy => hp y ?_ ?_
    · have := List.mem_of_mem_dropLast hy
      simp only [List.mem_cons, List.mem_append] at this ⊢
      tauto
    · rintro rfl
      rw [List.nodup_append] at hndA
      exact hndA.2.2 _ hy _ (by simp) rfl
    · simp only [List.tail_cons] at hy
      simp [hy]
    · rintro rfl
      simp only [List.tail_cons] at hy
      rcases List.mem_append.mp (headD_mem h B) with hb | hb
      · exact hdis _ (List.mem_cons_of_mem h hy) _ hb rfl
      · rw [List.mem_singleton.mp hb] at hy
        exact (List.nodup_cons.mp hnd).1 (List.mem_append_left B hy)
  · refine linked_congr hB (fun y hy => hn y ?_ ?_) fun y hy => hp y ?_ ?_
    · rw [List.dropLast_concat] at hy
      simp [hy]
    · rintro rfl
      rw [List.dropLast_concat] at hy
      exact hdis _ (getLastD_mem h A) _ hy rfl
    · have := List.mem_of_mem_tail hy
      simp only [List.mem_append, List.mem_cons] at this ⊢
      tauto
    · rintro rfl
      exact (List.nodup_cons.mp hndB).1 hy

/-- `x` linked in between `A` and `B`, every other link kept. -/
theorem insert {x : α} (hr : Ring s h (A ++ B)) (hx : x ∉ h :: (A ++ B))
    (hpx : Linked s' (A.getLastD h) x) (hxn : Linked s' x (B.headD h))
    (hn : ∀ y ∈ h :: (A ++ B), y ≠ A.getLastD h → next s' y = next s y)
    (hp : ∀ y ∈ h :: (A ++ B), y ≠ B.headD h → prev s' y = prev s y) :
    Ring s' h (A ++ x :: B) := by
  obtain ⟨c1, _, c3⟩ := chain_split hr.chain
  obtain ⟨hA, hB⟩ := halves_congr hr.nodup c1 c3 hn hp
  constructor
  · have hperm : (h :: (A ++ x :: B)).Perm (x :: h :: (A ++ B)) :=
      (List.Perm.cons h List.perm_middle).trans (List.Perm.swap x h (A ++ B))
    exact hperm.nodup_iff.mpr (List.nodup_cons.mpr ⟨hx, hr.nodup⟩)
  · have hjoin : (h :: ((A ++ [x]) ++ B ++ [h])).IsChain (Linked s') := by
      refine chain_join ?_ ?_ hB
      · rw [← List.cons_append, split_last h A, List.append_assoc, List.singleton_append,
          List.isChain_append_cons_cons, ← split_last]
        exact ⟨hA, hpx, .singleton x⟩
      · rw [List.getLastD_concat]
        exact hxn
    simpa using hjoin

/-- `x` unlinked from between `A` and `B`, every other link kept. -/
theorem remove {x : α} (hr : Ring s h (A ++ x :: B))
    (hpn : Linked s' (A.getLastD h) (B.headD h))
    (hn : ∀ y ∈ h :: (A ++ B), y ≠ A.getLastD h → next s' y = next s y)
    (hp : ∀ y ∈ h :: (A ++ B), y ≠ B.headD h → prev s' y = prev s y) :
    Ring s' h (A ++ B) := by
  have hnd : (h :: (A ++ B)).Nodup :=
    hr.nodup.sublist (List.Sublist.cons_cons h (by simp))
  obtain ⟨c1, _, c2⟩ := chain_split (A := A) (B := x :: B) hr.chain
  rw [List.cons_append] at c2
  obtain ⟨hA, hB⟩ := halves_congr hnd c1 c2.tail hn hp
  exact ⟨hnd, chain_join hA hpn hB⟩

end Ring

/-! ## Trails -/

/--
The nodes `R` were linked in at the end one after another, the last one first in `R`, and some
perhaps twice: `prev` of a node leads to what was the end when it was linked in last.
-/
structure Trail (s : σ) (h : α) (R : List α) : Prop where
  head : prev s h = R.headD h
  mem : ∀ pre x rest, R = pre ++ x :: rest → x ∉ pre → prev s x = rest.headD h

variable {s : σ} {h : α} {l A B R pre rest : List α}

/-- A trail only depends on the `prev` of its own nodes. -/
theorem Trail.congr {s' : σ} (ht : Trail s h R) (hs : ∀ y ∈ h :: R, prev s' y = prev s y) :
    Trail s' h R where
  head := (hs h List.mem_cons_self).trans ht.head
  mem pre x rest he hx := by
    rw [hs x (by simp [he]), ht.mem pre x rest he hx]

theorem Trail.prev_cut (ht : Trail s h R) (he : R = pre ++ rest) (hnd : pre.Nodup) :
    prev s (pre.getLastD h) = rest.headD h := by
  rcases List.eq_nil_or_concat pre with rfl | ⟨pre, x, rfl⟩
  · rw [he] at ht
    exact ht.head
  · rw [List.concat_eq_append] at he hnd ⊢
    rw [List.getLastD_concat]
    refine ht.mem pre x rest (by simp [he]) fun hin => ?_
    exact (List.nodup_append.mp hnd).2.2 x hin x (List.mem_singleton_self x) rfl

theorem Ring.prev_cut (hr : Ring s h (A ++ B)) : prev s (B.headD h) = A.getLastD h := by
  cases B with
  | nil => simpa using hr.prev_head
  | cons b B => exact hr.prev_mem

/-- When `B` is walked, the next node of the ring is the next one of the trail. -/
theorem Trail.cut (ht : Trail s h R) (hr : Ring s h (A ++ B)) (he : R = B.reverse ++ rest) :
    A.getLastD h = rest.headD h := by
  have hnd : (A ++ B).Nodup := (List.nodup_cons.mp hr.nodup).2
  have hcut := ht.prev_cut he (List.nodup_reverse.mpr (List.nodup_append.mp hnd).2.1)
  rwa [List.getLastD_eq_getLast?, List.getLast?_reverse, ← List.headD_eq_head?_getD,
    hr.prev_cut] at hcut

theorem Trail.rest_eq (ht : Trail s h R) (hr : Ring s h (A ++ B)) (hh : h ∉ R)
    (he : R = B.reverse ++ rest) : rest = A.reverse := by
  have hcut := ht.cut hr he
  induction rest generalizing A B with
  | nil =>
    -- the walk is back at the head
    rcases List.eq_nil_or_concat A with rfl | ⟨A, x, rfl⟩
    · rfl
    · rw [List.concat_eq_append, List.getLastD_concat, List.headD_nil] at hcut
      rw [hcut] at hr
      exact absurd hr.not_mem (by simp)
  | cons x rest ih =>
    rcases List.eq_nil_or_concat A with rfl | ⟨A, y, rfl⟩
    · rw [List.headD_cons, List.getLastD_nil] at hcut
      exact absurd (hcut ▸ he ▸ List.mem_append_right _ List.mem_cons_self) hh
    · rw [List.concat_eq_append] at hr hcut ⊢
      rw [List.getLastD_concat, List.headD_cons] at hcut
      rw [List.append_assoc, List.singleton_append] at hr
      have he' : R = (y :: B).reverse ++ rest := by
        rw [he, ← hcut]
        simp
      rw [ih hr he' (ht.cut hr he'), ← hcut]
      simp

/-- A trail that is a ring: nothing was linked in twice. -/
theorem Ring.eq_reverse (hr : Ring s h l) (ht : Trail s h R) (hh : h ∉ R) : R = l.reverse := by
  refine ht.rest_eq (A := l) (B := []) (by simpa using hr) hh rfl

end LinkStore

end Infra
