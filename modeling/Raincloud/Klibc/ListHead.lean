import Raincloud.Infra.Ring

/-!
# `list.h`

The intrusive list of the kernel, over any store of list heads: the heap and the page pool
keep theirs in the memory they manage, the scheduler in its own objects.
-/

set_option linter.style.nameCheck false

namespace Raincloud

open Infra Infra.LinkStore

universe u v

section

variable {σ : Type u} {α : Type v} [LinkStore σ α]

/-! ## The functions -/

def listInit (s : σ) (list : α) : σ :=
  let s := setNext s list list
  setPrev s list list

def __listAdd (s : σ) (prev next new : α) : σ :=
  let s := setPrev s new prev
  let s := setNext s prev new
  let s := setNext s new next
  setPrev s next new

def listAddAfter (s : σ) (list new : α) : σ := __listAdd s list (next s list) new

def listAddBefore (s : σ) (list new : α) : σ := __listAdd s (prev s list) list new

def __listDel (s : σ) (prev next : α) : σ :=
  let s := setNext s prev next
  setPrev s next prev

def listDel (s : σ) (entry : α) : σ := __listDel s (prev s entry) (next s entry)

/-- `next` of the old entry may be the old entry itself, so its `prev` is read late. -/
def listReplace (s : σ) (old new : α) : σ :=
  let s := setNext s new (next s old)
  let s := setPrev s (next s new) new
  let s := setPrev s new (prev s old)
  setNext s (prev s new) new

def listMove (s : σ) (head list : α) : σ :=
  let s := listDel s list
  listAddAfter s head list

def listMoveTail (s : σ) (head list : α) : σ :=
  let s := listDel s list
  listAddBefore s head list

def listEmpty [DecidableEq α] (s : σ) (head : α) : Bool := next s head = head

/-! ## What they do to links -/

variable [DecidableEq α] {S : Set α} {s : σ} {h p n x y : α} {l A B : List α}

theorem next_listInit (hS : LawfulOn σ S) (hx : x ∈ S) (hy : y ∈ S) :
    next (listInit s x) y = if y = x then x else next s y := by
  unfold listInit
  rw [hS.next_setPrev _ hx hx hy, hS.next_setNext _ hx hx hy]

theorem prev_listInit (hS : LawfulOn σ S) (hx : x ∈ S) (hy : y ∈ S) :
    prev (listInit s x) y = if y = x then x else prev s y := by
  unfold listInit
  rw [hS.prev_setPrev _ hx hx hy, hS.prev_setNext _ hx hx hy]

theorem next_listAdd (hS : LawfulOn σ S) (hp : p ∈ S) (hn : n ∈ S) (hx : x ∈ S) (hy : y ∈ S) :
    next (__listAdd s p n x) y = if y = x then n else if y = p then x else next s y := by
  unfold __listAdd
  rw [hS.next_setPrev _ hn hx hy, hS.next_setNext _ hx hn hy, hS.next_setNext _ hp hx hy,
    hS.next_setPrev _ hx hp hy]

theorem prev_listAdd (hS : LawfulOn σ S) (hp : p ∈ S) (hn : n ∈ S) (hx : x ∈ S) (hy : y ∈ S) :
    prev (__listAdd s p n x) y = if y = n then x else if y = x then p else prev s y := by
  unfold __listAdd
  rw [hS.prev_setPrev _ hn hx hy, hS.prev_setNext _ hx hn hy, hS.prev_setNext _ hp hx hy,
    hS.prev_setPrev _ hx hp hy]

theorem next_listDel (hS : LawfulOn σ S) (hp : p ∈ S) (hn : n ∈ S) (hy : y ∈ S) :
    next (__listDel s p n) y = if y = p then n else next s y := by
  unfold __listDel
  rw [hS.next_setPrev _ hn hp hy, hS.next_setNext _ hp hn hy]

theorem prev_listDel (hS : LawfulOn σ S) (hp : p ∈ S) (hn : n ∈ S) (hy : y ∈ S) :
    prev (__listDel s p n) y = if y = n then p else prev s y := by
  unfold __listDel
  rw [hS.prev_setPrev _ hn hp hy, hS.prev_setNext _ hp hn hy]

theorem sameLinks_listInit (hS : LawfulOn σ S) (hx : x ∈ S) (hy : y ∈ S) (hne : y ≠ x) :
    SameLinks s (listInit s x) y := by
  rw [SameLinks, next_listInit hS hx hy, prev_listInit hS hx hy, if_neg hne, if_neg hne]
  exact ⟨rfl, rfl⟩

theorem sameLinks_listAdd (hS : LawfulOn σ S) (hp : p ∈ S) (hn : n ∈ S) (hx : x ∈ S) (hy : y ∈ S)
    (hyx : y ≠ x) (hyp : y ≠ p) (hyn : y ≠ n) : SameLinks s (__listAdd s p n x) y := by
  rw [SameLinks, next_listAdd hS hp hn hx hy, prev_listAdd hS hp hn hx hy, if_neg hyx,
    if_neg hyp, if_neg hyn, if_neg hyx]
  exact ⟨rfl, rfl⟩

theorem sameLinks_listDel (hS : LawfulOn σ S) (hp : p ∈ S) (hn : n ∈ S) (hy : y ∈ S)
    (hyp : y ≠ p) (hyn : y ≠ n) : SameLinks s (__listDel s p n) y := by
  rw [SameLinks, next_listDel hS hp hn hy, prev_listDel hS hp hn hy, if_neg hyp, if_neg hyn]
  exact ⟨rfl, rfl⟩

/-! ## What they do to rings -/

theorem ring_listInit (hS : LawfulOn σ S) (hx : x ∈ S) : Ring (listInit s x) x [] := by
  rw [Ring.nil_iff, next_listInit hS hx hx, prev_listInit hS hx hx]
  simp

theorem listEmpty_iff (hr : Ring s h l) : listEmpty s h = true ↔ l = [] := by
  have hnot := hr.not_mem
  unfold listEmpty
  rw [hr.next_head, decide_eq_true_iff]
  cases l with
  | nil => simp
  | cons a l =>
    rw [List.headD_cons]
    simp only [List.mem_cons, not_or] at hnot
    simp [Ne.symm hnot.1]

/-- A fresh node linked in at any place of a ring. -/
theorem ring_listAdd (hS : LawfulOn σ S) (hr : Ring s h (A ++ B)) (hl : ∀ y ∈ h :: (A ++ B), y ∈ S)
    (hx : x ∈ S) (hnew : x ∉ h :: (A ++ B)) :
    Ring (__listAdd s (A.getLastD h) (B.headD h) x) h (A ++ x :: B) := by
  have hpm : A.getLastD h ∈ h :: (A ++ B) := by
    have := Ring.getLastD_mem h A
    simp only [List.mem_cons, List.mem_append] at this ⊢
    tauto
  have hnm : B.headD h ∈ h :: (A ++ B) := by
    have := Ring.headD_mem_cons h B
    simp only [List.mem_cons, List.mem_append] at this ⊢
    tauto
  have hp := hl _ hpm
  have hn := hl _ hnm
  have hxp : A.getLastD h ≠ x := fun he => hnew (he ▸ hpm)
  have hxn : B.headD h ≠ x := fun he => hnew (he ▸ hnm)
  refine hr.insert hnew ⟨?_, ?_⟩ ⟨?_, ?_⟩ ?_ ?_
  · rw [next_listAdd hS hp hn hx hp, if_neg hxp, if_pos rfl]
  · rw [prev_listAdd hS hp hn hx hx, if_neg (Ne.symm hxn), if_pos rfl]
  · rw [next_listAdd hS hp hn hx hx, if_pos rfl]
  · rw [prev_listAdd hS hp hn hx hn, if_pos rfl]
  · intro y hy hyp
    have hyx : y ≠ x := fun he => hnew (he ▸ hy)
    rw [next_listAdd hS hp hn hx (hl y hy), if_neg hyx, if_neg hyp]
  · intro y hy hyn
    have hyx : y ≠ x := fun he => hnew (he ▸ hy)
    rw [prev_listAdd hS hp hn hx (hl y hy), if_neg hyn, if_neg hyx]

theorem ring_listAddBefore_head (hS : LawfulOn σ S) (hr : Ring s h l) (hl : ∀ y ∈ h :: l, y ∈ S)
    (hx : x ∈ S) (hnew : x ∉ h :: l) : Ring (listAddBefore s h x) h (l ++ [x]) := by
  unfold listAddBefore
  rw [hr.prev_head]
  exact ring_listAdd (A := l) (B := []) hS (by simpa using hr) (by simpa using hl) hx
    (by simpa using hnew)

/--
A node linked in at the end lengthens the trail, wherever else it is in the trail already. Its
own links may have been written before.
-/
theorem trail_listAddBefore {s₀ : σ} {R : List α} (hS : LawfulOn σ S) (ht : Trail s₀ h R)
    (hs : ∀ y ∈ h :: R, y ≠ x → prev s y = prev s₀ y) (hl : ∀ y ∈ h :: R, y ∈ S) (hx : x ∈ S)
    (hnot : h ∉ x :: R) : Trail (listAddBefore s h x) h (x :: R) := by
  have hh : h ∈ S := hl h List.mem_cons_self
  have hne : h ≠ x := List.ne_of_not_mem_cons hnot
  have hprev : prev s h = R.headD h := (hs h List.mem_cons_self hne).trans ht.head
  have hp : prev s h ∈ S := hl _ (hprev ▸ Ring.headD_mem_cons h R)
  unfold listAddBefore
  refine ⟨by rw [prev_listAdd hS hp hh hx hh, if_pos rfl, List.headD_cons], ?_⟩
  rintro pre y rest he hy
  rcases pre with _ | ⟨z, pre⟩
  · obtain ⟨rfl, rfl⟩ := List.cons.inj he
    rw [prev_listAdd hS hp hh hx hx, if_neg (Ne.symm hne), if_pos rfl, hprev]
  · obtain ⟨rfl, hR⟩ := List.cons.inj he
    rw [List.mem_cons, not_or] at hy
    have hyR : y ∈ R := by simp [hR]
    have hyh : y ≠ h := fun hyh => hnot (List.mem_cons_of_mem x (hyh ▸ hyR))
    rw [prev_listAdd hS hp hh hx (hl y (List.mem_cons_of_mem h hyR)), if_neg hyh, if_neg hy.1,
      hs y (List.mem_cons_of_mem h hyR) hy.1, ht.mem pre y rest hR hy.2]

theorem ring_listAddBefore (hS : LawfulOn σ S) (hr : Ring s h (A ++ n :: B))
    (hl : ∀ y ∈ h :: (A ++ n :: B), y ∈ S) (hx : x ∈ S) (hnew : x ∉ h :: (A ++ n :: B)) :
    Ring (listAddBefore s n x) h (A ++ x :: n :: B) := by
  unfold listAddBefore
  rw [hr.prev_mem]
  exact ring_listAdd (A := A) (B := n :: B) hS hr hl hx hnew

theorem ring_listAddAfter (hS : LawfulOn σ S) (hr : Ring s h (A ++ p :: B))
    (hl : ∀ y ∈ h :: (A ++ p :: B), y ∈ S) (hx : x ∈ S) (hnew : x ∉ h :: (A ++ p :: B)) :
    Ring (listAddAfter s p x) h (A ++ p :: x :: B) := by
  have he : A ++ p :: B = A ++ [p] ++ B := by simp
  have := ring_listAdd (A := A ++ [p]) (B := B) hS (he ▸ hr) (he ▸ hl) hx (he ▸ hnew)
  rw [List.getLastD_concat] at this
  unfold listAddAfter
  rw [hr.next_mem]
  simpa using this

theorem ring_listDel (hS : LawfulOn σ S) (hr : Ring s h (A ++ x :: B))
    (hl : ∀ y ∈ h :: (A ++ x :: B), y ∈ S) : Ring (listDel s x) h (A ++ B) := by
  have hsub : ∀ y ∈ h :: (A ++ B), y ∈ S := by
    intro y hy
    refine hl y ?_
    simp only [List.mem_cons, List.mem_append] at hy ⊢
    tauto
  have hp : A.getLastD h ∈ S := by
    refine hsub _ ?_
    have := Ring.getLastD_mem h A
    simp only [List.mem_cons, List.mem_append] at this ⊢
    tauto
  have hn : B.headD h ∈ S := by
    refine hsub _ ?_
    have := Ring.headD_mem_cons h B
    simp only [List.mem_cons, List.mem_append] at this ⊢
    tauto
  unfold listDel
  rw [hr.prev_mem, hr.next_mem]
  refine hr.remove ⟨?_, ?_⟩ ?_ ?_
  · rw [next_listDel hS hp hn hp, if_pos rfl]
  · rw [prev_listDel hS hp hn hn, if_pos rfl]
  · intro y hy hyp
    rw [next_listDel hS hp hn (hsub y hy), if_neg hyp]
  · intro y hy hyn
    rw [prev_listDel hS hp hn (hsub y hy), if_neg hyn]

end

end Raincloud
