import Mathlib.Data.List.SplitBy
import Raincloud.Infra.Ring

/-!
# Merging neighbours on a ring

A walk along a ring on which a node swallows its successors for as long as the two belong
together. `mergeRuns` is what the walk does to a list, `mergeWalk` the two nested loops on the
links. `mergeWalk_eq` takes what one round of the inner loop does and gives what the walk does.
-/

namespace Infra

open LinkStore

universe u v w

/-! ## On lists -/

section Lists

variable {β : Type w} (touch : β → β → Prop) [DecidableRel touch] (join : β → β → β)

/-- What becomes of `b` and the nodes after it. -/
def mergeFrom (b : β) : List β → List β
  | [] => [b]
  | c :: cs => if touch b c then mergeFrom (join b c) cs else b :: mergeFrom c cs

def mergeRuns : List β → List β
  | [] => []
  | b :: bs => mergeFrom touch join b bs

variable {touch join}

/-- What joining two neighbours preserves, merging preserves. -/
theorem mergeRuns_induction {P : List β → Prop}
    (hjoin : ∀ pre b c post, touch b c → P (pre ++ b :: c :: post) →
      P (pre ++ join b c :: post)) {bs : List β} (h : P bs) : P (mergeRuns touch join bs) := by
  have key : ∀ (cs pre : List β) (b : β), P (pre ++ b :: cs) →
      P (pre ++ mergeFrom touch join b cs) := by
    intro cs
    induction cs with
    | nil => exact fun pre b h => h
    | cons c cs ih =>
      intro pre b h
      rw [mergeFrom]
      split
      · next ht => exact ih pre _ (hjoin pre b c cs ht h)
      · rw [List.append_cons]
        refine ih (pre ++ [b]) c ?_
        rwa [← List.append_cons]
  cases bs with
  | nil => exact h
  | cons b bs => exact key bs [] b h

/--
Merging leaves no two neighbours that belong together, when what comes before a node does not
see what the node has swallowed.
-/
theorem isChain_mergeRuns (hfront : ∀ a b c, touch b c → (touch a (join b c) ↔ touch a b))
    (bs : List β) : (mergeRuns touch join bs).IsChain fun b c => ¬touch b c := by
  have key : ∀ (cs : List β) (b : β), ∃ b' rest, mergeFrom touch join b cs = b' :: rest ∧
      (∀ a, touch a b' ↔ touch a b) ∧ (b' :: rest).IsChain fun b c => ¬touch b c := by
    intro cs
    induction cs with
    | nil => exact fun b => ⟨b, [], rfl, fun _ => Iff.rfl, .singleton b⟩
    | cons c cs ih =>
      intro b
      rw [mergeFrom]
      split
      · next ht =>
        obtain ⟨b', rest, he, hsame, hc⟩ := ih (join b c)
        exact ⟨b', rest, he, fun a => (hsame a).trans (hfront a b c ht), hc⟩
      · next ht =>
        obtain ⟨c', rest, he, hsame, hc⟩ := ih c
        refine ⟨b, c' :: rest, by rw [he], fun _ => Iff.rfl, ?_⟩
        rw [List.isChain_cons_cons]
        exact ⟨fun h => ht ((hsame b).mp h), hc⟩
  cases bs with
  | nil => exact .nil
  | cons b bs =>
    obtain ⟨b', rest, he, -, hc⟩ := key bs b
    rw [mergeRuns, he]
    exact hc

/-- Where no neighbours belong together there is nothing to merge. -/
theorem mergeRuns_of_isChain {bs : List β} (h : bs.IsChain fun b c => ¬touch b c) :
    mergeRuns touch join bs = bs := by
  cases bs with
  | nil => rfl
  | cons b bs =>
    rw [mergeRuns]
    induction bs generalizing b with
    | nil => rfl
    | cons c cs ih =>
      rw [List.isChain_cons_cons] at h
      rw [mergeFrom, if_neg h.1, ih c h.2]

/-- Neighbours that belong together, as many as there are in a row. -/
def MaximalRun (touch : β → β → Prop) (bs run : List β) : Prop :=
  ∃ pre post, bs = pre ++ run ++ post ∧ run ≠ [] ∧ run.IsChain touch ∧
    (∀ x ∈ pre.getLast?, ∀ y ∈ run.head?, ¬touch x y) ∧
    ∀ x ∈ run.getLast?, ∀ y ∈ post.head?, ¬touch x y

/-- The groups of `splitBy` are the maximal runs. -/
theorem mem_splitBy_iff {bs run : List β} :
    run ∈ bs.splitBy (fun b c => decide (touch b c)) ↔ MaximalRun touch bs run := by
  constructor
  · intro h
    obtain ⟨gs, gs', he⟩ := List.append_of_mem h
    have hne := List.nil_notMem_splitBy (fun b c => decide (touch b c)) bs
    have hend := List.isChain_getLast_head_splitBy (fun b c => decide (touch b c)) bs
    have hrun : run ≠ [] := List.ne_nil_of_mem_splitBy h
    rw [he] at hend hne
    refine ⟨gs.flatten, gs'.flatten, ?_, hrun, ?_, ?_, ?_⟩
    · rw [← List.flatten_splitBy (fun b c => decide (touch b c)) bs, he]
      simp
    · exact (List.isChain_of_mem_splitBy h).imp fun _ _ => of_decide_eq_true
    · rcases List.eq_nil_or_concat gs with rfl | ⟨gs, g, rfl⟩
      · simp
      · rw [List.concat_eq_append, List.append_assoc, List.singleton_append] at hend hne
        obtain ⟨hg, _, hgr⟩ := (List.isChain_append_cons_cons.mp hend).2.1
        rw [List.concat_eq_append, List.flatten_append, List.flatten_singleton,
          List.getLast?_append, List.getLast?_eq_some_getLast hg, List.head?_eq_some_head hrun]
        simpa using hgr
    · rcases gs' with _ | ⟨g, gs'⟩
      · simp
      · obtain ⟨_, hg, hgr⟩ := (List.isChain_append_cons_cons.mp hend).2.1
        rw [List.flatten_cons, List.head?_append, List.head?_eq_some_head hg,
          List.getLast?_eq_some_getLast hrun]
        simpa using hgr
  · rintro ⟨pre, post, rfl, hne, hc, h1, h2⟩
    have hlast : ∀ x ∈ (pre ++ run).getLast?, ∀ y ∈ post.head?, decide (touch x y) = false := by
      intro x hx y hy
      rw [List.getLast?_append, List.getLast?_eq_some_getLast hne, Option.some_or] at hx
      rw [List.getLast?_eq_some_getLast hne] at h2
      simpa using h2 x hx y hy
    rw [List.splitBy_append hlast,
      List.splitBy_append fun x hx y hy => decide_eq_false (h1 x hx y hy),
      List.splitBy_of_isChain hne (hc.imp fun _ _ => decide_eq_true)]
    simp

/-- A run that the nodes behind it do not belong to is joined. -/
theorem mergeFrom_run (hback : ∀ b c d, touch b c → (touch (join b c) d ↔ touch c d))
    {xs post : List β} {b y : β} (hb : ∀ d, touch b d ↔ touch y d) (hc : (y :: xs).IsChain touch)
    (hend : ∀ x ∈ (y :: xs).getLast?, ∀ z ∈ post.head?, ¬touch x z) :
    mergeFrom touch join b (xs ++ post) = xs.foldl join b :: mergeRuns touch join post := by
  induction xs generalizing b y with
  | nil =>
    cases post with
    | nil => rfl
    | cons z post =>
      have hz : ¬touch b z := fun h => hend y rfl z rfl ((hb z).mp h)
      rw [List.nil_append, mergeFrom, if_neg hz]
      rfl
  | cons x xs ih =>
    rw [List.isChain_cons_cons] at hc
    have hx := (hb x).mpr hc.1
    rw [List.cons_append, mergeFrom, if_pos hx, ih (hback b x · hx) hc.2 hend]
    rfl

/-- Merging makes one node of each maximal run. -/
theorem mem_mergeRuns_iff (hback : ∀ b c d, touch b c → (touch (join b c) d ↔ touch c d))
    {bs : List β} {d : β} : d ∈ mergeRuns touch join bs ↔
      ∃ x xs, MaximalRun touch bs (x :: xs) ∧ xs.foldl join x = d := by
  have key : ∀ gs : List (List β), [] ∉ gs → (∀ g ∈ gs, g.IsChain touch) →
      (gs.IsChain fun g g' => ∃ h h', decide (touch (g.getLast h) (g'.head h')) = false) →
      (d ∈ mergeRuns touch join gs.flatten ↔ ∃ x xs, x :: xs ∈ gs ∧ xs.foldl join x = d) := by
    intro gs
    induction gs with
    | nil => exact fun _ _ _ => by simp [mergeRuns]
    | cons g gs ih =>
      intro hne hc hend
      simp only [List.mem_cons, not_or] at hne
      obtain ⟨y, ys, rfl⟩ := List.exists_cons_of_ne_nil (Ne.symm hne.1)
      have hlast : ∀ x ∈ (y :: ys).getLast?, ∀ z ∈ gs.flatten.head?, ¬touch x z := by
        cases gs with
        | nil => simp
        | cons g' gs =>
          obtain ⟨hg, hg', hgg⟩ := (List.isChain_cons_cons.mp hend).1
          rw [List.flatten_cons, List.head?_append, List.head?_eq_some_head hg',
            List.getLast?_eq_some_getLast hg]
          simpa using hgg
      rw [List.flatten_cons, List.cons_append, mergeRuns,
        mergeFrom_run hback (fun _ => Iff.rfl) (hc _ (by simp)) hlast, List.mem_cons,
        ih hne.2 (fun g hg => hc g (List.mem_cons_of_mem _ hg)) hend.tail]
      simp only [List.mem_cons, List.cons.injEq]
      constructor
      · rintro (rfl | ⟨x, xs, hx, he⟩)
        · exact ⟨y, ys, Or.inl ⟨rfl, rfl⟩, rfl⟩
        · exact ⟨x, xs, Or.inr hx, he⟩
      · rintro ⟨x, xs, ⟨rfl, rfl⟩ | hx, he⟩
        · exact Or.inl he.symm
        · exact Or.inr ⟨x, xs, hx, he⟩
  have hgroups := key (bs.splitBy fun b c => decide (touch b c)) (List.nil_notMem_splitBy _ _)
    (fun g hg => (List.isChain_of_mem_splitBy hg).imp fun _ _ => of_decide_eq_true)
    (List.isChain_getLast_head_splitBy (fun b c => decide (touch b c)) bs)
  rw [List.flatten_splitBy] at hgroups
  rw [hgroups]
  simp only [mem_splitBy_iff]

end Lists

/-! ## On links -/

section Links

variable {σ : Type u} {α : Type v} [LinkStore σ α] [DecidableEq α]
  (cond : σ → α → α → Bool) (body : σ → α → α → σ) (head : α)

/-- The inner loop: `entry` swallows the node behind it while `cond` holds. -/
def mergeWhile (entry : α) : Nat → α → σ → Option σ
  | 0, _, _ => none
  | fuel + 1, nextEntry, s =>
    if cond s entry nextEntry then
      let s := body s entry nextEntry
      if next s entry ≠ head then mergeWhile entry fuel (next s entry) s else some s
    else some s

/-- The outer loop, from the node `it` on; `bound` is the fuel of each inner loop. -/
def mergeWalk (bound : Nat) : Nat → α → σ → Option σ
  | 0, _, _ => none
  | fuel + 1, it, s =>
    if it = head then some s
    else
      (if next s it ≠ head then mergeWhile cond body head it bound (next s it) s
        else some s).bind fun s => mergeWalk bound fuel (next s it) s

variable {cond body head} {β : Type w} {addr : β → α} {touch : β → β → Prop}
  [DecidableRel touch] {join : β → β → β} {At : σ → List β → Prop} {s : σ}
  {pre post : List β} {b c : β}

/-- What a walk needs to know of the states that hold a list. -/
structure MergeStep (cond : σ → α → α → Bool) (body : σ → α → α → σ) (head : α) (addr : β → α)
    (touch : β → β → Prop) (join : β → β → β) (At : σ → List β → Prop) : Prop where
  ring : ∀ {s bs}, At s bs → Ring s head (bs.map addr)
  addr_join : ∀ b c, addr (join b c) = addr b
  cond_iff : ∀ {s pre b c post}, At s (pre ++ b :: c :: post) →
    (cond s (addr b) (addr c) = true ↔ touch b c)
  body : ∀ {s pre b c post}, At s (pre ++ b :: c :: post) → touch b c →
    At (body s (addr b) (addr c)) (pre ++ join b c :: post)

namespace MergeStep

variable (h : MergeStep cond body head addr touch join At)
include h

omit [DecidableEq α] [DecidableRel touch] in
theorem next_eq (hat : At s (pre ++ b :: post)) :
    next s (addr b) = (post.map addr).headD head := by
  have hr := h.ring hat
  rw [List.map_append, List.map_cons] at hr
  exact hr.next_mem

omit [DecidableEq α] [DecidableRel touch] in
theorem addr_ne (hat : At s (pre ++ b :: post)) : addr b ≠ head := by
  intro he
  have hr := (h.ring hat).not_mem
  rw [List.map_append, List.map_cons, ← he] at hr
  exact hr (by simp)

theorem mergeWhile_eq (hat : At s (pre ++ b :: c :: post)) {fuel : Nat}
    (hf : post.length < fuel) :
    ∃ s' b' post', mergeWhile cond body head (addr b) fuel (addr c) s = some s' ∧
      At s' (pre ++ b' :: post') ∧ addr b' = addr b ∧ post'.length ≤ post.length + 1 ∧
      mergeFrom touch join b (c :: post) = b' :: mergeRuns touch join post' := by
  induction fuel generalizing b c post s with
  | zero => omega
  | succ fuel ih =>
    rw [mergeWhile]
    by_cases ht : touch b c
    · have hat' := h.body hat ht
      have hnext := h.next_eq hat'
      rw [h.addr_join] at hnext
      rw [if_pos ((h.cond_iff hat).mpr ht), mergeFrom, if_pos ht]
      simp only [hnext]
      cases post with
      | nil =>
        refine ⟨_, join b c, [], ?_, hat', h.addr_join b c, by simp, rfl⟩
        rw [List.map_nil, List.headD_nil, if_neg (by simp)]
      | cons d post =>
        have hat'' : At (body s (addr b) (addr c)) (pre ++ [join b c] ++ d :: post) := by
          simpa using hat'
        have hd : addr d ≠ head := h.addr_ne hat''
        obtain ⟨s', b', post', e1, e2, e3, e4, e5⟩ :=
          ih hat' (by simp only [List.length_cons] at hf; omega)
        rw [h.addr_join] at e1 e3
        refine ⟨s', b', post', ?_, e2, e3, by simp only [List.length_cons]; omega, e5⟩
        rw [List.map_cons, List.headD_cons, if_pos hd, e1]
    · rw [if_neg ((h.cond_iff hat).not.mpr ht), mergeFrom, if_neg ht]
      exact ⟨s, b, c :: post, rfl, hat, rfl, by simp, rfl⟩

/-- The outer loop with the nodes `pre` behind it and `post` ahead. -/
theorem mergeWalk_append (hat : At s (pre ++ post)) {bound fuel : Nat}
    (hb : post.length < bound) (hf : post.length < fuel) :
    ∃ s', mergeWalk cond body head bound fuel ((post.map addr).headD head) s = some s' ∧
      At s' (pre ++ mergeRuns touch join post) := by
  induction fuel generalizing pre post s with
  | zero => omega
  | succ fuel ih =>
    rw [mergeWalk]
    rcases post with _ | ⟨b, _ | ⟨c, post⟩⟩
    · rw [List.map_nil, List.headD_nil, if_pos rfl]
      exact ⟨s, rfl, hat⟩
    · have hnext : next s (addr b) = head := h.next_eq hat
      rw [List.map_cons, List.headD_cons, if_neg (h.addr_ne hat), if_neg (by simpa using hnext),
        Option.bind_some, hnext]
      have hat' : At s (pre ++ [b] ++ []) := by simpa using hat
      obtain ⟨s', e1, e2⟩ := ih hat' (by simp only [List.length_cons] at hb; simp; omega)
        (by simp only [List.length_cons] at hf; simp; omega)
      exact ⟨s', e1, by simpa [mergeRuns, mergeFrom] using e2⟩
    · simp only [List.length_cons] at hb hf
      have hnext : next s (addr b) = addr c := h.next_eq hat
      have hat' : At s (pre ++ [b] ++ c :: post) := by simpa using hat
      have hc : addr c ≠ head := h.addr_ne hat'
      obtain ⟨s1, b', post', e1, e2, e3, e4, e5⟩ :=
        h.mergeWhile_eq hat (show post.length < bound by omega)
      rw [List.map_cons, List.headD_cons, if_neg (h.addr_ne hat), hnext, if_pos hc, e1,
        Option.bind_some, ← e3, h.next_eq e2]
      have hat'' : At s1 (pre ++ [b'] ++ post') := by simpa using e2
      obtain ⟨s', g1, g2⟩ := ih hat'' (by omega) (by omega)
      refine ⟨s', g1, ?_⟩
      rw [mergeRuns, e5]
      simpa using g2

/-- The walk from the list head merges the whole ring. -/
theorem mergeWalk_eq {bs : List β} (hat : At s bs) {bound : Nat} (hb : bs.length < bound) :
    ∃ s', mergeWalk cond body head bound bound (next s head) s = some s' ∧
      At s' (mergeRuns touch join bs) := by
  have hat' : At s ([] ++ bs) := hat
  rw [(h.ring hat).next_head]
  exact h.mergeWalk_append hat' hb hb

end MergeStep

end Links

end Infra
