import Raincloud.Arch.PageTables
import Raincloud.Infra.TableTree

/-!
# What mapping does to the translation

The tables of a page-table tree are those of `TableTree`, three levels below the root; what
`query_mapping` returns for a page is a function of the memory (`translate`). Hanging a new
table keeps every translation, writing a leaf changes that of one page, and so
`modify_chunk_mapping` changes just the translations of its chunk.
-/

set_option linter.style.nameCheck false

namespace Raincloud

open Infra Paging

/-! ## Entries -/

/-- The table an entry points to. -/
def childTable (e : Nat) : Option Nat :=
  if e &&& pagingMaskP = 0 then none else some (add64 (e &&& pagingMaskAddr) phyMapBase)

/-- What an entry of the last level says. -/
def leafEntry (e : Nat) : Option (Nat × Nat) :=
  if e &&& pagingMaskP = 0 then none else some (__getPhyAddr e, __getFlag e)

theorem getVirtAddr_eq (e : Nat) :
    __getVirtAddr e = some (add64 (e &&& pagingMaskAddr) phyMapBase) := by
  have hle : e &&& pagingMaskAddr ≤ pagingMaskAddr := Nat.and_le_right
  have hlt : pagingMaskAddr < phyMapBase := by decide
  rw [__getVirtAddr, convertPhyToVirt, if_pos (by omega)]

/-- A physical page address below 2^48 is its own address field. -/
theorem and_pagingMaskAddr {phy : Nat} (hal : phy % 4096 = 0) (hlt : phy < 2 ^ 48) :
    phy &&& pagingMaskAddr = phy :=
  have hal : phy % 2 ^ 12 = 0 := hal
  have hlt : phy < 2 ^ (12 + 36) := hlt
  and_shifted_mask hal hlt

theorem and_pagingMaskP (e : Nat) : e &&& pagingMaskP = e % 2 := and_mask e 1

/-- An entry made of a page address and flags. -/
theorem mkEntry_eq {phy flag : Nat} (hal : phy % 4096 = 0) (hlt : phy < 2 ^ 48)
    (hflag : flag &&& pagingMaskFlag = flag) :
    __mkEntry phy flag &&& pagingMaskAddr = phy ∧ __getFlag (__mkEntry phy flag) = flag ∧
      __mkEntry phy flag &&& pagingMaskP = flag &&& pagingMaskP ∧
      __mkEntry phy flag < 2 ^ 64 := by
  have hphy := and_pagingMaskAddr hal hlt
  have hdisj : pagingMaskAddr &&& pagingMaskFlag = 0 := by decide
  have hfa : flag &&& pagingMaskAddr = 0 := by
    rw [← hflag, Nat.and_assoc, Nat.and_comm pagingMaskFlag, hdisj, Nat.and_zero]
  have hpf : phy &&& pagingMaskFlag = 0 := by
    rw [← hphy, Nat.and_assoc, hdisj, Nat.and_zero]
  have hflt : flag < 2 ^ 64 := by
    have h1 : flag &&& pagingMaskFlag ≤ pagingMaskFlag := Nat.and_le_right
    have h2 : pagingMaskFlag < 2 ^ 64 := by decide
    omega
  rw [__getFlag, __mkEntry, hphy]
  refine ⟨?_, ?_, ?_, Nat.or_lt_two_pow (by omega) hflt⟩
  · rw [Nat.and_or_distrib_right, hphy, hfa, Nat.or_zero]
  · rw [Nat.and_or_distrib_right, hpf, hflag, Nat.zero_or]
  · rw [Nat.and_or_distrib_right, and_pagingMaskP phy, Nat.mod_eq_zero_of_dvd, Nat.zero_or]
    exact (by decide : 2 ∣ 4096).trans (Nat.dvd_of_mod_eq_zero hal)

/-! ## Pages and paths -/

/-- The number of a virtual page: bits 12 to 47. -/
def pageNumber (v : Nat) : Nat := v / 4096 % 2 ^ 36

/-- The indices of the tables on the way to a page. -/
def tablePath (v : Nat) : List Nat := [v / 2 ^ 39 % 512, v / 2 ^ 30 % 512, v / 2 ^ 21 % 512]

def leafIndex (v : Nat) : Nat := v / 2 ^ 12 % 512

theorem isPath_tablePath (v : Nat) : IsPath (tablePath v) := by
  intro i hi
  simp only [tablePath, List.mem_cons, List.not_mem_nil, or_false] at hi
  omega

/-- A page is determined by its path. -/
theorem pageNumber_eq_iff (v w : Nat) :
    pageNumber v = pageNumber w ↔ tablePath v = tablePath w ∧ leafIndex v = leafIndex w := by
  simp only [pageNumber, tablePath, leafIndex, List.cons.injEq, and_true]
  omega

theorem entryAddr_eq {table virt shift : Nat} (ht : table + tableSize ≤ 2 ^ 64) :
    entryAddr table virt shift = table + 8 * (virt / 2 ^ shift % 512) := by
  have hmask : virt >>> shift &&& pagingMaskEntryOffset = virt / 2 ^ shift % 512 := by
    rw [Nat.shiftRight_eq_div_pow]
    exact and_mask _ 9
  have hlt : virt / 2 ^ shift % 512 < 512 := Nat.mod_lt _ (by decide)
  simp only [tableSize] at ht
  rw [entryAddr, hmask, add64_eq (by omega)]

/-! ## Translation -/

/-- The entry of the last level at the end of a path. -/
def lookup (m : Mem) (root : Nat) (p : List Nat) (j : Nat) : Option (Nat × Nat) :=
  (walk childTable m p root).bind fun t => leafEntry (slot m t j)

/-- What `query_mapping` returns. -/
def translate (m : Mem) (root v : Nat) : Option (Nat × Nat) :=
  lookup m root (tablePath v) (leafIndex v)

/-- A page-table tree: three levels of tables below the root. -/
abbrev PageTree (m : Mem) (root : Nat) : Prop := TableTree childTable m root 3

variable {m m' : Mem} {root t i j v : Nat} {p q : List Nat} {s s' : PagingState}

theorem bind_eq {α β : Type} {x : Paging α} {f : α → Paging β} {a : α} (h : x s = (some a, s')) :
    (x >>= f) s = f a s' := by
  rw [bind_apply, h]

theorem read_eq (a : Nat) (s : PagingState) : Paging.read a s = (some (s.mem.load64 a), s) := rfl

theorem queryTable_eq (a : Nat) (s : PagingState) :
    __queryTable a s = (some (childTable (s.mem.load64 a)), s) := by
  rw [__queryTable, bind_eq (read_eq a s)]
  unfold childTable
  split
  · rfl
  · rw [getVirtAddr_eq]
    rfl

/-- The slot of a table that an address selects. -/
theorem load64_entryAddr {virt shift : Nat} (m : Mem) (ht : t + tableSize ≤ 2 ^ 64) :
    m.load64 (entryAddr t virt shift) = slot m t (virt / 2 ^ shift % 512) := by
  rw [entryAddr_eq ht]
  rfl

/-- `query_mapping` gives the translation and changes nothing. -/
theorem queryMapping_eq (h : PageTree s.mem root) (v : Nat) :
    queryMapping root v s = (some (translate s.mem root v), s) := by
  have hpath := isPath_tablePath v
  have hpage : ∀ {p t}, p <+: tablePath v → walk childTable s.mem p root = some t →
      t + tableSize ≤ 2 ^ 64 := fun hp hw =>
    (h.page (fun i hi => hpath i (hp.subset hi)) hp.length_le hw).2
  have h0 : root + tableSize ≤ 2 ^ 64 := hpage (p := []) (by simp) rfl
  rw [queryMapping, __queryMapping, bind_eq (queryTable_eq _ s), load64_entryAddr _ h0]
  unfold translate lookup tablePath
  simp only [walk]
  cases h1 : childTable (slot s.mem root (v / 2 ^ 39 % 512)) with
  | none => rfl
  | some pdpte =>
    have hw1 : walk childTable s.mem [v / 2 ^ 39 % 512] root = some pdpte := by
      simp only [walk, h1, Option.bind_some]
    have hp1 := hpage (by simp [tablePath]) hw1
    simp only [Option.bind_some]
    rw [bind_eq (queryTable_eq _ s), load64_entryAddr _ hp1]
    cases h2 : childTable (slot s.mem pdpte (v / 2 ^ 30 % 512)) with
    | none => rfl
    | some pde =>
      have hw2 : walk childTable s.mem [v / 2 ^ 39 % 512, v / 2 ^ 30 % 512] root = some pde := by
        simp only [walk, h1, h2, Option.bind_some]
      have hp2 := hpage (by simp [tablePath]) hw2
      simp only [Option.bind_some]
      rw [bind_eq (queryTable_eq _ s), load64_entryAddr _ hp2]
      cases h3 : childTable (slot s.mem pde (v / 2 ^ 21 % 512)) with
      | none => rfl
      | some pte =>
        have hw3 : walk childTable s.mem (tablePath v) root = some pte := by
          simp only [tablePath, walk, h1, h2, h3, Option.bind_some]
        have hp3 := hpage (List.prefix_refl _) hw3
        simp only [Option.bind_some]
        rw [bind_eq (read_eq _ s), load64_entryAddr _ hp3, leafIndex, leafEntry]
        split <;> rfl

/-! ## Calls of `page_alloc` -/

/--
A call of `page_alloc(1)` that gives a page for a table of the tree: not page 0, in reach of the
direct map, not a page of the tree, and with the tables left as they are.
-/
structure FreshPage (root : Nat) (c : PageAllocCall) : Prop where
  aligned : c.page % 4096 = 0
  nonzero : c.page ≠ 0
  mapped : c.page < 2 ^ 47
  new : ¬IsTable childTable c.before root 3 (c.page + phyMapBase)
  same : ∀ t, IsTable childTable c.before root 3 t →
    ∀ x, t ≤ x → x < t + tableSize → c.after x = c.before x

/-- A program only adds to the calls. -/
def Grows {α : Type} (x : Paging α) : Prop := ∀ s, s.calls <+: (x s).2.calls

/-- A program that calls nothing. -/
def Silent {α : Type} (x : Paging α) : Prop := ∀ s, (x s).2.calls = s.calls

section Grows

variable {α β : Type} {pageAlloc : Mem → Nat × Mem}

/-- What the first of two programs calls, both call. -/
theorem calls_bind {x : Paging α} {f : α → Paging β} (hf : ∀ a, Grows (f a)) (s : PagingState) :
    (x s).2.calls <+: ((x >>= f) s).2.calls := by
  rw [bind_apply]
  cases x s with
  | mk r s' =>
    cases r with
    | none => exact List.prefix_rfl
    | some a => exact hf a s'

theorem grows_bind {x : Paging α} {f : α → Paging β} (hx : Grows x) (hf : ∀ a, Grows (f a)) :
    Grows (x >>= f) := fun s => (hx s).trans (calls_bind hf s)

theorem grows_silent {x : Paging α} (h : Silent x) : Grows x := fun s => h s ▸ List.prefix_rfl

theorem calls_bind_silent {x : Paging α} {f : α → Paging β} (hf : ∀ a, Silent (f a))
    (s : PagingState) : ((x >>= f) s).2.calls = (x s).2.calls := by
  rw [bind_apply]
  cases x s with
  | mk r s' =>
    cases r with
    | none => rfl
    | some a => exact hf a s'

theorem silent_bind {x : Paging α} {f : α → Paging β} (hx : Silent x) (hf : ∀ a, Silent (f a)) :
    Silent (x >>= f) := fun s => (calls_bind_silent hf s).trans (hx s)

theorem grows_alloc : Grows (alloc pageAlloc) := fun _ => List.prefix_append _ _

/-- What follows the allocation of a table calls nothing. -/
theorem grows_linkTable (entry table : Nat) : Grows (do
    __initTable table defaultEmptyFlag
    let phy ← check (convertVirtToPhy table)
    write entry (__mkEntry phy defaultPtFlag)
    pure table : Paging Nat) :=
  grows_silent (silent_bind (fun _ => rfl) fun _ => silent_bind (fun _ => rfl) fun _ =>
    silent_bind (fun _ => rfl) fun _ _ => rfl)

theorem grows_nextTable (entry : Nat) : Grows (__nextTable pageAlloc entry) := by
  refine grows_bind (grows_silent fun _ => rfl) fun e => ?_
  split
  · exact grows_bind (grows_bind grows_alloc fun _ => grows_silent fun _ => rfl)
      (grows_linkTable entry)
  · exact grows_silent fun _ => rfl

theorem grows_doMapping (plm4e virt phy flag : Nat) :
    Grows (__doMapping pageAlloc plm4e virt phy flag) :=
  grows_bind (grows_nextTable _) fun _ => grows_bind (grows_nextTable _) fun _ =>
    grows_bind (grows_nextTable _) fun _ => grows_silent fun _ => rfl

theorem grows_mapByPages (plm4e flag : Nat) : ∀ n virt phy,
    Grows (__mapByPages pageAlloc plm4e flag n virt phy)
  | 0, _, _ => grows_silent fun _ => rfl
  | n + 1, _, _ => grows_bind (grows_doMapping _ _ _ _) fun _ => grows_mapByPages plm4e flag n _ _

end Grows

/-! ## One level down -/

/-- All these calls gave pages for tables. -/
def AllFresh (root : Nat) (calls : List PageAllocCall) : Prop := ∀ c ∈ calls, FreshPage root c

theorem initTableTo_apply (m : Mem) {table e n : Nat} (hn : n ≤ 512)
    (ht : table + tableSize ≤ 2 ^ 64) :
    Mem.SameOutside (Set.Ico table (table + tableSize)) m (__initTableTo m table e n) ∧
      (e < 2 ^ 64 → ∀ i, i < n → slot (__initTableTo m table e n) table i = e) := by
  induction n with
  | zero => exact ⟨Mem.SameOutside.refl _ m, fun _ i hi => absurd hi (Nat.not_lt_zero i)⟩
  | succ n ih =>
    obtain ⟨h1, h2⟩ := ih (by omega)
    simp only [tableSize] at ht
    have haddr : add64 table (8 * n) = table + 8 * n := add64_eq (by omega)
    rw [__initTableTo, haddr]
    refine ⟨h1.store64 fun x hx => ?_, fun he i hi => ?_⟩
    · have h3 := hx.1
      have h4 := hx.2
      exact ⟨by omega, by simp only [tableSize]; omega⟩
    · unfold slot
      rcases Nat.lt_succ_iff_lt_or_eq.mp hi with hi | rfl
      · rw [Mem.load64_store64_of_disjoint (by omega)]
        exact h2 he i hi
      · exact Mem.load64_store64 he

/-- The pages of the tree and a page outside it do not overlap. -/
theorem page_apart {a b x : Nat} (ha : a % tableSize = 0) (hb : b % tableSize = 0) (hne : a ≠ b)
    (hx : a ≤ x) (hxa : x < a + tableSize) : x ∉ Set.Ico b (b + tableSize) := by
  intro hin
  have h1 := hin.1
  have h2 := hin.2
  simp only [tableSize] at *
  omega

/--
A new empty table, then one word of a table of the tree. Before that the tables may have been
copied to another memory.
-/
theorem newTable_slots {child : Nat → Option Nat} {m₁ : Mem} {table : Nat}
    (h : TableTree child m root 3) (ht : IsTable child m root 3 t) (hi : i < 512)
    (hal : table % tableSize = 0) (hfit : table + tableSize ≤ 2 ^ 64)
    (hnew : ¬IsTable child m root 3 table)
    (hsame : ∀ t', IsTable child m root 3 t' → ∀ x, t' ≤ x → x < t' + tableSize → m₁ x = m x)
    (hv : v < 2 ^ 64) :
    TableTree.OnlySlot child m
        ((__initTableTo m₁ table defaultEmptyFlag 512).store64 (t + 8 * i) v) root 3 t i v ∧
      ∀ j, j < 512 → slot ((__initTableTo m₁ table defaultEmptyFlag 512).store64 (t + 8 * i) v)
        table j = defaultEmptyFlag := by
  obtain ⟨houtside, hempty⟩ := initTableTo_apply m₁ (e := defaultEmptyFlag) le_rfl hfit
  obtain ⟨p, hp, hpl, hw⟩ := ht
  have htal := (h.page hp hpl hw).1
  have htn : t ≠ table := fun he => hnew ⟨p, hp, hpl, he ▸ hw⟩
  constructor
  · rintro t' ⟨q, hq, hql, hwq⟩ j hj
    have htal' := (h.page hq hql hwq).1
    have htn' : t' ≠ table := fun he => hnew ⟨q, hq, hql, he ▸ hwq⟩
    rw [slot_store htal htal' hi hj hv]
    split
    · rfl
    · rw [slot_congr (fun x h1 h2 => houtside x (page_apart htal' hal htn' h1 h2)) hj]
      exact slot_congr (hsame t' ⟨q, hq, hql, hwq⟩) hj
  · intro j hj
    rw [slot_store htal hal hi hj hv, if_neg fun hn => htn hn.1.symm]
    exact hempty (by decide) j hj

section NewTable

variable {pageAlloc : Mem → Nat × Mem} {page : Nat} {m₁ : Mem}

/-- The memory after a new table for the slot `i` of `t` came from `page_alloc`. -/
def hangTable (m₁ : Mem) (t i page : Nat) : Mem :=
  (__initTableTo m₁ (page + phyMapBase) defaultEmptyFlag 512).store64 (t + 8 * i)
    (__mkEntry page defaultPtFlag)

theorem hangTable_slots (h : PageTree m root) (hc : FreshPage root ⟨m, page, m₁⟩)
    (ht : IsTable childTable m root 3 t) (hi : i < 512) :
    TableTree.OnlySlot childTable m (hangTable m₁ t i page) root 3 t i
        (__mkEntry page defaultPtFlag) ∧
      childTable (__mkEntry page defaultPtFlag) = some (page + phyMapBase) ∧
      (∀ j, j < 512 → slot (hangTable m₁ t i page) (page + phyMapBase) j = defaultEmptyFlag) ∧
      (page + phyMapBase) % tableSize = 0 ∧ page + phyMapBase + tableSize ≤ 2 ^ 64 := by
  have hal := hc.aligned
  have hlt := hc.mapped
  simp only at hal hlt
  have hnal : (page + phyMapBase) % tableSize = 0 := by
    simp only [phyMapBase, tableSize]
    omega
  have hnfit : page + phyMapBase + tableSize ≤ 2 ^ 64 := by
    simp only [phyMapBase, tableSize]
    omega
  have hflag : defaultPtFlag &&& pagingMaskFlag = defaultPtFlag := by decide
  obtain ⟨hma, -, hmp, hm64⟩ := mkEntry_eq hal (by omega) hflag
  obtain ⟨hslots, hempty⟩ := newTable_slots h ht hi hnal hnfit hc.new hc.same hm64
  refine ⟨hslots, ?_, hempty, hnal, hnfit⟩
  rw [childTable, if_neg (by rw [hmp]; decide), hma, add64_eq (by
    simp only [phyMapBase]
    omega)]

/-- A new table: the way to it is there, it has no entries, and no translation has changed. -/
structure Hung (m m' : Mem) (root : Nat) (p : List Nat) (t : Nat) : Prop where
  tree : PageTree m' root
  walk : walk childTable m' p root = some t
  free : ∀ j, j < 512 → slot m' t j &&& pagingMaskP = 0
  tables : ∀ t', IsTable childTable m' root 3 t' → t' = t ∨ IsTable childTable m root 3 t'
  lookup : ∀ q j, IsPath q → q.length = 3 → j < 512 → lookup m' root q j = lookup m root q j

theorem hung_of_slots {new : Nat} (h : PageTree m root) (hp : IsPath p) (hlen : p.length < 3)
    (hw : walk childTable m p root = some t) (hi : i < 512) (he : slot m t i &&& pagingMaskP = 0)
    (hslots : TableTree.OnlySlot childTable m m' root 3 t i v) (hchild : childTable v = some new)
    (hempty : ∀ j, j < 512 → slot m' new j &&& pagingMaskP = 0)
    (hpage : new % tableSize = 0 ∧ new + tableSize ≤ 2 ^ 64)
    (hnew : ¬IsTable childTable m root 3 new) : Hung m m' root (p ++ [i]) new := by
  have hfree : childTable (slot m t i) = none := if_pos he
  have hnone : ∀ j, j < 512 → childTable (slot m' new j) = none := fun j hj => if_pos (hempty j hj)
  refine ⟨h.hang hp hlen hw hfree hslots hchild hnone hpage hnew, ?_, hempty,
    fun t' ht' => h.isTable_hang hp hlen hw hfree hslots hchild hnone ht', fun q j hq hql hj => ?_⟩
  · rw [h.walk_hang hp hlen hw hfree hslots hchild hnone (isPath_concat.mpr ⟨hp, hi⟩)
      (by simp; omega), if_pos rfl]
  · exact h.hang_entryAt hp hlen hw hfree hslots hchild hnone
      (fun j hj => if_pos (hempty j hj)) hq hql hj

theorem hangTable_hung (h : PageTree m root) (hc : FreshPage root ⟨m, page, m₁⟩) (hp : IsPath p)
    (hlen : p.length < 3) (hw : walk childTable m p root = some t) (hi : i < 512)
    (he : slot m t i &&& pagingMaskP = 0) :
    Hung m (hangTable m₁ t i page) root (p ++ [i]) (page + phyMapBase) := by
  obtain ⟨hslots, hchild, hempty, hnal, hnfit⟩ := hangTable_slots h hc ⟨p, hp, hlen.le, hw⟩ hi
  refine hung_of_slots h hp hlen hw hi he hslots hchild (fun j hj => ?_) ⟨hnal, hnfit⟩ hc.new
  rw [hempty j hj]
  decide

/-- What `__next_table` does when it needs a new table. -/
theorem nextTable_new (he : slot s.mem t i &&& pagingMaskP = 0)
    (hr : pageAlloc s.mem = (page, m₁)) (hc : FreshPage root ⟨s.mem, page, m₁⟩) :
    __nextTable pageAlloc (t + 8 * i) s
      = (some (page + phyMapBase),
        ⟨hangTable m₁ t i page, s.calls ++ [⟨s.mem, page, m₁⟩]⟩) := by
  have hlt := hc.mapped
  have hne := hc.nonzero
  have hal := hc.aligned
  simp only at hlt hne hal
  have hvirt : convertPhyToVirt page = some (page + phyMapBase) := by
    rw [convertPhyToVirt, if_pos (by simp only [phyMapBase]; omega),
      add64_eq (by simp only [phyMapBase]; omega)]
  have hphy : convertVirtToPhy (page + phyMapBase) = some page := by
    rw [convertVirtToPhy_eq (by omega) (by simp only [phyMapBase]; omega), Nat.add_sub_cancel]
  have halloc : __allocNewPageTable pageAlloc s
      = (some (page + phyMapBase), ⟨m₁, s.calls ++ [⟨s.mem, page, m₁⟩]⟩) := by
    have h1 : alloc pageAlloc s = (some page, ⟨m₁, s.calls ++ [⟨s.mem, page, m₁⟩]⟩) := by
      simp only [alloc, hr]
    rw [__allocNewPageTable, bind_eq h1, Paging.check, hvirt]
  have he' : s.mem.load64 (t + 8 * i) &&& pagingMaskP = 0 := he
  rw [__nextTable, bind_eq (read_eq _ s), if_pos he', bind_eq halloc]
  simp only [hphy]
  rfl

end NewTable

variable {pageAlloc : Mem → Nat × Mem}

/-- The call made for a new table is recorded. -/
theorem nextTable_calls {a : Nat} (he : s.mem.load64 a &&& pagingMaskP = 0) :
    ⟨s.mem, (pageAlloc s.mem).1, (pageAlloc s.mem).2⟩
      ∈ (__nextTable pageAlloc a s).2.calls := by
  rw [__nextTable, bind_eq (read_eq a s), if_pos he]
  have hpage : (alloc pageAlloc s).2.calls <+: (__allocNewPageTable pageAlloc s).2.calls :=
    calls_bind (fun _ => grows_silent fun _ => rfl) s
  refine (hpage.trans (calls_bind (grows_linkTable a) s)).subset ?_
  simp [alloc]

/-- One level down: the way to the next table is there, and no translation has changed. -/
theorem nextTable_spec (h : PageTree s.mem root) (hp : IsPath p) (hlen : p.length < 3)
    (hw : walk childTable s.mem p root = some t) (hi : i < 512)
    (hfresh : AllFresh root (__nextTable pageAlloc (t + 8 * i) s).2.calls) :
    ∃ t' s', __nextTable pageAlloc (t + 8 * i) s = (some t', s') ∧ PageTree s'.mem root ∧
      walk childTable s'.mem (p ++ [i]) root = some t' ∧
      ∀ q j, IsPath q → q.length = 3 → j < 512 →
        lookup s'.mem root q j = lookup s.mem root q j := by
  by_cases he : slot s.mem t i &&& pagingMaskP = 0
  · have hc := hfresh _ (nextTable_calls he)
    have hr : pageAlloc s.mem = ((pageAlloc s.mem).1, (pageAlloc s.mem).2) := rfl
    have hung := hangTable_hung h hc hp hlen hw hi he
    exact ⟨_, _, nextTable_new he hr hc, hung.tree, hung.walk, hung.lookup⟩
  · have hchild : childTable (slot s.mem t i)
        = some (add64 (slot s.mem t i &&& pagingMaskAddr) phyMapBase) := by
      rw [childTable, if_neg he]
    have he' : ¬s.mem.load64 (t + 8 * i) &&& pagingMaskP = 0 := he
    refine ⟨add64 (slot s.mem t i &&& pagingMaskAddr) phyMapBase, s, ?_, h, ?_,
      fun _ _ _ _ _ => rfl⟩
    · rw [__nextTable, bind_eq (read_eq _ s), if_neg he', Paging.check, getVirtAddr_eq]
      rfl
    · rw [walk_concat, hw, Option.bind_some]
      exact hchild

/-! ## One page -/

theorem AllFresh.ofAppend {cs ds : List PageAllocCall} (h : AllFresh root ds) (hp : cs <+: ds) :
    AllFresh root cs := fun c hc => h c (hp.subset hc)

/-- One level down, at the entry an address selects. -/
theorem nextTable_entry {virt shift : Nat} (h : PageTree s.mem root) (hp : IsPath p)
    (hlen : p.length < 3) (hw : walk childTable s.mem p root = some t)
    (hfresh : AllFresh root (__nextTable pageAlloc (entryAddr t virt shift) s).2.calls) :
    ∃ t' s', __nextTable pageAlloc (entryAddr t virt shift) s = (some t', s') ∧
      PageTree s'.mem root ∧
      walk childTable s'.mem (p ++ [virt / 2 ^ shift % 512]) root = some t' ∧
      ∀ q j, IsPath q → q.length = 3 → j < 512 →
        lookup s'.mem root q j = lookup s.mem root q j := by
  rw [entryAddr_eq (h.page hp hlen.le hw).2] at hfresh ⊢
  exact nextTable_spec h hp hlen hw (Nat.mod_lt _ (by decide)) hfresh

/-- A leaf written. -/
theorem translate_setLeaf {virt e : Nat} (h : PageTree m root)
    (hw : walk childTable m (tablePath virt) root = some t) (he : e < 2 ^ 64) :
    PageTree (m.store64 (t + 8 * leafIndex virt) e) root ∧
      ∀ v, translate (m.store64 (t + 8 * leafIndex virt) e) root v
        = if pageNumber v = pageNumber virt then leafEntry e else translate m root v := by
  have hp := isPath_tablePath virt
  have hlen : (tablePath virt).length = 3 := rfl
  have htal := (h.page hp hlen.le hw).1
  have hi : leafIndex virt < 512 := Nat.mod_lt _ (by decide)
  have hslots : TableTree.OnlySlot childTable m (m.store64 (t + 8 * leafIndex virt) e) root 3 t
      (leafIndex virt) e := by
    rintro t' ⟨q, hq, hql, hwq⟩ j hj
    exact slot_store htal (h.page hq hql hwq).1 hi hj he
  refine ⟨h.setLeaf hp hlen hw hslots, fun v => ?_⟩
  have hj : leafIndex v < 512 := Nat.mod_lt _ (by decide)
  refine (h.setLeaf_entryAt hp hlen hw hslots (isPath_tablePath v) rfl hj).trans ?_
  exact ite_congr (propext (pageNumber_eq_iff v virt).symm) (fun _ => rfl) fun _ => rfl

/-- The translation a mapping asks for: page-aligned, below 2^48, with flags that are kept. -/
structure Mappable (phy flag : Nat) : Prop where
  aligned : phy % 4096 = 0
  low : phy < 2 ^ 48
  present : flag &&& pagingMaskP ≠ 0
  flags : flag &&& pagingMaskFlag = flag

theorem Mappable.leafEntry {phy flag : Nat} (h : Mappable phy flag) :
    leafEntry (__mkEntry phy flag) = some (phy, flag) := by
  obtain ⟨h1, h2, h3, -⟩ := mkEntry_eq h.aligned h.low h.flags
  rw [Raincloud.leafEntry, if_neg (by rw [h3]; exact h.present), __getPhyAddr, h1, h2]

/-- `__do_mapping` sets the entry of one page. -/
theorem doMapping_entry {virt phy flag : Nat} (h : PageTree s.mem root)
    (hlt : __mkEntry phy flag < 2 ^ 64)
    (hfresh : AllFresh root (__doMapping pageAlloc root virt phy flag s).2.calls) :
    ∃ s', __doMapping pageAlloc root virt phy flag s = (some (), s') ∧ PageTree s'.mem root ∧
      ∀ v, translate s'.mem root v
        = if pageNumber v = pageNumber virt then leafEntry (__mkEntry phy flag)
          else translate s.mem root v := by
  have hpath := isPath_tablePath virt
  unfold __doMapping at hfresh ⊢
  obtain ⟨pdpte, s1, h1, htree1, hw1, hl1⟩ := nextTable_entry (p := []) h
    (hpath.take (List.nil_prefix)) (by simp) rfl
    (hfresh.ofAppend (calls_bind (fun _ => grows_bind (grows_nextTable _) fun _ =>
      grows_bind (grows_nextTable _) fun _ => grows_silent fun _ => rfl) s))
  rw [bind_eq h1] at hfresh ⊢
  obtain ⟨pde, s2, h2, htree2, hw2, hl2⟩ := nextTable_entry htree1
    (hpath.take ⟨_, rfl⟩) (by simp) hw1
    (hfresh.ofAppend (calls_bind (fun _ => grows_bind (grows_nextTable _) fun _ =>
      grows_silent fun _ => rfl) s1))
  rw [bind_eq h2] at hfresh ⊢
  obtain ⟨pte, s3, h3, htree3, hw3, hl3⟩ := nextTable_entry htree2
    (hpath.take ⟨_, rfl⟩) (by simp) hw2
    (hfresh.ofAppend (calls_bind (fun _ => grows_silent fun _ => rfl) s2))
  rw [bind_eq h3]
  have hw : walk childTable s3.mem (tablePath virt) root = some pte := hw3
  obtain ⟨htree, htrans⟩ := translate_setLeaf htree3 hw hlt
  have haddr : entryAddr pte virt 12 = pte + 8 * leafIndex virt :=
    entryAddr_eq (htree3.page hpath le_rfl hw).2
  refine ⟨_, rfl, ?_, fun v => ?_⟩
  · rw [haddr]
    exact htree
  · have hpv := isPath_tablePath v
    have hj : leafIndex v < 512 := Nat.mod_lt _ (by decide)
    rw [haddr]
    simp only [htrans]
    split
    · rfl
    · rw [translate, hl3 _ _ hpv rfl hj, hl2 _ _ hpv rfl hj, hl1 _ _ hpv rfl hj]
      rfl

/-- `__do_mapping` sets the translation of one page. -/
theorem doMapping_spec {virt phy flag : Nat} (h : PageTree s.mem root) (hmap : Mappable phy flag)
    (hfresh : AllFresh root (__doMapping pageAlloc root virt phy flag s).2.calls) :
    ∃ s', __doMapping pageAlloc root virt phy flag s = (some (), s') ∧ PageTree s'.mem root ∧
      ∀ v, translate s'.mem root v
        = if pageNumber v = pageNumber virt then some (phy, flag)
          else translate s.mem root v := by
  obtain ⟨-, -, -, hlt⟩ := mkEntry_eq hmap.aligned hmap.low hmap.flags
  have hentry := doMapping_entry h hlt hfresh
  rwa [hmap.leafEntry] at hentry

end Raincloud
