import Raincloud.Arch.Mapping

/-!
# The page tables of `init_mm_map.c`

Before the kernel runs, tables are read and written at their physical addresses, and come one
after another from behind `page_table_base`. The pages handed out are recorded.
-/

set_option linter.style.nameCheck false

namespace Raincloud.InitMmMap

open Infra

structure BootState where
  mem : Mem
  pageTableBase : Nat
  pageTableSize : Nat
  /-- The results of `__continous_alloc`. -/
  pages : List Nat

/-- A program: its result and the state it leaves. -/
def Boot (α : Type) := BootState → α × BootState

instance : Monad Boot where
  pure a := fun s => (a, s)
  bind x f := fun s => f (x s).1 (x s).2

def read (a : Nat) : Boot Nat := fun s => (s.mem.load64 a, s)

def write (a v : Nat) : Boot Unit := fun s => ((), { s with mem := s.mem.store64 a v })

/-! ## Mapping -/

def __getAddr (entry : Nat) : Nat := entry &&& pagingMaskAddr

def __initTable (table initEntry : Nat) : Boot Unit := fun s =>
  ((), { s with mem := __initTableTo s.mem table initEntry 512 })

def __continousAlloc : Boot Nat := fun s =>
  let pageTableSize := add64 s.pageTableSize 0x1000
  let page := sub64 (add64 s.pageTableBase pageTableSize) 0x1000
  (page, { s with pageTableSize, pages := s.pages ++ [page] })

/-- One level of `__do_mapping`: the table behind an entry, a new one when there is none. -/
def __nextTable (entry : Nat) : Boot Nat := do
  let e ← read entry
  if e &&& pagingMaskP = 0 then
    let table ← __continousAlloc
    __initTable table defaultEmptyFlag
    write entry (__mkEntry table defaultPtFlag)
    pure table
  else
    pure (__getAddr e)

def __doMapping (plm4e virtAddr phyAddr flag : Nat) : Boot Unit := do
  let pdpte ← __nextTable (entryAddr plm4e virtAddr 39)
  let pde ← __nextTable (entryAddr pdpte virtAddr 30)
  let pte ← __nextTable (entryAddr pde virtAddr 21)
  write (entryAddr pte virtAddr 12) (__mkEntry phyAddr flag)

def __mapByPages (plm4e flag : Nat) : Nat → Nat → Nat → Boot Unit
  | 0, _, _ => pure ()
  | n + 1, virt, phy => do
    __doMapping plm4e virt phy flag
    __mapByPages plm4e flag n (add64 virt 0x1000) (add64 phy 0x1000)

/-- The top table of `init_mm_map`. -/
def newPlm4e : Boot Nat := do
  let plm4e ← __continousAlloc
  -- `PAGING_MASK_PWT | PAGING_MASK_PCD`
  __initTable plm4e 0x18
  pure plm4e

/-! ## Query -/

/-- One level of `__query_mapping`. -/
def __queryTable (m : Mem) (entry : Nat) : Option Nat :=
  let e := m.load64 entry
  if e &&& pagingMaskP = 0 then none else some (__getAddr e)

/-- The physical address and the flags of a page, or nothing when the status is -1. -/
def __queryMapping (m : Mem) (plm4e virtAddr : Nat) : Option (Nat × Nat) := do
  let pdpte ← __queryTable m (entryAddr plm4e virtAddr 39)
  let pde ← __queryTable m (entryAddr pdpte virtAddr 30)
  let pte ← __queryTable m (entryAddr pde virtAddr 21)
  let e := m.load64 (entryAddr pte virtAddr 12)
  if e &&& pagingMaskP = 0 then none else some (__getAddr e, __getFlag e)

/-! ## What mapping does to the translation -/

/-- The table an entry points to. -/
def childTable (e : Nat) : Option Nat :=
  if e &&& pagingMaskP = 0 then none else some (__getAddr e)

/-- A page-table tree: three levels of tables below the root. -/
abbrev PageTree (m : Mem) (root : Nat) : Prop := TableTree childTable m root 3

/-- What `__query_mapping` returns. -/
def translate (m : Mem) (root v : Nat) : Option (Nat × Nat) :=
  entryAt childTable leafEntry m root (tablePath v) (leafIndex v)

variable {s s' : BootState} {root t i v virt : Nat} {p : List Nat} {m : Mem}

theorem bind_apply {α β : Type} (x : Boot α) (f : α → Boot β) (s : BootState) :
    (x >>= f) s = f (x s).1 (x s).2 := rfl

/-- `__query_mapping` gives the translation. -/
theorem queryMapping_eq (h : PageTree m root) (v : Nat) :
    __queryMapping m root v = translate m root v := by
  have hpath := isPath_tablePath v
  have hpage : ∀ {p t}, p <+: tablePath v → walk childTable m p root = some t →
      t + tableSize ≤ 2 ^ 64 := fun hp hw =>
    (h.page (fun i hi => hpath i (hp.subset hi)) hp.length_le hw).2
  have hquery : ∀ {shift t}, t + tableSize ≤ 2 ^ 64 → __queryTable m (entryAddr t v shift)
      = childTable (slot m t (v / 2 ^ shift % 512)) := fun ht => by
    rw [__queryTable, load64_entryAddr m ht]
    rfl
  unfold __queryMapping translate entryAt tablePath
  rw [hquery (hpage (p := []) (List.nil_prefix) rfl)]
  simp only [walk]
  cases h1 : childTable (slot m root (v / 2 ^ 39 % 512)) with
  | none => rfl
  | some pdpte =>
    have hw1 : walk childTable m [v / 2 ^ 39 % 512] root = some pdpte := by
      simp only [walk, h1, Option.bind_some]
    simp only [Option.bind_eq_bind, Option.bind_some, hquery (hpage ⟨_, rfl⟩ hw1)]
    cases h2 : childTable (slot m pdpte (v / 2 ^ 30 % 512)) with
    | none => rfl
    | some pde =>
      have hw2 : walk childTable m [v / 2 ^ 39 % 512, v / 2 ^ 30 % 512] root = some pde := by
        simp only [walk, h1, h2, Option.bind_some]
      simp only [Option.bind_some, hquery (hpage ⟨_, rfl⟩ hw2)]
      cases h3 : childTable (slot m pde (v / 2 ^ 21 % 512)) with
      | none => rfl
      | some pte =>
        have hw3 : walk childTable m (tablePath v) root = some pte := by
          simp only [tablePath, walk, h1, h2, h3, Option.bind_some]
        simp only [Option.bind_some, load64_entryAddr m (hpage (List.prefix_refl _) hw3)]
        rfl

/-! ## Pages handed out -/

/-- A program only adds to the pages handed out. -/
def Grows {α : Type} (x : Boot α) : Prop := ∀ s, s.pages <+: (x s).2.pages

section Grows

variable {α β : Type}

/-- What the first of two programs takes, both take. -/
theorem pages_bind {x : Boot α} {f : α → Boot β} (hf : ∀ a, Grows (f a)) (s : BootState) :
    (x s).2.pages <+: ((x >>= f) s).2.pages := hf _ _

theorem grows_bind {x : Boot α} {f : α → Boot β} (hx : Grows x) (hf : ∀ a, Grows (f a)) :
    Grows (x >>= f) := fun s => (hx s).trans (pages_bind hf s)

theorem grows_nextTable (entry : Nat) : Grows (__nextTable entry) := by
  refine grows_bind (fun _ => List.prefix_rfl) fun e => ?_
  split
  · exact grows_bind (fun _ => List.prefix_append _ _) fun _ => fun _ => List.prefix_rfl
  · exact fun _ => List.prefix_rfl

theorem grows_doMapping (plm4e virt phy flag : Nat) : Grows (__doMapping plm4e virt phy flag) :=
  grows_bind (grows_nextTable _) fun _ => grows_bind (grows_nextTable _) fun _ =>
    grows_bind (grows_nextTable _) fun _ => fun _ => List.prefix_rfl

theorem grows_mapByPages (plm4e flag : Nat) : ∀ n virt phy, Grows (__mapByPages plm4e flag n virt phy)
  | 0, _, _ => fun _ => List.prefix_rfl
  | n + 1, _, _ => grows_bind (grows_doMapping _ _ _ _) fun _ => grows_mapByPages plm4e flag n _ _

end Grows

/-- The pages handed out are physical pages. -/
def AllLow (pages : List Nat) : Prop := ∀ page ∈ pages, page + tableSize ≤ 2 ^ 48

theorem AllLow.ofPrefix {ps qs : List Nat} (h : AllLow qs) (hp : ps <+: qs) : AllLow ps :=
  fun page hpage => h page (hp.subset hpage)

/-! ## One level down -/

/-- The tables lie below the pages that are left. -/
structure BootTree (s : BootState) (root : Nat) : Prop where
  tree : PageTree s.mem root
  below : ∀ t, IsTable childTable s.mem root 3 t → t + tableSize ≤ s.pageTableBase + s.pageTableSize
  aligned : (s.pageTableBase + s.pageTableSize) % tableSize = 0
  low : s.pageTableBase + s.pageTableSize ≤ 2 ^ 48

/-- The next page is behind all others. -/
theorem continousAlloc_eq (h : s.pageTableBase + s.pageTableSize ≤ 2 ^ 48) :
    __continousAlloc s = (s.pageTableBase + s.pageTableSize,
      { s with
        pageTableSize := s.pageTableSize + tableSize
        pages := s.pages ++ [s.pageTableBase + s.pageTableSize] }) := by
  have hsize : add64 s.pageTableSize 0x1000 = s.pageTableSize + tableSize := add64_eq (by omega)
  have hpage : sub64 (add64 s.pageTableBase (s.pageTableSize + tableSize)) 0x1000
      = s.pageTableBase + s.pageTableSize := by
    unfold tableSize
    rw [add64_eq (by omega), sub64_eq (by omega) (by omega)]
    omega
  unfold __continousAlloc
  simp only [hsize, hpage]

/-- The memory after a new table for an entry. -/
def linkTable (m : Mem) (entry table : Nat) : Mem :=
  (__initTableTo m table defaultEmptyFlag 512).store64 entry (__mkEntry table defaultPtFlag)

theorem nextTable_new {a : Nat} (he : s.mem.load64 a &&& pagingMaskP = 0)
    (h : s.pageTableBase + s.pageTableSize ≤ 2 ^ 48) :
    __nextTable a s = (s.pageTableBase + s.pageTableSize,
      { s with
        mem := linkTable s.mem a (s.pageTableBase + s.pageTableSize)
        pageTableSize := s.pageTableSize + tableSize
        pages := s.pages ++ [s.pageTableBase + s.pageTableSize] }) := by
  unfold __nextTable
  rw [bind_apply]
  change (if s.mem.load64 a &&& pagingMaskP = 0 then _ else _ : Boot Nat) s = _
  rw [if_pos he, bind_apply, continousAlloc_eq h]
  rfl

theorem nextTable_old {a : Nat} (he : ¬ s.mem.load64 a &&& pagingMaskP = 0) :
    __nextTable a s = (__getAddr (s.mem.load64 a), s) := by
  unfold __nextTable
  rw [bind_apply]
  change (if s.mem.load64 a &&& pagingMaskP = 0 then _ else _ : Boot Nat) s = _
  rw [if_neg he]
  rfl

/-- One level down: the way to the next table is there, and no translation has changed. -/
theorem nextTable_spec (h : BootTree s root) (hp : IsPath p) (hlen : p.length < 3)
    (hw : walk childTable s.mem p root = some t) (hi : i < 512)
    (hlow : AllLow (__nextTable (t + 8 * i) s).2.pages) :
    ∃ t' s', __nextTable (t + 8 * i) s = (t', s') ∧ BootTree s' root ∧
      walk childTable s'.mem (p ++ [i]) root = some t' ∧
      ∀ q j, IsPath q → q.length = 3 → j < 512 →
        entryAt childTable leafEntry s'.mem root q j
          = entryAt childTable leafEntry s.mem root q j := by
  by_cases he : slot s.mem t i &&& pagingMaskP = 0
  · have hrun := nextTable_new he h.low
    rw [hrun] at hlow
    have hpage : s.pageTableBase + s.pageTableSize + tableSize ≤ 2 ^ 48 := hlow _ (by simp)
    have hal := h.aligned
    have hflag : defaultPtFlag &&& pagingMaskFlag = defaultPtFlag := by decide
    obtain ⟨hma, -, hmp, hm64⟩ := mkEntry_eq hal (by unfold tableSize at hpage; omega) hflag
    have hnew : ¬IsTable childTable s.mem root 3 (s.pageTableBase + s.pageTableSize) := fun ht => by
      have := h.below _ ht
      unfold tableSize at this
      omega
    have hchild : childTable (__mkEntry (s.pageTableBase + s.pageTableSize) defaultPtFlag)
        = some (s.pageTableBase + s.pageTableSize) := by
      rw [childTable, if_neg (by rw [hmp]; decide), __getAddr, hma]
    have hfree : childTable (slot s.mem t i) = none := if_pos he
    obtain ⟨hslots, hempty⟩ := newTable_slots h.tree ⟨p, hp, hlen.le, hw⟩ hi hal
      (by omega) hnew (fun _ _ _ _ _ => rfl) hm64
    have hnone : ∀ j, j < 512 → childTable (slot (linkTable s.mem (t + 8 * i)
        (s.pageTableBase + s.pageTableSize)) (s.pageTableBase + s.pageTableSize) j) = none :=
      fun j hj => by
        rw [linkTable, hempty j hj]
        rfl
    have hleaf : ∀ j, j < 512 → leafEntry (slot (linkTable s.mem (t + 8 * i)
        (s.pageTableBase + s.pageTableSize)) (s.pageTableBase + s.pageTableSize) j) = none :=
      fun j hj => by
        rw [linkTable, hempty j hj]
        rfl
    have hfit : s.pageTableBase + s.pageTableSize + tableSize ≤ 2 ^ 64 := by omega
    refine ⟨_, _, hrun, ⟨h.tree.hang hp hlen hw hfree hslots hchild hnone ⟨hal, hfit⟩ hnew,
      fun t' ht' => ?_, ?_, ?_⟩, ?_, fun q j hq hql hj => ?_⟩
    · change t' + tableSize ≤ s.pageTableBase + (s.pageTableSize + tableSize)
      rcases h.tree.isTable_hang hp hlen hw hfree hslots hchild hnone ht' with rfl | ht
      · omega
      · have := h.below t' ht
        omega
    · change (s.pageTableBase + (s.pageTableSize + tableSize)) % tableSize = 0
      rw [← Nat.add_assoc, Nat.add_mod_right, hal]
    · change s.pageTableBase + (s.pageTableSize + tableSize) ≤ 2 ^ 48
      omega
    · have hwalk := h.tree.walk_hang hp hlen hw hfree hslots hchild hnone
        (isPath_concat.mpr ⟨hp, hi⟩) (by rw [List.length_append, List.length_singleton]; omega)
      rwa [if_pos rfl] at hwalk
    · exact h.tree.hang_entryAt hp hlen hw hfree hslots hchild hnone hleaf hq hql hj
  · refine ⟨_, _, nextTable_old he, h, ?_, fun _ _ _ _ _ => rfl⟩
    rw [walk_concat, hw, Option.bind_some]
    exact if_neg he

/-- One level down, at the entry an address selects. -/
theorem nextTable_entry {shift : Nat} (h : BootTree s root) (hp : IsPath p)
    (hlen : p.length < 3) (hw : walk childTable s.mem p root = some t)
    (hlow : AllLow (__nextTable (entryAddr t virt shift) s).2.pages) :
    ∃ t' s', __nextTable (entryAddr t virt shift) s = (t', s') ∧ BootTree s' root ∧
      walk childTable s'.mem (p ++ [virt / 2 ^ shift % 512]) root = some t' ∧
      ∀ q j, IsPath q → q.length = 3 → j < 512 →
        entryAt childTable leafEntry s'.mem root q j
          = entryAt childTable leafEntry s.mem root q j := by
  rw [entryAddr_eq (h.tree.page hp hlen.le hw).2] at hlow ⊢
  exact nextTable_spec h hp hlen hw (Nat.mod_lt _ (by decide)) hlow

theorem bind_eq {α β : Type} {x : Boot α} {f : α → Boot β} {a : α} (h : x s = (a, s')) :
    (x >>= f) s = f a s' := by
  rw [bind_apply, h]

/-! ## Pages and chunks -/

/-- `__do_mapping` sets the entry of one page. -/
theorem doMapping_entry {phy flag : Nat} (h : BootTree s root)
    (hlt : __mkEntry phy flag < 2 ^ 64) (hlow : AllLow (__doMapping root virt phy flag s).2.pages) :
    ∃ s', __doMapping root virt phy flag s = ((), s') ∧ BootTree s' root ∧
      ∀ v, translate s'.mem root v
        = if pageNumber v = pageNumber virt then leafEntry (__mkEntry phy flag)
          else translate s.mem root v := by
  have hpath := isPath_tablePath virt
  have hgrows : ∀ pte, Grows (write (entryAddr pte virt 12) (__mkEntry phy flag)) :=
    fun _ _ => List.prefix_rfl
  unfold __doMapping at hlow ⊢
  obtain ⟨pdpte, s1, h1, htree1, hw1, hl1⟩ := nextTable_entry h (hpath.take List.nil_prefix)
    (by simp) rfl (hlow.ofPrefix (grows_bind (grows_nextTable _) (fun _ =>
      grows_bind (grows_nextTable _) fun pte => hgrows pte) _))
  rw [bind_eq h1] at hlow ⊢
  obtain ⟨pde, s2, h2, htree2, hw2, hl2⟩ := nextTable_entry htree1 (hpath.take ⟨_, rfl⟩)
    (by simp) hw1 (hlow.ofPrefix (grows_bind (grows_nextTable _) (fun pte => hgrows pte) _))
  rw [bind_eq h2] at hlow ⊢
  obtain ⟨pte, s3, h3, htree3, hw3, hl3⟩ := nextTable_entry htree2 (hpath.take ⟨_, rfl⟩)
    (by simp) hw2 (hlow.ofPrefix List.prefix_rfl)
  have hw : walk childTable s3.mem (tablePath virt) root = some pte := hw3
  have haddr : entryAddr pte virt 12 = pte + 8 * leafIndex virt :=
    entryAddr_eq (htree3.tree.page hpath le_rfl hw).2
  have hi : leafIndex virt < 512 := Nat.mod_lt _ (by decide)
  have hslots : TableTree.OnlySlot childTable s3.mem
      (s3.mem.store64 (pte + 8 * leafIndex virt) (__mkEntry phy flag)) root 3 pte (leafIndex virt)
      (__mkEntry phy flag) := by
    rintro t' ⟨q, hq, hql, hwq⟩ j hj
    exact slot_store (htree3.tree.page hpath le_rfl hw).1 (htree3.tree.page hq hql hwq).1 hi hj hlt
  rw [bind_eq h3]
  refine ⟨_, rfl, ⟨?_, ?_, htree3.aligned, htree3.low⟩, fun v => ?_⟩
  · rw [haddr]
    exact htree3.tree.setLeaf hpath rfl hw hslots
  · rw [haddr]
    rintro t ⟨q, hq, hql, hwq⟩
    refine htree3.below t ⟨q, hq, hql, ?_⟩
    rwa [← htree3.tree.walk_setLeaf hpath rfl hw hslots hq hql]
  · have hpv := isPath_tablePath v
    have hj : leafIndex v < 512 := Nat.mod_lt _ (by decide)
    rw [haddr]
    refine (htree3.tree.setLeaf_entryAt hpath rfl hw hslots hpv rfl hj).trans ?_
    rw [hl3 _ _ hpv rfl hj, hl2 _ _ hpv rfl hj, hl1 _ _ hpv rfl hj]
    exact ite_congr (propext (pageNumber_eq_iff v virt).symm) (fun _ => rfl) fun _ => rfl

end Raincloud.InitMmMap
