import Raincloud.Arch.InitAgree

/-!
# Chunks of any size and place

A chunk may wrap round the 2^36 pages there are, and its physical addresses may not fit in an
entry. Whatever it asks for: the pages outside it keep their translations, and when
`modify_chunk_mapping` returns, its validation has found each page of the chunk as requested.
-/

set_option linter.style.nameCheck false

namespace Raincloud

open Infra Paging

variable {root virt phy flag n r v w : Nat} {s s' : PagingState} {pageAlloc : Mem → Nat × Mem}
  {tr : Nat → Option (Nat × Nat)}

/-- How many pages on from `virt` the page of `v` lies, round the 2^36 pages there are. -/
def pageOffset (virt v : Nat) : Nat := (pageNumber v + 2 ^ 36 - pageNumber virt) % 2 ^ 36

theorem pageNumber_add_pageOffset (virt v : Nat) :
    pageNumber v = (pageNumber virt + pageOffset virt v) % 2 ^ 36 := by
  have hv := pageNumber_lt v
  have hvirt := pageNumber_lt virt
  unfold pageOffset
  omega

theorem pageOffset_eq_zero (h : pageNumber v = pageNumber virt) : pageOffset virt v = 0 := by
  have hvirt := pageNumber_lt virt
  unfold pageOffset
  omega

/-- One page on, the offset is one less. -/
theorem pageOffset_succ (h : pageNumber v ≠ pageNumber virt) :
    pageOffset virt v = pageOffset (add64 virt 0x1000) v + 1 := by
  have hv := pageNumber_lt v
  have hvirt := pageNumber_lt virt
  have hnext : pageNumber (add64 virt 0x1000) = (pageNumber virt + 1) % 2 ^ 36 :=
    pageNumber_add64 virt 1
  unfold pageOffset
  rw [hnext]
  omega

/-- A translation is one of a page. -/
theorem translate_congr {m : Mem} (h : pageNumber v = pageNumber w) :
    translate m root v = translate m root w := by
  obtain ⟨hpath, hleaf⟩ := (pageNumber_eq_iff v w).mp h
  rw [translate, translate, hpath, hleaf]

/-- The pages outside a chunk keep their translations. -/
theorem mapPages_outside (h : n ≤ pageOffset virt v) : mapPages flag n virt phy tr v = tr v := by
  induction n generalizing virt phy tr with
  | zero => rfl
  | succ n ih =>
    have hne : pageNumber v ≠ pageNumber virt := fun he => by
      rw [pageOffset_eq_zero he] at h
      exact absurd h (Nat.not_succ_le_zero n)
    rw [pageOffset_succ hne] at h
    rw [mapPages, ih (Nat.le_of_succ_le_succ h), if_neg hne]

/-- The pages of a chunk whose entries can say what it asks for. -/
theorem mapPages_inside (hc : MappableChunk phy n flag) (h : pageOffset virt v < n) :
    mapPages flag n virt phy tr v = some (phy + pageOffset virt v * 4096, flag) := by
  induction n generalizing virt phy tr with
  | zero => exact absurd h (Nat.not_lt_zero _)
  | succ n ih =>
    obtain ⟨hphy, hc'⟩ := hc.tail
    rw [mapPages, hphy]
    by_cases he : pageNumber v = pageNumber virt
    · -- the rest of the chunk does not go round to its first page
      have hback : n ≤ pageOffset (add64 virt 0x1000) v := by
        have hcount := hc.count
        have hvirt := pageNumber_lt virt
        have hnext : pageNumber (add64 virt 0x1000) = (pageNumber virt + 1) % 2 ^ 36 :=
          pageNumber_add64 virt 1
        unfold pageOffset
        rw [hnext, he]
        omega
      rw [mapPages_outside hback, if_pos he, hc.head.leafEntry, pageOffset_eq_zero he,
        Nat.zero_mul, Nat.add_zero]
    · rw [pageOffset_succ he] at h ⊢
      rw [ih hc' (Nat.lt_of_succ_lt_succ h), chunk_succ]

/-- A chunk that does not wrap round. -/
theorem pageOffset_lt_iff (h : pageNumber virt + n ≤ 2 ^ 36) : pageOffset virt v < n ↔
    pageNumber virt ≤ pageNumber v ∧ pageNumber v < pageNumber virt + n := by
  have hv := pageNumber_lt v
  have hvirt := pageNumber_lt virt
  unfold pageOffset
  omega

/-! ## Several chunks -/

/-- The page of `v` is one of the chunk's. -/
def ChunkRequest.Covers (r : ChunkRequest) (v : Nat) : Prop := pageOffset r.virt v < r.pages

/-- Entries can say what the chunk asks for. -/
def ChunkRequest.Mappable (r : ChunkRequest) : Prop := MappableChunk r.phy r.pages r.flag

/-- Two chunks without a common page. -/
def ChunkRequest.Apart (r r' : ChunkRequest) : Prop := ∀ v, r.Covers v → ¬r'.Covers v

/-- What a chunk asks for at a page. -/
def ChunkRequest.target (r : ChunkRequest) (v : Nat) : Nat × Nat :=
  (r.phy + pageOffset r.virt v * 4096, r.flag)

section Chunks

variable {c : ChunkRequest} {cs : List ChunkRequest}

theorem mapChunks_outside (h : ∀ c ∈ cs, ¬c.Covers v) : mapChunks cs tr v = tr v := by
  induction cs generalizing tr with
  | nil => rfl
  | cons c cs ih =>
    rw [mapChunks, List.foldl_cons, ← mapChunks]
    rw [ih fun c' hc' => h c' (List.mem_cons_of_mem _ hc'),
      mapPages_outside (Nat.not_lt.mp (h c List.mem_cons_self))]

/-- A chunk keeps its pages when those after it have others. -/
theorem mapChunks_cons (hc : c.Mappable) (hv : c.Covers v) (h : ∀ c' ∈ cs, ¬c'.Covers v) :
    mapChunks (c :: cs) tr v = some (c.target v) := by
  rw [mapChunks, List.foldl_cons, ← mapChunks, mapChunks_outside h]
  exact mapPages_inside hc hv

/-- Chunks without common pages do not clobber each other. -/
theorem mapChunks_inside (hmap : ∀ c ∈ cs, c.Mappable) (hapart : cs.Pairwise ChunkRequest.Apart)
    (hc : c ∈ cs) (hv : c.Covers v) : mapChunks cs tr v = some (c.target v) := by
  induction cs generalizing tr with
  | nil => exact absurd hc List.not_mem_nil
  | cons d cs ih =>
    obtain ⟨hd, hcs⟩ := List.pairwise_cons.mp hapart
    rcases List.mem_cons.mp hc with rfl | hc
    · exact mapChunks_cons (hmap c List.mem_cons_self) hv fun c' hc' => hd c' hc' v hv
    · rw [mapChunks, List.foldl_cons, ← mapChunks]
      exact ih (fun c' hc' => hmap c' (List.mem_cons_of_mem _ hc')) hcs hc

end Chunks

/-! ## The validation -/

/-- A physical address that comes out of an entry. -/
theorem translate_low {m : Mem} {a f : Nat} (h : translate m root v = some (a, f)) :
    a < 2 ^ 48 := by
  obtain ⟨t, -, hleaf⟩ := Option.bind_eq_some_iff.mp h
  unfold leafEntry at hleaf
  split at hleaf
  · cases hleaf
  · obtain ⟨rfl, -⟩ := Prod.mk.inj (Option.some.inj hleaf)
    exact Nat.lt_of_le_of_lt Nat.and_le_right (by decide)

/-- What the validation has found when it returns. -/
theorem validateMapping_ok {u : Unit} (h : PageTree s.mem root)
    (hrun : __validateMapping root flag n virt phy s = (some u, s')) :
    s' = s ∧ ∀ i < n, ∀ v, pageNumber v = (pageNumber virt + i) % 2 ^ 36 →
      translate s.mem root v = some (add64 phy (i * 4096), flag) := by
  induction n generalizing virt phy with
  | zero =>
    cases hrun
    exact ⟨rfl, fun i hi => absurd hi (Nat.not_lt_zero i)⟩
  | succ n ih =>
    have hquery : __queryMapping root virt s = _ := queryMapping_eq h virt
    rw [__validateMapping, bind_eq hquery] at hrun
    split at hrun
    · rename_i hfound
      obtain ⟨rfl, hrest⟩ := ih hrun
      refine ⟨rfl, fun i hi v hv => ?_⟩
      cases i with
      | zero =>
        have hlt := pageNumber_lt virt
        have hlow := translate_low hfound
        rw [translate_congr (show pageNumber v = pageNumber virt by omega), hfound, Nat.zero_mul,
          add64_eq (by omega), Nat.add_zero]
      | succ i =>
        have hnext : pageNumber (add64 virt 0x1000) = (pageNumber virt + 1) % 2 ^ 36 :=
          pageNumber_add64 virt 1
        have hphy : add64 (add64 phy 0x1000) (i * 4096) = add64 phy ((i + 1) * 4096) := by
          simp only [add64]
          omega
        rw [hrest i (by omega) v (by rw [hnext]; omega), hphy]
    · cases hrun

/-- A sequence that does not halt: neither part does. -/
theorem bind_some {α β : Type} {x : Paging α} {f : α → Paging β} {b : β}
    (h : (x >>= f) s = (some b, s')) : ∃ a s₁, x s = (some a, s₁) ∧ f a s₁ = (some b, s') := by
  rw [bind_apply] at h
  split at h
  · exact ⟨_, _, ‹_›, h⟩
  · cases h

theorem modifyChunkMapping_grows {o : Option Nat}
    (hrun : modifyChunkMapping pageAlloc root virt phy n flag s = (o, s')) :
    s.calls <+: s'.calls := by
  have hcalls : (modifyChunkMapping pageAlloc root virt phy n flag s).2.calls
      = (__mapByPages pageAlloc root flag n virt phy s).2.calls := modifyChunkMapping_calls s
  rw [hrun] at hcalls
  rw [hcalls]
  exact grows_mapByPages root flag n virt phy s

/-- `modify_chunk_mapping`, when it returns. -/
theorem modifyChunkMapping_ok (hflag : flag < 2 ^ 64) (h : PageTree s.mem root)
    (hrun : modifyChunkMapping pageAlloc root virt phy n flag s = (some r, s'))
    (hfresh : AllFresh root s'.calls) :
    PageTree s'.mem root ∧ ∀ v, translate s'.mem root v =
      if pageOffset virt v < n then some (add64 phy (pageOffset virt v * 4096), flag)
      else translate s.mem root v := by
  have hcalls : (modifyChunkMapping pageAlloc root virt phy n flag s).2.calls
      = (__mapByPages pageAlloc root flag n virt phy s).2.calls := modifyChunkMapping_calls s
  rw [hrun] at hcalls
  rw [hcalls] at hfresh
  obtain ⟨s₁, hmap, htree, htrans⟩ := mapByPages_entries hflag h hfresh
  rw [modifyChunkMapping, bind_eq hmap] at hrun
  obtain ⟨u, s₂, hval, hret⟩ := bind_some hrun
  cases hret
  obtain ⟨rfl, hin⟩ := validateMapping_ok htree hval
  refine ⟨htree, fun v => ?_⟩
  split
  · rename_i hlt
    exact hin _ hlt v (pageNumber_add_pageOffset virt v)
  · rename_i hlt
    rw [htrans, mapPages_outside (Nat.not_lt.mp hlt)]

/-! ## Tables without pages -/

/-- The tables for the pages with the index `i` on each level, at 0x2000, 0x3000 and 0x4000. -/
def tablesAt (i : Nat) : Mem :=
  let pdpt := Mem.store64 (fun _ => 0) (emptyRoot + 8 * i) (__mkEntry 0x2000 defaultPtFlag)
  let pd := pdpt.store64 (0x2000 + phyMapBase + 8 * i) (__mkEntry 0x3000 defaultPtFlag)
  pd.store64 (0x3000 + phyMapBase + 8 * i) (__mkEntry 0x4000 defaultPtFlag)

/-- A tree with the tables `ts` and no pages. The table `t` at the end of `p` has no entries. -/
structure BareTree (m : Mem) (p : List Nat) (t : Nat) (ts : List Nat) : Prop where
  tree : PageTree m emptyRoot
  walk : walk childTable m p emptyRoot = some t
  free : ∀ j, j < 512 → slot m t j &&& pagingMaskP = 0
  tables : ∀ t, IsTable childTable m emptyRoot 3 t → t ∈ ts
  lookup : ∀ q j, IsPath q → q.length = 3 → j < 512 → lookup m emptyRoot q j = none

theorem slot_zero (t j : Nat) : slot (fun _ => 0) t j = 0 := by
  unfold slot Mem.load64
  simp [Mem.load]

theorem bareTree_empty : BareTree (fun _ => 0) [] emptyRoot [emptyRoot] := by
  obtain ⟨htree, htables⟩ : PageTree (fun _ => 0) emptyRoot ∧
      ∀ t, IsTable childTable (fun _ => 0) emptyRoot 3 t → t = emptyRoot :=
    tableTree_single (by decide) fun i _ => emptyRoot_entry i
  refine ⟨htree, rfl, fun j _ => by rw [slot_zero]; decide, fun t ht => List.mem_singleton.mpr
    (htables t ht), fun q j _ hlen _ => ?_⟩
  cases q with
  | nil => cases hlen
  | cons i q =>
    rw [Raincloud.lookup, Infra.walk, emptyRoot_entry]
    rfl

/-- One more table, in a page that is all zero. -/
theorem BareTree.hang {m : Mem} {p ts : List Nat} {t i : Nat} (h : BareTree m p t ts) (page : Nat)
    (hp : IsPath p) (hlen : p.length < 3) (hi : i < 512)
    (hpage : page % 4096 = 0 ∧ page < 2 ^ 47) (hnew : page + phyMapBase ∉ t :: ts)
    (hzero : ∀ j, j < 512 → slot m (page + phyMapBase) j = 0) :
    BareTree (m.store64 (t + 8 * i) (__mkEntry page defaultPtFlag)) (p ++ [i]) (page + phyMapBase)
      ((page + phyMapBase) :: ts) := by
  obtain ⟨hal, hlt⟩ := hpage
  rw [List.mem_cons, not_or] at hnew
  have hflag : defaultPtFlag &&& pagingMaskFlag = defaultPtFlag := by decide
  obtain ⟨haddr, -, hp', hword⟩ := mkEntry_eq hal (by omega) hflag
  have htal := (h.tree.page hp hlen.le h.walk).1
  have hnal : (page + phyMapBase) % tableSize = 0 := by
    simp only [phyMapBase, tableSize]
    omega
  have hfit : page + phyMapBase + tableSize ≤ 2 ^ 64 := by
    simp only [phyMapBase, tableSize]
    omega
  have hchild : childTable (__mkEntry page defaultPtFlag) = some (page + phyMapBase) := by
    rw [childTable, if_neg (by rw [hp']; decide), haddr, add64_eq (by
      simp only [phyMapBase]
      omega)]
  have hslots : TableTree.OnlySlot childTable m (m.store64 (t + 8 * i) (__mkEntry page defaultPtFlag))
      emptyRoot 3 t i (__mkEntry page defaultPtFlag) := by
    rintro t' ⟨q, hq, hql, hwq⟩ j hj
    exact slot_store htal (h.tree.page hq hql hwq).1 hi hj hword
  have hung := hung_of_slots h.tree hp hlen h.walk hi (h.free i hi) hslots hchild
    (fun j hj => by
      rw [slot_store htal hnal hi hj hword, if_neg fun hn => hnew.1 hn.1, hzero j hj]
      decide)
    ⟨hnal, hfit⟩ fun ht => hnew.2 (h.tables _ ht)
  refine ⟨hung.tree, hung.walk, hung.free, fun t' ht' => ?_, fun q j hq hql hj => ?_⟩
  · rcases hung.tables t' ht' with rfl | ht
    · exact List.mem_cons_self
    · exact List.mem_cons_of_mem _ (h.tables t' ht)
  · rw [hung.lookup q j hq hql hj]
    exact h.lookup q j hq hql hj

/-- They are a tree of distinct tables in which no page is mapped. -/
theorem tablesAt_bare {i : Nat} (hi : i < 512) :
    BareTree (tablesAt i) [i, i, i] (0x4000 + phyMapBase)
      [0x4000 + phyMapBase, 0x3000 + phyMapBase, 0x2000 + phyMapBase, emptyRoot] := by
  have hzero : ∀ {m : Mem} {t t' v : Nat}, t % tableSize = 0 → t' % tableSize = 0 → t' ≠ t →
      v < 2 ^ 64 → (∀ j, j < 512 → slot m t' j = 0) →
      ∀ j, j < 512 → slot (m.store64 (t + 8 * i) v) t' j = 0 :=
    fun htal htal' hne hv hm j hj => by
      rw [slot_store htal htal' hi hj hv, if_neg fun hn => hne hn.1, hm j hj]
  have h1 := bareTree_empty.hang 0x2000 (by simp [IsPath]) (by decide) hi (by decide) (by decide)
    fun j _ => slot_zero _ j
  have hz1 : ∀ page, page = 0x3000 ∨ page = 0x4000 → ∀ j, j < 512 →
      slot (Mem.store64 (fun _ => 0) (emptyRoot + 8 * i) (__mkEntry 0x2000 defaultPtFlag))
        (page + phyMapBase) j = 0 := by
    rintro page (rfl | rfl)
    · exact hzero (by decide) (by decide) (by decide) (by decide) fun j _ => slot_zero _ j
    · exact hzero (by decide) (by decide) (by decide) (by decide) fun j _ => slot_zero _ j
  have h2 := h1.hang 0x3000 (by simp [IsPath, hi]) (by simp) hi (by decide) (by decide)
    (hz1 0x3000 (.inl rfl))
  exact h2.hang 0x4000 (by simp [IsPath, hi]) (by simp) hi (by decide) (by decide)
    (hzero (by decide) (by decide) (by decide) (by decide) (hz1 0x4000 (.inr rfl)))

theorem tablesAt_tree {i : Nat} (hi : i < 512) :
    PageTree (tablesAt i) emptyRoot ∧ ∀ v, translate (tablesAt i) emptyRoot v = none :=
  ⟨(tablesAt_bare hi).tree, fun v =>
    (tablesAt_bare hi).lookup _ _ (isPath_tablePath v) rfl (Nat.mod_lt _ (by decide))⟩

end Raincloud
