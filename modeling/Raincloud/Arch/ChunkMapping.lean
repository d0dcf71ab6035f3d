import Raincloud.Arch.Mapping

/-!
# `modify_chunk_mapping`

The loops over the pages of a chunk: mapping sets their translations and no others, and the
validation that follows finds what it looks for.
-/

set_option linter.style.nameCheck false

namespace Raincloud

open Infra Paging

variable {root virt phy flag n : Nat} {s : PagingState} {pageAlloc : Mem → Nat × Mem}

/-- The page `i` pages on, round the 2^36 pages there are. -/
theorem pageNumber_add64 (virt i : Nat) :
    pageNumber (add64 virt (i * 4096)) = (pageNumber virt + i) % 2 ^ 36 := by
  simp only [pageNumber, add64]
  omega

theorem pageNumber_lt (v : Nat) : pageNumber v < 2 ^ 36 := Nat.mod_lt _ (by decide)

/-- The pages of a chunk that is to be mapped. -/
structure MappableChunk (phy n flag : Nat) : Prop where
  aligned : phy % 4096 = 0
  low : phy + n * 4096 ≤ 2 ^ 48
  count : n ≤ 2 ^ 36
  present : flag &&& pagingMaskP ≠ 0
  flags : flag &&& pagingMaskFlag = flag

theorem MappableChunk.head (h : MappableChunk phy (n + 1) flag) : Mappable phy flag := by
  have hlow := h.low
  exact ⟨h.aligned, by omega, h.present, h.flags⟩

theorem MappableChunk.tail (h : MappableChunk phy (n + 1) flag) :
    add64 phy 0x1000 = phy + 4096 ∧ MappableChunk (phy + 4096) n flag := by
  have hal := h.aligned
  have hlow := h.low
  have hcount := h.count
  exact ⟨add64_eq (by omega), by omega, by omega, by omega, h.present, h.flags⟩

theorem chunk_succ (phy i : Nat) : phy + 4096 + i * 4096 = phy + (i + 1) * 4096 := by
  rw [Nat.add_mul, Nat.one_mul]
  omega

/-- The loop of `__map_by_pages`. -/
theorem mapByPages_spec (h : PageTree s.mem root) (hc : MappableChunk phy n flag)
    (hfresh : AllFresh root (__mapByPages pageAlloc root flag n virt phy s).2.calls) :
    ∃ s', __mapByPages pageAlloc root flag n virt phy s = (some (), s') ∧ PageTree s'.mem root ∧
      (∀ i, i < n → ∀ v, pageNumber v = (pageNumber virt + i) % 2 ^ 36 →
        translate s'.mem root v = some (phy + i * 4096, flag)) ∧
      ∀ v, (∀ i, i < n → pageNumber v ≠ (pageNumber virt + i) % 2 ^ 36) →
        translate s'.mem root v = translate s.mem root v := by
  induction n generalizing virt phy s with
  | zero => exact ⟨s, rfl, h, fun i hi => absurd hi (Nat.not_lt_zero i), fun _ _ => rfl⟩
  | succ n ih =>
    obtain ⟨hphy, hc'⟩ := hc.tail
    have hcount := hc.count
    rw [__mapByPages] at hfresh ⊢
    obtain ⟨s1, h1, htree1, htrans1⟩ := doMapping_spec h hc.head
      (hfresh.ofAppend (calls_bind (fun _ => grows_mapByPages root flag n _ _) s))
    rw [bind_eq h1, hphy] at hfresh ⊢
    obtain ⟨s', h', htree', hin, hout⟩ := ih htree1 hc' hfresh
    have hnext : pageNumber (add64 virt 0x1000) = (pageNumber virt + 1) % 2 ^ 36 :=
      pageNumber_add64 virt 1
    have hlt := pageNumber_lt virt
    refine ⟨s', h', htree', fun i hi v hv => ?_, fun v hv => ?_⟩
    · cases i with
      | zero =>
        -- the first page is not mapped again: the chunk does not go round to it
        have hv0 : pageNumber v = pageNumber virt := by omega
        rw [hout v fun k hk => by rw [hnext]; omega, htrans1, if_pos hv0]
        simp
      | succ i =>
        rw [hin i (by omega) v (by rw [hnext]; omega), chunk_succ]
    · have hv0 := hv 0 (by omega)
      rw [hout v fun k hk => ?_, htrans1, if_neg (by omega)]
      have := hv (k + 1) (by omega)
      rw [hnext]
      omega

/-- The loop of `__validate_mapping` passes when every page has its translation. -/
theorem validateMapping_eq (h : PageTree s.mem root) (hc : MappableChunk phy n flag)
    (htrans : ∀ i, i < n → ∀ v, pageNumber v = (pageNumber virt + i) % 2 ^ 36 →
      translate s.mem root v = some (phy + i * 4096, flag)) :
    __validateMapping root flag n virt phy s = (some (), s) := by
  induction n generalizing virt phy with
  | zero => rfl
  | succ n ih =>
    obtain ⟨hphy, hc'⟩ := hc.tail
    have hlt := pageNumber_lt virt
    have hnext : pageNumber (add64 virt 0x1000) = (pageNumber virt + 1) % 2 ^ 36 :=
      pageNumber_add64 virt 1
    have h0 := htrans 0 (by omega) virt (by omega)
    have hq : __queryMapping root virt s = (some (some (phy, flag)), s) := by
      have := queryMapping_eq h virt
      rw [h0, Nat.zero_mul, Nat.add_zero] at this
      exact this
    rw [__validateMapping, bind_eq hq, if_pos rfl, hphy]
    refine ih hc' fun i hi v hv => ?_
    rw [htrans (i + 1) (by omega) v (by rw [hnext] at hv; omega), chunk_succ]

theorem silent_queryTable (entry : Nat) : Silent (__queryTable entry) := by
  refine silent_bind (fun _ => rfl) fun e => ?_
  split
  · exact fun _ => rfl
  · exact silent_bind (fun _ => rfl) fun _ _ => rfl

theorem silent_queryMapping (plm4e virt : Nat) : Silent (__queryMapping plm4e virt) := by
  refine silent_bind (silent_queryTable _) fun pdpte => ?_
  cases pdpte with
  | none => exact fun _ => rfl
  | some pdpte =>
    refine silent_bind (silent_queryTable _) fun pde => ?_
    cases pde with
    | none => exact fun _ => rfl
    | some pde =>
      refine silent_bind (silent_queryTable _) fun pte => ?_
      cases pte with
      | none => exact fun _ => rfl
      | some pte =>
        refine silent_bind (fun _ => rfl) fun e => ?_
        split <;> exact fun _ => rfl

theorem silent_validateMapping (plm4e flag : Nat) : ∀ n virt phy,
    Silent (__validateMapping plm4e flag n virt phy)
  | 0, _, _ => fun _ => rfl
  | n + 1, _, _ => by
    refine silent_bind (silent_queryMapping _ _) fun r => ?_
    split
    · exact silent_validateMapping plm4e flag n _ _
    · exact fun _ => rfl

/-- Only the mapping calls `page_alloc`. -/
theorem modifyChunkMapping_calls (s : PagingState) :
    (modifyChunkMapping pageAlloc root virt phy n flag s).2.calls
      = (__mapByPages pageAlloc root flag n virt phy s).2.calls :=
  calls_bind_silent (fun _ => silent_bind (silent_validateMapping _ _ _ _ _) fun _ _ => rfl) s

/-- What `modify_chunk_mapping` does to the translation. -/
theorem modifyChunkMapping_translate (h : PageTree s.mem root) (hc : MappableChunk phy n flag)
    (hfresh : AllFresh root (modifyChunkMapping pageAlloc root virt phy n flag s).2.calls) :
    ∃ s', modifyChunkMapping pageAlloc root virt phy n flag s = (some 0, s') ∧
      PageTree s'.mem root ∧
      (∀ i, i < n → ∀ v, pageNumber v = (pageNumber virt + i) % 2 ^ 36 →
        translate s'.mem root v = some (phy + i * 4096, flag)) ∧
      ∀ v, (∀ i, i < n → pageNumber v ≠ (pageNumber virt + i) % 2 ^ 36) →
        translate s'.mem root v = translate s.mem root v := by
  rw [modifyChunkMapping_calls] at hfresh
  unfold modifyChunkMapping
  obtain ⟨s', h', htree', hin, hout⟩ := mapByPages_spec h hc hfresh
  have hval := validateMapping_eq htree' hc hin
  exact ⟨s', by rw [bind_eq h', bind_eq hval]; rfl, htree', hin, hout⟩

/--
`modify_chunk_mapping` on a tree of distinct tables, with fresh pages for new ones: it returns,
and afterwards `query_mapping` gives every page of the chunk its place in the physical range
and the flags, and every other page what it gave before. The tree is one of distinct tables.
-/
theorem modifyChunkMapping_spec {m : Mem} (h : PageTree m root)
    (hphy : phy % 4096 = 0) (hlow : phy + n * 4096 ≤ 2 ^ 48)
    (hcount : n ≤ 2 ^ 36) (hpresent : flag &&& pagingMaskP ≠ 0)
    (hflag : flag &&& pagingMaskFlag = flag)
    (hfresh : AllFresh root
      (modifyChunkMapping pageAlloc root virt phy n flag ⟨m, []⟩).2.calls) :
    ∃ s, modifyChunkMapping pageAlloc root virt phy n flag ⟨m, []⟩ = (some 0, s) ∧
      PageTree s.mem root ∧
      (∀ i, i < n → queryMapping root (add64 virt (i * 4096)) s
        = (some (some (phy + i * 4096, flag)), s)) ∧
      ∀ v, (∀ i, i < n → pageNumber v ≠ pageNumber (add64 virt (i * 4096))) →
        (queryMapping root v s).1 = (queryMapping root v ⟨m, []⟩).1 := by
  obtain ⟨s, hrun, htree, hin, hout⟩ := modifyChunkMapping_translate (s := ⟨m, []⟩) h
    ⟨hphy, hlow, hcount, hpresent, hflag⟩ hfresh
  refine ⟨s, hrun, htree, fun i hi => ?_, fun v hv => ?_⟩
  · rw [queryMapping_eq htree, hin i hi _ (pageNumber_add64 virt i)]
  · rw [queryMapping_eq htree, queryMapping_eq (s := ⟨m, []⟩) h, hout v fun i hi => ?_]
    rw [← pageNumber_add64]
    exact hv i hi

/-! ## A first page in an empty tree -/

/-- A root without entries, in memory that is all zero. -/
def emptyRoot : Nat := phyMapBase + 0x1000

/-- Three pages in a row, one for each level that is still missing. -/
def threePages (m : Mem) : Nat × Mem :=
  if m.load64 emptyRoot = 0 then (0x2000, m)
  else if m.load64 (phyMapBase + 0x2000) = defaultEmptyFlag then (0x3000, m)
  else (0x4000, m)

/-- A page that is none of the tables `ts`, hung on a tree whose tables are among them. -/
theorem hangTable_fresh {m : Mem} {t i : Nat} {p ts : List Nat} (page : Nat)
    (h : PageTree m root)
    (hts : ∀ t, IsTable childTable m root 3 t → t ∈ ts) (hp : IsPath p) (hlen : p.length < 3)
    (hw : walk childTable m p root = some t) (hi : i < 512)
    (he : slot m t i &&& pagingMaskP = 0) (hal : page % 4096 = 0) (hne : page ≠ 0)
    (hlt : page < 2 ^ 47) (hnew : page + phyMapBase ∉ ts) :
    FreshPage root ⟨m, page, m⟩ ∧ PageTree (hangTable m t i page) root ∧
      (∀ t', IsTable childTable (hangTable m t i page) root 3 t' →
        t' ∈ (page + phyMapBase) :: ts) ∧
      walk childTable (hangTable m t i page) (p ++ [i]) root = some (page + phyMapBase) := by
  have hc : FreshPage root ⟨m, page, m⟩ :=
    ⟨hal, hne, hlt, fun ht => hnew (hts _ ht), fun _ _ _ _ _ => rfl⟩
  have hung := hangTable_hung h hc hp hlen hw hi he
  refine ⟨hc, hung.tree, fun t' ht' => ?_, hung.walk⟩
  rcases hung.tables t' ht' with rfl | ht
  · exact List.mem_cons_self ..
  · exact List.mem_cons_of_mem _ (hts t' ht)

/-- Memory of zeros has no entries. -/
theorem emptyRoot_entry (i : Nat) : childTable (slot (fun _ => 0) emptyRoot i) = none := by
  have hz : slot (fun _ => 0) emptyRoot i = 0 := by
    unfold slot Mem.load64
    simp [Mem.load]
  rw [hz]
  rfl

/-- Mapping page 0 to physical page 0x5000 in an empty tree takes three new tables. -/
theorem threePages_fresh : AllFresh emptyRoot
    (__mapByPages threePages emptyRoot 0x7 1 0 0x5000 ⟨fun _ => 0, []⟩).2.calls := by
  have hz : ∀ a, Mem.load64 (fun _ => 0) a = 0 := fun a => by
    unfold Mem.load64
    simp [Mem.load]
  obtain ⟨h0, ht0⟩ : PageTree (fun _ => 0) emptyRoot ∧
      ∀ t, IsTable childTable (fun _ => 0) emptyRoot 3 t → t = emptyRoot :=
    tableTree_single (by decide) fun i _ => by rw [slot, hz]; decide
  -- the root has no entry, then neither has the first new table, then neither has the second
  obtain ⟨m1, hm1⟩ : ∃ m1, m1 = hangTable (fun _ => 0) emptyRoot 0 0x2000 := ⟨_, rfl⟩
  obtain ⟨c1, h1, ht1, hw1⟩ := hangTable_fresh (p := []) (i := 0) 0x2000 h0
    (fun t ht => List.mem_singleton.mpr (ht0 t ht)) (by simp [IsPath]) (by simp) rfl (by decide)
    (by rw [slot, hz]; decide) (by decide) (by decide) (by decide) (by decide)
  have e1 : slot m1 (0x2000 + phyMapBase) 0 &&& pagingMaskP = 0 := by
    rw [hm1]
    decide +kernel
  have a1 : threePages m1 = (0x3000, m1) := by
    unfold threePages
    rw [if_neg (by rw [hm1]; decide +kernel), if_pos (by rw [hm1]; decide +kernel)]
  rw [← hm1] at h1 ht1 hw1
  obtain ⟨m2, hm2⟩ : ∃ m2, m2 = hangTable m1 (0x2000 + phyMapBase) 0 0x3000 := ⟨_, rfl⟩
  obtain ⟨c2, h2, ht2, hw2⟩ := hangTable_fresh (i := 0) 0x3000 h1 ht1 (by simp [IsPath])
    (by simp) hw1 (by decide) e1 (by decide) (by decide) (by decide) (by decide)
  have e2 : slot m2 (0x3000 + phyMapBase) 0 &&& pagingMaskP = 0 := by
    rw [hm2, hm1]
    decide +kernel
  have a2 : threePages m2 = (0x4000, m2) := by
    unfold threePages
    rw [if_neg (by rw [hm2, hm1]; decide +kernel), if_neg (by rw [hm2, hm1]; decide +kernel)]
  rw [← hm2] at h2 ht2 hw2
  obtain ⟨c3, -, -, -⟩ := hangTable_fresh (i := 0) 0x4000 h2 ht2 (by simp [IsPath])
    (by simp) hw2 (by decide) e2 (by decide) (by decide) (by decide) (by decide)
  have hcalls : (__mapByPages threePages emptyRoot 0x7 1 0 0x5000 ⟨fun _ => 0, []⟩).2.calls
      = [⟨fun _ => 0, 0x2000, fun _ => 0⟩, ⟨m1, 0x3000, m1⟩, ⟨m2, 0x4000, m2⟩] := by
    have a0 : threePages (fun _ => 0) = (0x2000, fun _ => 0) := by
      unfold threePages
      rw [if_pos (hz _)]
    have r1 : __nextTable threePages (emptyRoot + 8 * 0) ⟨fun _ => 0, []⟩
        = (some (0x2000 + phyMapBase), ⟨m1, [⟨fun _ => 0, 0x2000, fun _ => 0⟩]⟩) := by
      rw [hm1]
      exact nextTable_new (by rw [slot, hz]; decide) a0 c1
    have r2 : __nextTable threePages (0x2000 + phyMapBase + 8 * 0)
          ⟨m1, [⟨fun _ => 0, 0x2000, fun _ => 0⟩]⟩
        = (some (0x3000 + phyMapBase),
          ⟨m2, [⟨fun _ => 0, 0x2000, fun _ => 0⟩, ⟨m1, 0x3000, m1⟩]⟩) := by
      rw [hm2]
      exact nextTable_new e1 a1 c2
    have r3 := nextTable_new (s := ⟨m2, [⟨fun _ => 0, 0x2000, fun _ => 0⟩, ⟨m1, 0x3000, m1⟩]⟩)
      e2 a2 c3
    rw [__mapByPages, calls_bind_silent (fun _ _ => rfl), __doMapping]
    have ea : ∀ t, t + tableSize ≤ 2 ^ 64 → ∀ k, entryAddr t 0 k = t + 8 * 0 := by
      intro t ht k
      rw [entryAddr_eq ht]
      simp
    rw [ea _ (by decide), bind_eq r1, ea _ (by decide), bind_eq r2, ea _ (by decide), bind_eq r3]
    rfl
  rw [hcalls]
  intro c hc
  simp only [List.mem_cons, List.not_mem_nil, or_false] at hc
  rcases hc with rfl | rfl | rfl
  · exact c1
  · exact c2
  · exact c3

theorem modifyChunkMapping_spec_first :
    ∃ s, modifyChunkMapping threePages emptyRoot 0 0x5000 1 0x7 ⟨fun _ => 0, []⟩ = (some 0, s) ∧
      queryMapping emptyRoot 0 s = (some (some (0x5000, 0x7)), s) := by
  have htree : PageTree (fun _ => 0) emptyRoot :=
    (tableTree_single (by decide) fun i _ => emptyRoot_entry i).1
  have hfresh : AllFresh emptyRoot
      (modifyChunkMapping threePages emptyRoot 0 0x5000 1 0x7 ⟨fun _ => 0, []⟩).2.calls := by
    rw [modifyChunkMapping_calls]
    exact threePages_fresh
  obtain ⟨s, hrun, -, hin, -⟩ := modifyChunkMapping_spec htree (by decide) (by decide) (by decide)
    (by decide) (by decide) hfresh
  exact ⟨s, hrun, hin 0 (by decide)⟩

end Raincloud
