import Raincloud.Arch.ChunkEffect
import Raincloud.Arch.PageSource

/-!
# Page tables in pages of the pool

When the tables lie in pages that the allocator has handed out, every page it hands out later is
fresh for a table. Mapping a page then succeeds as long as there are pages for the tables that
are missing, and bytes that belong neither to the allocator nor to a table stay as they are.
-/

set_option linter.style.nameCheck false

namespace Raincloud

open Infra Infra.LinkStore Paging

variable {pageAlloc : Mem → Nat × Mem} {Owns : Nat → Mem → Set Nat → Prop} {m m' m₁ : Mem}
  {F K : Set Nat} {k page root t i virt phy flag : Nat} {p : List Nat} {s s' : PagingState}

theorem mappedOutside_mono {G : Set Nat} (h : G ⊆ F) : mappedOutside F ⊆ mappedOutside G := by
  rintro x ⟨y, hy, hF, rfl⟩
  exact ⟨y, hy, fun hG => hF (h hG), rfl⟩

/-! ## One page after another -/

/-- A call that gives a page out of `F`, after which `k` pages are left. -/
structure GivesPage (Owns : Nat → Mem → Set Nat → Prop) (k : Nat) (m m' : Mem) (F : Set Nat)
    (page : Nat) : Prop where
  aligned : page % 4096 = 0
  nonzero : page ≠ 0
  fits : page + 4096 ≤ phyMapSize
  sub : rangeArea (page, 4096) ⊆ F
  owns : Owns k m' (F \ rangeArea (page, 4096))
  frame : ∀ x ∈ mappedOutside F, m' x = m x

/-- `Owns k m F`: the allocator has the physical bytes `F` to hand out, at least `k` pages. -/
structure PageSupply (pageAlloc : Mem → Nat × Mem) (Owns : Nat → Mem → Set Nat → Prop) :
    Prop where
  take : ∀ {k m F}, Owns (k + 1) m F → GivesPage Owns k m (pageAlloc m).2 F (pageAlloc m).1
  fewer : ∀ {k m F}, Owns (k + 1) m F → Owns k m F
  keep : ∀ {k m m' F}, Owns k m F → Mem.SameOutside (mappedOutside F) m m' → Owns k m' F

/-- The bytes of a page behind the direct map. -/
def pageArea (page : Nat) : Set Nat := Set.Ico (page + phyMapBase) (page + phyMapBase + 4096)

theorem mem_pageArea {x : Nat} (hx : x ∈ pageArea page) :
    ∃ y ∈ rangeArea (page, 4096), x = y + phyMapBase := by
  have h1 : page + phyMapBase ≤ x := hx.1
  have h2 : x < page + phyMapBase + 4096 := hx.2
  exact ⟨x - phyMapBase, ⟨show page ≤ x - phyMapBase by omega,
    show x - phyMapBase < page + 4096 by omega⟩, by omega⟩

theorem GivesPage.area_subset (h : GivesPage Owns k m m' F page) :
    pageArea page ⊆ mappedOutside (F \ rangeArea (page, 4096)) := fun x hx => by
  obtain ⟨y, hy, rfl⟩ := mem_pageArea hx
  have hlt : y < page + 4096 := hy.2
  have hfits := h.fits
  exact ⟨y, by omega, fun hin => hin.2 hy, rfl⟩

theorem GivesPage.area_disjoint (h : GivesPage Owns k m m' F page) :
    Disjoint (mappedOutside F) (pageArea page) := by
  rw [Set.disjoint_left]
  rintro _ ⟨y, -, hF, rfl⟩ hx
  obtain ⟨z, hz, he⟩ := mem_pageArea hx
  obtain rfl : y = z := Nat.add_right_cancel he
  exact hF (h.sub hz)

theorem GivesPage.area_aligned (h : GivesPage Owns k m m' F page) :
    (page + phyMapBase) % tableSize = 0 ∧ page + phyMapBase + tableSize ≤ 2 ^ 64 := by
  have hal := h.aligned
  have hfits := h.fits
  simp only [phyMapSize, phyMapBase, tableSize] at *
  omega

/-! ## Tables beside the pool -/

/--
The tables are a tree, the allocator has none of their bytes, and the bytes `K` are neither the
allocator's nor a table's.
-/
structure TablesApart (Owns : Nat → Mem → Set Nat → Prop) (root : Nat) (K : Set Nat) (k : Nat)
    (m : Mem) (F : Set Nat) : Prop where
  tree : PageTree m root
  owns : Owns k m F
  tables : ∀ t, IsTable childTable m root 3 t → Set.Ico t (t + tableSize) ⊆ mappedOutside F
  kept : K ⊆ mappedOutside F
  apart : ∀ t, IsTable childTable m root 3 t → Disjoint K (Set.Ico t (t + tableSize))

namespace TablesApart

theorem fewer (h : TablesApart Owns root K (k + 1) m F) (hs : PageSupply pageAlloc Owns) :
    TablesApart Owns root K k m F :=
  { h with owns := hs.fewer h.owns }

/-- Bytes outside the tables may be written. -/
theorem write (h : TablesApart Owns root K k m F) (hs : PageSupply pageAlloc Owns)
    (hm : Mem.SameOutside K m m') : TablesApart Owns root K k m' F ∧
      (∀ v, translate m' root v = translate m root v) ∧
      ∀ q, IsPath q → q.length ≤ 3 → walk childTable m' q root = walk childTable m q root := by
  have hsame : ∀ t, IsTable childTable m root 3 t → ∀ i, i < 512 → slot m' t i = slot m t i :=
    fun t ht i hi => slot_congr (fun x h1 h2 =>
      hm x fun hx => Set.disjoint_left.mp (h.apart t ht) hx ⟨h1, h2⟩) hi
  have htable : ∀ t, IsTable childTable m' root 3 t → IsTable childTable m root 3 t :=
    fun t => (isTable_congr hsame).mp
  refine ⟨⟨h.tree.congr hsame, hs.keep h.owns (hm.mono h.kept), fun t ht => h.tables t (htable t ht),
    h.kept, fun t ht => h.apart t (htable t ht)⟩, fun v => ?_, fun q hq hql =>
    walk_congr hsame hq hql⟩
  have hpath := isPath_tablePath v
  unfold translate lookup
  rw [walk_congr hsame hpath le_rfl]
  cases hw : walk childTable m (tablePath v) root with
  | none => rfl
  | some t =>
    have hj : leafIndex v < 512 := Nat.mod_lt _ (by decide)
    rw [Option.bind_some, Option.bind_some, hsame t ⟨_, hpath, le_rfl, hw⟩ _ hj]

/-- A page taken out of the pool for other bytes. -/
theorem take (h : TablesApart Owns root K (k + 1) m F) (hg : GivesPage Owns k m m₁ F page) :
    TablesApart Owns root (pageArea page) k m₁ (F \ rangeArea (page, 4096)) := by
  have hsame : ∀ t, IsTable childTable m root 3 t → ∀ i, i < 512 → slot m₁ t i = slot m t i :=
    fun t ht i hi => slot_congr (fun x h1 h2 => hg.frame x (h.tables t ht ⟨h1, h2⟩)) hi
  have htable : ∀ t, IsTable childTable m₁ root 3 t → IsTable childTable m root 3 t :=
    fun t => (isTable_congr hsame).mp
  exact ⟨h.tree.congr hsame, hg.owns,
    fun t ht => (h.tables t (htable t ht)).trans (mappedOutside_mono Set.sdiff_subset),
    hg.area_subset, fun t ht => (hg.area_disjoint.mono_left (h.tables t (htable t ht))).symm⟩

/-- A page of the pool is fresh for a table. -/
theorem fresh (h : TablesApart Owns root K (k + 1) m F) (hg : GivesPage Owns k m m₁ F page) :
    FreshPage root ⟨m, page, m₁⟩ where
  aligned := hg.aligned
  nonzero := hg.nonzero
  mapped := by
    have hfits := hg.fits
    simp only [phyMapSize] at *
    omega
  new ht := Set.disjoint_left.mp hg.area_disjoint
    (h.tables _ ht ⟨le_rfl, by simp [tableSize]⟩) ⟨le_rfl, by simp⟩
  same t ht x h1 h2 := hg.frame x (h.tables t ht ⟨h1, h2⟩)

/-- What hanging a new table writes to. -/
theorem hangTable_sameOutside (hg : GivesPage Owns k m m₁ F page) (hi : i < 512) :
    Mem.SameOutside (pageArea page ∪ Set.Ico t (t + tableSize)) m₁ (hangTable m₁ t i page) := by
  have hinit := (initTableTo_apply m₁ (e := defaultEmptyFlag) le_rfl hg.area_aligned.2).1
  refine (hinit.mono Set.subset_union_left).store64 fun x hx => .inr ?_
  have h1 := hx.1
  have h2 := hx.2
  simp only [tableSize] at *
  exact ⟨by omega, by omega⟩

/-- A new table from the pool. -/
theorem hang (h : TablesApart Owns root K (k + 1) m F) (hs : PageSupply pageAlloc Owns)
    (hg : GivesPage Owns k m m₁ F page) (hp : IsPath p) (hlen : p.length < 3)
    (hw : walk childTable m p root = some t) (hi : i < 512)
    (he : slot m t i &&& pagingMaskP = 0) :
    TablesApart Owns root K k (hangTable m₁ t i page) (F \ rangeArea (page, 4096)) ∧
      ∀ x ∈ K, hangTable m₁ t i page x = m x := by
  have hung := hangTable_hung h.tree (h.fresh hg) hp hlen hw hi he
  have ht : IsTable childTable m root 3 t := ⟨p, hp, hlen.le, hw⟩
  have hout := hangTable_sameOutside (t := t) hg hi
  have hmono : mappedOutside F ⊆ mappedOutside (F \ rangeArea (page, 4096)) :=
    mappedOutside_mono Set.sdiff_subset
  have hnew : Set.Ico (page + phyMapBase) (page + phyMapBase + tableSize) = pageArea page := rfl
  refine ⟨⟨hung.tree, hs.keep hg.owns (hout.mono ?_), fun t' ht' => ?_, h.kept.trans hmono,
    fun t' ht' => ?_⟩, fun x hx => ?_⟩
  · exact Set.union_subset hg.area_subset ((h.tables t ht).trans hmono)
  · rcases hung.tables t' ht' with rfl | ht'
    · rw [hnew]
      exact hg.area_subset
    · exact (h.tables t' ht').trans hmono
  · rcases hung.tables t' ht' with rfl | ht'
    · rw [hnew]
      exact hg.area_disjoint.mono_left h.kept
    · exact h.apart t' ht'
  · rw [hout x, hg.frame x (h.kept hx)]
    rintro (hin | hin)
    · exact Set.disjoint_left.mp hg.area_disjoint (h.kept hx) hin
    · exact Set.disjoint_left.mp (h.apart t ht) hx hin

end TablesApart

/-! ## Down the tables -/

variable {mmPool : MmPool}

/-- The pool is intact, its blocks are the bytes `F`, and there are `k` pages in them. -/
def PoolWith (mmPool : MmPool) (k : Nat) (m : Mem) (F : Set Nat) : Prop :=
  ∃ t bs, PoolAt mmPool m t bs ∧ pageCount bs ≤ t ∧ F = blockBytes bs ∧ k ≤ pageCount bs

/-- A pool with pages left has one for a request of one page. -/
theorem PoolAt.pageAlloc_one {tot : Nat} {bs : List PageBlock} (h : PoolAt mmPool m tot bs)
    (htot : pageCount bs ≤ tot) (hk : k + 1 ≤ pageCount bs) :
    GivesPage (PoolWith mmPool) k m (poolAlloc mmPool 1 m).2 (blockBytes bs)
      (poolAlloc mmPool 1 m).1 := by
  obtain ⟨ret, m', bs', he, h', hs, hres⟩ := h.pageAlloc htot Nat.one_pos
  rw [poolAlloc_of_eq he]
  rcases hres with ⟨-, -, hsmall, -⟩ | ⟨hwf, hcount, hpart⟩
  · -- merged blocks of no pages would be no pages at all
    have hzero : pageCount (mergePages bs) = 0 := by
      unfold pageCount
      refine List.sum_eq_zero fun n hn => ?_
      obtain ⟨b, hb, rfl⟩ := List.mem_map.mp hn
      exact Nat.lt_one_iff.mp (hsmall b hb)
    rw [mergePages_pageCount] at hzero
    omega
  · have hp := hpart [] (blockBytes bs) (by simpa using h.partition)
    have hal := hwf.aligned
    have habove := hwf.above
    have hfits := hwf.fits
    refine ⟨?_, ?_, ?_, fun x hx => (hp.union x).mpr ⟨_, by simp, hx⟩,
      ⟨tot, bs', h', by omega, ?_, by omega⟩, fun x hx => hs x (h.mappedOutside_subset hx)⟩
    · simp only [phyMapBase] at hal
      show ret % 4096 = 0
      omega
    · have habove : phyMapBase < ret + phyMapBase := habove
      show ret ≠ 0
      omega
    · simp only [PageBlock.stop] at hfits
      show ret + 4096 ≤ phyMapSize
      omega
    · ext x
      rw [mem_blockBytes, hp.mem_left]
      simp

theorem poolAlloc_pageSupply (mmPool : MmPool) :
    PageSupply (poolAlloc mmPool 1) (PoolWith mmPool) where
  take := by
    rintro k m _ ⟨tot, bs, h, htot, rfl, hk⟩
    exact h.pageAlloc_one htot hk
  fewer := fun ⟨tot, bs, h, htot, hF, hk⟩ => ⟨tot, bs, h, htot, hF, Nat.le_of_succ_le hk⟩
  keep := by
    rintro k m m' _ ⟨tot, bs, h, htot, rfl, hk⟩ hs
    exact ⟨tot, bs, h.congr (hs.mono h.mappedOutside_subset), htot, rfl, hk⟩

end Raincloud
