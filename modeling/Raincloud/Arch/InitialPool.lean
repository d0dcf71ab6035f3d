import Raincloud.Arch.PageInit
import Mathlib.Data.Set.Card

/-!
# What the pool starts with

The blocks of `page_alloc_init` are the usable pages above `lowerbound`, provided that no usable
range ends below `lowerbound` and no two of them start at the same page after the cut.
-/

set_option linter.style.nameCheck false

namespace Raincloud

open Infra Infra.LinkStore

variable {mmPool : MmPool} {m m' : Mem} {bs : List PageBlock} {b c : PageBlock}
  {d : EfiMemoryDescriptor} {ds : List EfiMemoryDescriptor} {lowerbound p : Nat}

/-- What the firmware promises of the ranges. -/
structure MemoryMap (ds : List EfiMemoryDescriptor) : Prop where
  aligned : ∀ d ∈ ds, d.physicalStart % 4096 = 0
  below : ∀ d ∈ ds, d.stop ≤ phyMapSize
  disjoint : ds.Pairwise fun d d' =>
    Disjoint (Set.Ico d.physicalStart d.stop) (Set.Ico d'.physicalStart d'.stop)

/-- No usable range is cut off whole, and no two blocks start at the same page. -/
structure Clippable (ds : List EfiMemoryDescriptor) (lowerbound : Nat) : Prop where
  reach : ∀ d ∈ ds, d.Usable → lowerbound ≤ d.stop
  distinct : (ds.filter fun d => decide d.Usable).Pairwise fun d d' =>
    d.clippedStart lowerbound ≠ d'.clippedStart lowerbound

/-! ## One descriptor -/

theorem clippedStart_aligned (hal : d.physicalStart % 4096 = 0) (hlb : lowerbound % 4096 = 0) :
    d.clippedStart lowerbound % 4096 = 0 := by
  unfold EfiMemoryDescriptor.clippedStart
  split <;> assumption

theorem clippedStart_le_iff {x : Nat} :
    d.clippedStart lowerbound ≤ x ↔ lowerbound ≤ x ∧ d.physicalStart ≤ x := by
  unfold EfiMemoryDescriptor.clippedStart
  split <;> omega

/-- The header of a block is in the direct map when its clipped start is. -/
theorem EfiMemoryDescriptor.block_inMap (hal : d.physicalStart % 4096 = 0)
    (hlb : lowerbound % 4096 = 0) (hle : d.clippedStart lowerbound ≤ phyMapSize) :
    (d.block lowerbound).InMap lowerbound := by
  have hge := (clippedStart_le_iff.mp (le_refl (d.clippedStart lowerbound))).1
  have hbase : phyMapBase % 4096 = 0 := by decide
  have hstart := clippedStart_aligned hal hlb
  refine ⟨?_, ?_, ?_, ?_⟩
  · have := Nat.min_le_left lowerbound phyMapSize
    show _ ≤ d.clippedStart lowerbound + phyMapBase
    omega
  · show d.clippedStart lowerbound + phyMapBase ≤ _
    omega
  · show (d.clippedStart lowerbound + phyMapBase) % 4096 = 0
    omega
  · exact lt_of_le_of_lt (Nat.shiftRight_le _ _) (sub64_lt _ _)

theorem clippedStart_le_stop (h : lowerbound ≤ d.stop) : d.clippedStart lowerbound ≤ d.stop :=
  clippedStart_le_iff.mpr ⟨h, Nat.le_add_right _ _⟩

/-- The end of a range, as the code computes it. -/
theorem physicalEnd_eq (h : d.stop ≤ phyMapSize) :
    add64 d.physicalStart (shl64 d.numberOfPages 12) = d.stop := by
  simp only [EfiMemoryDescriptor.stop, phyMapSize] at *
  rw [shl64_eq (by omega), add64_eq (by omega)]
  norm_num

theorem clippedPages_eq (hle : d.stop ≤ phyMapSize) (h : lowerbound ≤ d.stop) :
    d.clippedPages lowerbound = (d.stop - d.clippedStart lowerbound) / 4096 := by
  have hstart := clippedStart_le_stop h
  rw [EfiMemoryDescriptor.clippedPages, physicalEnd_eq hle]
  simp only [phyMapSize] at hle
  rw [sub64_eq hstart (by omega), Nat.shiftRight_eq_div_pow]

theorem block_firstPage (d : EfiMemoryDescriptor) (lowerbound : Nat) :
    (d.block lowerbound).firstPage = d.clippedStart lowerbound / 4096 := by
  rw [PageBlock.firstPage, EfiMemoryDescriptor.block, Nat.add_sub_cancel]

/-- The pages of a block are those of its range from `lowerbound` on. -/
theorem mem_block_pages (hal : d.physicalStart % 4096 = 0) (hlb : lowerbound % 4096 = 0)
    (hle : d.stop ≤ phyMapSize) (h : lowerbound ≤ d.stop) : p ∈ (d.block lowerbound).pages ↔
      lowerbound ≤ p * 4096 ∧ d.physicalStart ≤ p * 4096 ∧ p * 4096 < d.stop := by
  have hstart := clippedStart_aligned hal hlb
  have hge := clippedStart_le_stop h
  have hstop : d.stop % 4096 = 0 := by
    rw [EfiMemoryDescriptor.stop, Nat.add_mul_mod_self_right, hal]
  rw [← and_assoc, ← clippedStart_le_iff, PageBlock.pages, pageRun, Set.mem_Ico, block_firstPage]
  show _ ∧ p < _ + d.clippedPages lowerbound ↔ _
  rw [clippedPages_eq hle h]
  omega

/-- A range that ends below `lowerbound` becomes a block that goes far beyond all memory. -/
theorem exists_page_beyond (hle : d.stop ≤ phyMapSize) (hlow : lowerbound ≤ phyMapSize)
    (hal : d.physicalStart % 4096 = 0) (hlb : lowerbound % 4096 = 0) (h : d.stop < lowerbound) :
    ∃ p ∈ (d.block lowerbound).pages, phyMapSize ≤ p * 4096 := by
  have hstart : d.physicalStart ≤ d.stop := Nat.le_add_right _ _
  have hclip : d.clippedStart lowerbound = lowerbound := by
    rw [EfiMemoryDescriptor.clippedStart, if_neg (by omega)]
  have hstop : d.stop % 4096 = 0 := by
    rw [EfiMemoryDescriptor.stop, Nat.add_mul_mod_self_right, hal]
  have hpages : d.clippedPages lowerbound = 2 ^ 52 - (lowerbound - d.stop) / 4096 := by
    rw [EfiMemoryDescriptor.clippedPages, physicalEnd_eq hle, hclip, Nat.shiftRight_eq_div_pow,
      sub64]
    simp only [phyMapSize] at hle hlow
    omega
  refine ⟨lowerbound / 4096 + 2 ^ 32, ?_, by simp only [phyMapSize]; omega⟩
  rw [PageBlock.pages, pageRun, Set.mem_Ico, block_firstPage, hclip]
  show _ ∧ _ < _ + d.clippedPages lowerbound
  rw [hpages]
  simp only [phyMapSize] at hlow
  omega

/-! ## All of them -/

/-- Blocks that share no page have as many pages as their lengths say. -/
theorem ncard_pages (h : bs.Pairwise fun b c => Disjoint b.pages c.pages) :
    (⋃ b ∈ bs, b.pages).Finite ∧ (⋃ b ∈ bs, b.pages).ncard = pageCount bs := by
  induction bs with
  | nil => simp
  | cons b bs ih =>
    obtain ⟨hb, hbs⟩ := List.pairwise_cons.mp h
    obtain ⟨hfin, hcard⟩ := ih hbs
    have hunion : (⋃ c ∈ b :: bs, c.pages) = b.pages ∪ ⋃ c ∈ bs, c.pages := by
      ext p
      simp
    have hb_fin : b.pages.Finite := Set.finite_Ico _ _
    have hb_card : b.pages.ncard = b.length := by
      rw [PageBlock.pages, pageRun, ← Finset.coe_Ico, Set.ncard_coe_finset, Nat.card_Ico,
        Nat.add_sub_cancel_left]
    have hdisj : Disjoint b.pages (⋃ c ∈ bs, c.pages) := by
      rw [Set.disjoint_iUnion₂_right]
      exact hb
    rw [hunion]
    refine ⟨hb_fin.union hfin, ?_⟩
    rw [Set.ncard_union_eq hdisj hb_fin hfin, hb_card, hcard, pageCount_cons]

/-- The blocks on a list are determined by where they are. -/
theorem PagesAt.eq_of_addr {bs' : List PageBlock} (h : PagesAt mmPool m bs)
    (h' : PagesAt mmPool m bs') (he : bs.map PageBlock.addr = bs'.map PageBlock.addr) :
    bs = bs' := by
  have hread : ∀ bs, PagesAt mmPool m bs →
      bs = (bs.map PageBlock.addr).map fun a => ⟨a, pageLength m a⟩ := fun bs h => by
    rw [List.map_map]
    refine (List.map_id bs).symm.trans (List.map_congr_left fun b hb => ?_)
    show b = ⟨b.addr, pageLength m b.addr⟩
    rw [h.length b hb]
  rw [hread bs h, he, ← hread bs' h']

theorem poolBlocks_inMap (hmap : MemoryMap ds) (hlb : lowerbound % 4096 = 0)
    (hle : ∀ d ∈ ds, d.Usable → d.clippedStart lowerbound ≤ phyMapSize) :
    ∀ b ∈ poolBlocks ds lowerbound, b.InMap lowerbound := by
  intro b hb
  obtain ⟨d, hd, hu, rfl⟩ := mem_poolBlocks.mp hb
  exact d.block_inMap (hmap.aligned d hd) hlb (hle d hd hu)

theorem poolBlocks_addr : (poolBlocks ds lowerbound).map PageBlock.addr
    = (ds.filter fun d => decide d.Usable).map fun d => d.clippedStart lowerbound + phyMapBase := by
  rw [poolBlocks, List.map_map]
  rfl

theorem poolBlocks_nodup_iff : ((poolBlocks ds lowerbound).map PageBlock.addr).Nodup ↔
    (ds.filter fun d => decide d.Usable).Pairwise fun d d' =>
      d.clippedStart lowerbound ≠ d'.clippedStart lowerbound := by
  rw [poolBlocks_addr, List.Nodup, List.pairwise_map]
  simp only [ne_eq, Nat.add_right_cancel_iff]

/-- The blocks of clippable ranges: the usable pages, each once. -/
theorem Clippable.pages (h : Clippable ds lowerbound) (hmap : MemoryMap ds)
    (hlb : lowerbound % 4096 = 0) :
    (poolBlocks ds lowerbound).Pairwise (fun b c => Disjoint b.pages c.pages) ∧
      (⋃ b ∈ poolBlocks ds lowerbound, b.pages) = usablePages ds lowerbound := by
  have hmem : ∀ d ∈ ds, d.Usable → ∀ p, p ∈ (d.block lowerbound).pages ↔
      lowerbound ≤ p * 4096 ∧ d.physicalStart ≤ p * 4096 ∧ p * 4096 < d.stop := fun d hd hu p =>
    mem_block_pages (hmap.aligned d hd) hlb (hmap.below d hd) (h.reach d hd hu)
  constructor
  · rw [poolBlocks, List.pairwise_map]
    refine (hmap.disjoint.sublist List.filter_sublist).imp_of_mem fun hd hd' hdisj => ?_
    rw [List.mem_filter, decide_eq_true_iff] at hd hd'
    refine Set.disjoint_left.mpr fun p hp hp' => ?_
    exact Set.disjoint_left.mp hdisj ((hmem _ hd.1 hd.2 p).mp hp).2 ((hmem _ hd'.1 hd'.2 p).mp hp').2
  · ext p
    simp only [Set.mem_iUnion, exists_prop, usablePages, Set.mem_ofPred_eq]
    constructor
    · rintro ⟨b, hb, hp⟩
      obtain ⟨d, hd, hu, rfl⟩ := mem_poolBlocks.mp hb
      obtain ⟨hlow, hrange⟩ := (hmem d hd hu p).mp hp
      exact ⟨hlow, d, hd, hu, hrange⟩
    · rintro ⟨hlow, d, hd, hu, hrange⟩
      exact ⟨_, mem_poolBlocks.mpr ⟨d, hd, hu, rfl⟩, (hmem d hd hu p).mpr ⟨hlow, hrange⟩⟩

/-! ## The pool -/

/-- `page_alloc_init` returns, with the usable pages above `lowerbound` in the pool. -/
def PoolStarts (mmPool : MmPool) (m : Mem) (desc size totalLength lowerbound : Nat) : Prop :=
  ∃ m' bs, pageAllocInit mmPool desc size totalLength lowerbound m = some m' ∧
    PoolHas mmPool m' (usablePages (descriptors m desc size (totalLength / size)) lowerbound) bs

variable {desc size totalLength : Nat}

theorem Clippable.poolStarts
    (h : Clippable (descriptors m desc size (totalLength / size)) lowerbound)
    (harr : DescriptorArray desc size totalLength lowerbound)
    (hmap : MemoryMap (descriptors m desc size (totalLength / size)))
    (hlb : lowerbound % 4096 = 0) : PoolStarts mmPool m desc size totalLength lowerbound := by
  have hin := poolBlocks_inMap hmap hlb fun d hd hu =>
    (clippedStart_le_stop (h.reach d hd hu)).trans (hmap.below d hd)
  obtain ⟨m', hrun, hfill, htotal⟩ := pageAllocInit_filling mmPool m harr hin
  obtain ⟨hdisj, hunion⟩ := h.pages hmap hlb
  obtain ⟨-, hcard⟩ := ncard_pages hdisj
  rw [hunion] at hcard
  have hlt : pageCount (poolBlocks (descriptors m desc size (totalLength / size)) lowerbound)
      < 2 ^ 64 := by
    have hsub : usablePages (descriptors m desc size (totalLength / size)) lowerbound
        ⊆ Set.Iio (2 ^ 32) := by
      rintro p ⟨-, d, hd, -, -, hp⟩
      have := hmap.below d hd
      simp only [phyMapSize] at this
      exact Set.mem_Iio.mpr (by omega)
    have hle := Set.ncard_le_ncard hsub (Set.finite_Iio _)
    rw [hcard, ← Finset.coe_Iio, Set.ncard_coe_finset, Nat.card_Iio] at hle
    omega
  have hav : mmPool.available m'
      = (usablePages (descriptors m desc size (totalLength / size)) lowerbound).ncard := by
    rw [hcard, hfill.available, Nat.mod_eq_of_lt hlt]
  refine ⟨m', _, hrun, hfill.pages (poolBlocks_nodup_iff.mpr h.distinct), fun b hb => ?_, hdisj,
    hunion, hav, htotal.trans hav⟩
  have := (hin b hb).above
  exact ⟨by omega, (hin b hb).aligned⟩

/-- A list that is intact was filled with each block once, and no block is too long. -/
theorem PoolStarts.clippable (h : PoolStarts mmPool m desc size totalLength lowerbound)
    (harr : DescriptorArray desc size totalLength lowerbound)
    (hmap : MemoryMap (descriptors m desc size (totalLength / size)))
    (hlb : lowerbound % 4096 = 0) (hlow : lowerbound ≤ phyMapSize) :
    Clippable (descriptors m desc size (totalLength / size)) lowerbound := by
  have hin := poolBlocks_inMap hmap hlb fun d hd _ => clippedStart_le_iff.mpr
    ⟨hlow, (Nat.le_add_right _ _).trans (hmap.below d hd)⟩
  obtain ⟨m', hrun, hfill, -⟩ := pageAllocInit_filling mmPool m harr hin
  obtain ⟨m'', bs, hrun', hpool⟩ := h
  obtain rfl := Option.some.inj (hrun.symm.trans hrun')
  have hhead : mmPool.addr ∉ ((poolBlocks (descriptors m desc size (totalLength / size))
      lowerbound).map PageBlock.addr).reverse := by
    intro hmem
    obtain ⟨b, hb, he⟩ := List.mem_map.mp (List.mem_reverse.mp hmem)
    have h1 := (hin b hb).below
    have h2 := head_above mmPool
    omega
  have haddr := List.reverse_injective (hpool.list.ring.eq_reverse hfill.trail hhead)
  have hnd : ((poolBlocks (descriptors m desc size (totalLength / size)) lowerbound).map
      PageBlock.addr).Nodup := haddr ▸ (List.nodup_cons.mp hpool.list.ring.nodup).2
  have hbs := hpool.list.eq_of_addr (hfill.pages hnd) haddr.symm
  refine ⟨fun d hd hu => ?_, poolBlocks_nodup_iff.mp hnd⟩
  by_contra hlt
  obtain ⟨p, hp, hbeyond⟩ := exists_page_beyond (hmap.below d hd) hlow (hmap.aligned d hd) hlb
    (not_le.mp hlt)
  have hb : d.block lowerbound ∈ bs := hbs ▸ mem_poolBlocks.mpr ⟨d, hd, hu, rfl⟩
  have hin_union : p ∈ ⋃ b ∈ bs, b.pages := Set.mem_biUnion hb hp
  rw [hpool.pages] at hin_union
  obtain ⟨-, d', hd', -, -, hstop⟩ := hin_union
  have := hmap.below d' hd'
  omega

/--
For every array of page-aligned ranges that do not overlap and lie in the direct map:
`page_alloc_init` fills the pool with exactly the usable pages above `lowerbound` if and only if
every usable range reaches up to `lowerbound` and no two of them are cut to the same start.
-/
theorem pageAllocInit_starts_iff (mmPool : MmPool) (m : Mem)
    (harr : DescriptorArray desc size totalLength lowerbound)
    (hmap : MemoryMap (descriptors m desc size (totalLength / size)))
    (hlb : lowerbound % 4096 = 0) :
    (Clippable (descriptors m desc size (totalLength / size)) lowerbound →
      PoolStarts mmPool m desc size totalLength lowerbound) ∧
    (lowerbound ≤ phyMapSize → PoolStarts mmPool m desc size totalLength lowerbound →
      Clippable (descriptors m desc size (totalLength / size)) lowerbound) :=
  ⟨fun h => h.poolStarts harr hmap hlb, fun hlow h => h.clippable harr hmap hlb hlow⟩

/-! ## One descriptor -/

/-- An array of one descriptor: a page of conventional memory at 1 MB. -/
def onePageMem : Mem :=
  let m : Mem := fun _ => 0
  let m := m.store64 0x5000 efiConventionalMemory
  let m := m.store64 0x5008 0x100000
  m.store64 0x5018 1

theorem descriptors_onePage :
    descriptors onePageMem 0x5000 40 (40 / 40) = [⟨efiConventionalMemory, 0x100000, 1⟩] := by
  decide +kernel

theorem memoryMap_onePage : MemoryMap (descriptors onePageMem 0x5000 40 (40 / 40)) := by
  rw [descriptors_onePage]
  exact ⟨by simp, by simp [EfiMemoryDescriptor.stop, phyMapSize], List.pairwise_singleton _ _⟩

theorem descriptorArray_onePage {lowerbound : Nat} :
    DescriptorArray 0x5000 40 40 lowerbound :=
  ⟨le_rfl, dvd_refl _, le_trans (by decide) (Nat.le_add_right phyMapBase _)⟩

/-- The page is above `lowerbound`, and in the pool. -/
theorem pageAllocInit_starts_above :
    PoolStarts mmPoolAtImageBase onePageMem 0x5000 40 40 0x1000 := by
  refine (pageAllocInit_starts_iff mmPoolAtImageBase onePageMem descriptorArray_onePage
    memoryMap_onePage (by decide)).1 ?_
  rw [descriptors_onePage]
  exact ⟨by simp [EfiMemoryDescriptor.stop],
    List.Pairwise.filter _ (List.pairwise_singleton _ _)⟩

/-- The page is below `lowerbound`, and the pool counts more pages than there are. -/
theorem pageAllocInit_below : MemoryMap (descriptors onePageMem 0x5000 40 (40 / 40)) ∧
    (pageAllocInit mmPoolAtImageBase 0x5000 40 40 0x200000 onePageMem).map
      mmPoolAtImageBase.available = some (2 ^ 52 - 0xff) ∧
    ¬PoolStarts mmPoolAtImageBase onePageMem 0x5000 40 40 0x200000 := by
  refine ⟨memoryMap_onePage, by decide +kernel, fun h => ?_⟩
  have hclip := h.clippable descriptorArray_onePage memoryMap_onePage (by decide) (by decide)
  rw [descriptors_onePage] at hclip
  have := hclip.reach _ (List.mem_singleton_self _) (Or.inl rfl)
  exact absurd this (by decide)

end Raincloud
