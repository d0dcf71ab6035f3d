import Raincloud.Arch.PageAlloc
import Raincloud.Infra.Ranges
import Raincloud.Mm.Headers

/-!
# The page pool

What memory looks like when the free pages are the blocks `bs` (`PoolAt`): the headers hang on
`mm_pool` in address order, hold the lengths, and the counters agree. Each branch of the
allocator that changes the list is one lemma: shrink a block, take one out, put one in, let one
swallow the next.
-/

namespace Raincloud

open Infra Infra.LinkStore

/-- Free pages in a row: the address of their header in the direct map, and their number. -/
structure PageBlock where
  addr : Nat
  length : Nat
  deriving DecidableEq

namespace PageBlock

/-- The first byte behind the block. -/
def stop (b : PageBlock) : Nat := b.addr + b.length * 4096

/-- Non-empty, page-aligned, and in the direct map above physical page 0. -/
structure WellFormed (b : PageBlock) : Prop where
  pos : 0 < b.length
  aligned : b.addr % 4096 = 0
  above : phyMapBase < b.addr
  fits : b.stop ≤ phyMapBase + phyMapSize

/-- The physical bytes of the block. -/
def range (b : PageBlock) : Nat × Nat := (b.addr - phyMapBase, b.length * 4096)

end PageBlock

/-- The number of pages in the blocks. -/
def pageCount (bs : List PageBlock) : Nat := (bs.map PageBlock.length).sum

@[simp] theorem pageCount_nil : pageCount [] = 0 := rfl

@[simp] theorem pageCount_append (bs cs : List PageBlock) :
    pageCount (bs ++ cs) = pageCount bs + pageCount cs := by simp [pageCount]

@[simp] theorem pageCount_cons (b : PageBlock) (bs : List PageBlock) :
    pageCount (b :: bs) = b.length + pageCount bs := by simp [pageCount]

variable (mmPool : MmPool)

/-- The blocks `bs` hang on `mm_pool` in this order, with these lengths. -/
structure PagesAt (m : Mem) (bs : List PageBlock) : Prop where
  ring : Ring m mmPool.addr (bs.map PageBlock.addr)
  length : ∀ b ∈ bs, pageLength m b.addr = b.length

structure PoolAt (m : Mem) (total : Nat) (bs : List PageBlock) : Prop where
  pages : PagesAt mmPool m bs
  wellFormed : ∀ b ∈ bs, b.WellFormed
  sorted : bs.Pairwise fun b c => b.stop ≤ c.addr
  available : mmPool.available m = pageCount bs
  total : mmPool.total m = total

/-- The counters of `mm_pool`. -/
def poolCounters : Set Nat := {x | mmPool.addr + 16 ≤ x ∧ x < mmPool.addr + 32}

/-- Everything the allocator keeps its books in: `mm_pool` and the headers. -/
def poolArea (bs : List PageBlock) : Set Nat :=
  headerArea mmPool (bs.map PageBlock.addr) ∪ poolCounters mmPool

variable {mmPool} {m m' : Mem} {t n : Nat} {bs bs' pre post : List PageBlock} {b c : PageBlock}

/-! ## Geometry -/

theorem PageBlock.WellFormed.bounds (h : b.WellFormed) :
    phyMapBase + 4096 ≤ b.addr ∧ b.addr + 4096 ≤ b.stop ∧
      b.stop + 4096 ≤ kernelImageBase := by
  have h1 := h.pos
  have h2 := h.aligned
  have h3 := h.above
  have h4 := h.fits
  simp only [PageBlock.stop, phyMapBase, phyMapSize, kernelImageBase] at *
  omega

theorem placed_of_sorted (hwf : ∀ b ∈ bs, b.WellFormed)
    (hs : bs.Pairwise fun b c => b.stop ≤ c.addr) : Placed mmPool (bs.map PageBlock.addr) where
  fits := by
    have := mmPool.fits
    omega
  below := by
    intro a ha
    obtain ⟨b, hb, rfl⟩ := List.mem_map.mp ha
    have := (hwf b hb).bounds
    have := mmPool.image
    omega
  apart := by
    intro a ha c hc hne
    obtain ⟨b, hb, rfl⟩ := List.mem_map.mp ha
    obtain ⟨d, hd, rfl⟩ := List.mem_map.mp hc
    have h1 := (hwf b hb).bounds
    have h2 := (hwf d hd).bounds
    rcases pairwise_or hs hb hd fun he => hne (congrArg PageBlock.addr he) with hle | hle
    · omega
    · omega

theorem PoolAt.placed (h : PoolAt mmPool m t bs) : Placed mmPool (bs.map PageBlock.addr) :=
  placed_of_sorted h.wellFormed h.sorted

/-- Sorted blocks between two addresses have no more pages than fit there. -/
theorem pageCount_le_of_sorted {lo hi : Nat} (hs : bs.Pairwise fun b c => b.stop ≤ c.addr)
    (hlo : ∀ b ∈ bs, lo ≤ b.addr) (hhi : ∀ b ∈ bs, b.stop ≤ hi) (hle : lo ≤ hi) :
    lo + pageCount bs * 4096 ≤ hi := by
  induction bs generalizing lo with
  | nil => simpa using hle
  | cons b bs ih =>
    rw [List.pairwise_cons] at hs
    have h1 := hlo b (by simp)
    have h2 := hhi b (by simp)
    have h3 := ih hs.2 hs.1 (fun c hc => hhi c (List.mem_cons_of_mem _ hc)) h2
    rw [pageCount_cons]
    simp only [PageBlock.stop] at h3
    omega

theorem pageCount_le_of_wellFormed (hwf : ∀ b ∈ bs, b.WellFormed)
    (hs : bs.Pairwise fun b c => b.stop ≤ c.addr) : pageCount bs ≤ 2 ^ 32 := by
  have := pageCount_le_of_sorted hs (fun b hb => (hwf b hb).above.le)
    (fun b hb => (hwf b hb).fits) (Nat.le_add_right _ _)
  simp only [phyMapSize] at this
  omega

theorem PoolAt.pageCount_le (h : PoolAt mmPool m t bs) : pageCount bs ≤ 2 ^ 32 :=
  pageCount_le_of_wellFormed h.wellFormed h.sorted

theorem length_le_pageCount (hwf : ∀ b ∈ bs, b.WellFormed) : bs.length ≤ pageCount bs := by
  induction bs with
  | nil => simp
  | cons b bs ih =>
    have h1 := (hwf b (by simp)).pos
    have h2 := ih fun c hc => hwf c (List.mem_cons_of_mem _ hc)
    rw [pageCount_cons, List.length_cons]
    omega

theorem PoolAt.length_lt (h : PoolAt mmPool m t bs) : bs.length < walkFuel := by
  have h1 := length_le_pageCount h.wellFormed
  have h2 := h.pageCount_le
  simp only [walkFuel]
  omega

theorem headerArea_not_poolCounters {as : List Nat} (hp : Placed mmPool as) :
    ∀ x ∈ headerArea mmPool as, x ∉ poolCounters mmPool := by
  rintro x (hx | ⟨a, ha, hx⟩) hc
  · have := hc.1
    omega
  · have := hp.below a ha
    have := hc.1
    omega

theorem poolArea_mono (hsub : ∀ b ∈ bs', ∃ b' ∈ bs, b'.addr = b.addr) :
    poolArea mmPool bs' ⊆ poolArea mmPool bs := by
  refine Set.union_subset_union_left _ (headerArea_mono fun a ha => ?_)
  obtain ⟨b, hb, rfl⟩ := List.mem_map.mp ha
  obtain ⟨b', hb', he⟩ := hsub b hb
  exact he ▸ List.mem_map_of_mem hb'

/-! ## Books that are written -/

/-- The counters survive writes to headers. -/
theorem counters_frame {as : List Nat} (hp : Placed mmPool as)
    (hs : Mem.SameOutside (headerArea mmPool as) m m') :
    mmPool.available m' = mmPool.available m ∧ mmPool.total m' = mmPool.total m := by
  have key : ∀ i, 16 ≤ i → i ≤ 24 →
      m'.load64 (mmPool.addr + i) = m.load64 (mmPool.addr + i) := by
    intro i h1 h2
    refine hs.load64_eq fun x hx1 hx2 hx => ?_
    exact headerArea_not_poolCounters hp x hx ⟨by omega, by omega⟩
  exact ⟨key 16 le_rfl (by omega), key 24 (by omega) le_rfl⟩

theorem sameOutside_setAvailablePages (m : Mem) (v : Nat) :
    Mem.SameOutside (poolCounters mmPool) m (mmPool.setAvailable m v) :=
  (Mem.SameOutside.refl _ m).store64 fun x hx =>
    ⟨by have := hx.1; omega, by have := hx.2; omega⟩

theorem PagesAt.congr {area : Set Nat} (h : PagesAt mmPool m bs)
    (hs : Mem.SameOutside area m m')
    (harea : ∀ x ∈ headerArea mmPool (bs.map PageBlock.addr), x ∉ area) :
    PagesAt mmPool m' bs where
  ring := ring_sameOutside h.ring hs harea
  length b hb := by
    rw [← h.length b hb]
    refine hs.load64_eq fun x h1 h2 => harea x (Or.inr ⟨b.addr, ?_, by omega, by omega⟩)
    exact List.mem_map_of_mem hb

theorem PagesAt.addr_ne (h : PagesAt mmPool m (pre ++ b :: post)) :
    ∀ c ∈ pre ++ post, c.addr ≠ b.addr := by
  have hnd := (List.nodup_cons.mp h.ring.nodup).2
  rw [List.map_append, List.map_cons] at hnd
  have hb : b.addr ∉ pre.map PageBlock.addr ++ post.map PageBlock.addr :=
    (List.nodup_middle.mp hnd).notMem
  intro c hc he
  rw [← List.map_append] at hb
  exact hb (he ▸ List.mem_map_of_mem hc)

theorem PagesAt.setLength (h : PagesAt mmPool m (pre ++ b :: post))
    (hp : Placed mmPool ((pre ++ b :: post).map PageBlock.addr)) {v : Nat} (hv : v < 2 ^ 64) :
    PagesAt mmPool (setPageLength m b.addr v) (pre ++ { b with length := v } :: post) := by
  have hb : b.addr ∈ (pre ++ b :: post).map PageBlock.addr := List.mem_map_of_mem (by simp)
  have hmap : (pre ++ { b with length := v } :: post).map PageBlock.addr
      = (pre ++ b :: post).map PageBlock.addr := by simp
  refine ⟨hmap ▸ ring_store h.ring hp hb le_rfl (by omega), fun c hc => ?_⟩
  rcases mem_middle.mp hc with rfl | hc
  · exact Mem.load64_store64 hv
  · have hmem : c ∈ pre ++ b :: post := mem_middle.mpr (Or.inr hc)
    rw [← h.length c hmem]
    exact Mem.load64_store64_of_disjoint (header_ne hp (List.mem_map_of_mem hmem) hb (by omega)
      (by omega) fun he => absurd he (h.addr_ne c hc))

/-- A block unlinked. -/
theorem PagesAt.remove (h : PagesAt mmPool m (pre ++ c :: post))
    (hp : Placed mmPool ((pre ++ c :: post).map PageBlock.addr)) :
    PagesAt mmPool (listDel m c.addr) (pre ++ post) ∧
      Mem.SameOutside (headerArea mmPool ((pre ++ c :: post).map PageBlock.addr)) m
        (listDel m c.addr) := by
  have hr := h.ring
  rw [List.map_append, List.map_cons] at hr
  have hsub : listNodes mmPool (pre.map PageBlock.addr ++ post.map PageBlock.addr)
      ⊆ listNodes mmPool ((pre ++ c :: post).map PageBlock.addr) := by
    refine listNodes_mono fun a ha => ?_
    rw [List.map_append, List.map_cons]
    exact mem_middle.mpr (Or.inr ha)
  have hprev := hsub (ring_neighbours hr).1
  have hnext := hsub (ring_neighbours hr).2
  refine ⟨⟨?_, fun d hd => ?_⟩, sameOutside_listDel hprev hnext⟩
  · rw [List.map_append]
    refine ring_listDel hp.lawfulOn hr fun y hy => ?_
    simpa [listNodes] using hy
  · have hmem : d ∈ pre ++ c :: post := mem_middle.mpr (Or.inr hd)
    rw [← h.length d hmem]
    exact load64_listDel hp hprev hnext (List.mem_map_of_mem hmem) le_rfl (by omega)

/-- A header is three words. -/
theorem initBlock_sameOutside (m : Mem) (base n : Nat) :
    Mem.SameOutside (Set.Ico base (base + 24)) m (__initBlock m base n) := by
  refine (((Mem.SameOutside.refl _ m).store64 ?_).store64 ?_).store64 ?_
  all_goals
    intro x hx
    have h1 := hx.1
    have h2 := hx.2
    exact ⟨by omega, by omega⟩

/-- A new header away from the list. -/
theorem PagesAt.initBlock {a n : Nat} (h : PagesAt mmPool m bs)
    (hp : Placed mmPool (a :: bs.map PageBlock.addr)) (hnew : a ∉ bs.map PageBlock.addr) :
    PagesAt mmPool (__initBlock m a n) bs := by
  have hin : a ∈ a :: bs.map PageBlock.addr := List.mem_cons_self ..
  refine h.congr (initBlock_sameOutside m a n) ?_
  rintro x (hx | ⟨d, hd, hx⟩) hax
  · have := hp.below _ hin
    have := hax.2
    omega
  · have := hp.apart d (List.mem_cons_of_mem _ hd) _ hin fun he => hnew (he ▸ hd)
    have := hax.1
    have := hax.2
    omega

/-- A block with a new header, linked in front of the blocks `post`. -/
theorem PagesAt.insert (h : PagesAt mmPool m (pre ++ post)) (hc : c.length < 2 ^ 64)
    (hp : Placed mmPool (c.addr :: (pre ++ post).map PageBlock.addr))
    (hnew : c.addr ∉ (pre ++ post).map PageBlock.addr) :
    let it := (post.map PageBlock.addr).headD mmPool.addr
    let m' := listAddBefore (__initBlock m c.addr c.length) it c.addr
    PagesAt mmPool m' (pre ++ c :: post) ∧
      Mem.SameOutside (headerArea mmPool (c.addr :: (pre ++ post).map PageBlock.addr)) m m' := by
  intro it m'
  have hin : c.addr ∈ c.addr :: (pre ++ post).map PageBlock.addr := List.mem_cons_self ..
  have hcn : c.addr ∈ listNodes mmPool (c.addr :: (pre ++ post).map PageBlock.addr) := Or.inr hin
  -- the new header
  obtain ⟨m1, hm1⟩ : ∃ m1, m1 = __initBlock m c.addr c.length := ⟨_, rfl⟩
  have hs1 : Mem.SameOutside (Set.Ico c.addr (c.addr + 24)) m m1 :=
    hm1 ▸ initBlock_sameOutside m c.addr c.length
  have hold : PagesAt mmPool m1 (pre ++ post) := hm1 ▸ h.initBlock hp hnew
  have hlen1 : pageLength m1 c.addr = c.length := by
    rw [hm1]
    exact Mem.load64_store64 hc
  -- linked in
  have hr1 : Ring m1 mmPool.addr (pre.map PageBlock.addr ++ post.map PageBlock.addr) := by
    rw [← List.map_append]
    exact hold.ring
  have hnodes : ∀ y ∈ mmPool.addr :: (pre.map PageBlock.addr ++ post.map PageBlock.addr),
      y ∈ listNodes mmPool (c.addr :: (pre ++ post).map PageBlock.addr) := by
    intro y hy
    rw [← List.map_append] at hy
    rcases List.mem_cons.mp hy with rfl | hy
    · exact Or.inl rfl
    · exact Or.inr (List.mem_cons_of_mem _ hy)
  have hprev : prev m1 it = (pre.map PageBlock.addr).getLastD mmPool.addr := by
    cases post with
    | nil => simpa [it] using hr1.prev_head
    | cons d post => exact hr1.prev_mem
  have hm' : m' = __listAdd m1 ((pre.map PageBlock.addr).getLastD mmPool.addr) it c.addr := by
    rw [← hprev, hm1]
    rfl
  have hprevn := hnodes ((pre.map PageBlock.addr).getLastD mmPool.addr) (by
    have := Ring.getLastD_mem mmPool.addr (pre.map PageBlock.addr)
    simp only [List.mem_cons, List.mem_append] at this ⊢
    tauto)
  have hitn := hnodes it (by
    have := Ring.headD_mem_cons mmPool.addr (post.map PageBlock.addr)
    simp only [List.mem_cons, List.mem_append] at this ⊢
    tauto)
  have hne : c.addr ≠ mmPool.addr := by
    have := hp.below _ hin
    omega
  rw [hm']
  refine ⟨⟨?_, fun d hd => ?_⟩, (hs1.mono fun x hx => ?_).trans
    (sameOutside_listAdd hprevn hitn hcn)⟩
  · rw [List.map_append, List.map_cons]
    refine ring_listAdd hp.lawfulOn hr1 hnodes hcn ?_
    rw [← List.map_append, List.mem_cons]
    exact not_or.mpr ⟨hne, hnew⟩
  · have hd' : d.addr ∈ c.addr :: (pre ++ post).map PageBlock.addr := by
      rcases mem_middle.mp hd with rfl | hd
      · exact hin
      · exact List.mem_cons_of_mem _ (List.mem_map_of_mem hd)
    rw [show pageLength _ d.addr = pageLength m1 d.addr from
      load64_listAdd hp hprevn hitn hcn hd' le_rfl (by omega)]
    rcases mem_middle.mp hd with rfl | hd
    · exact hlen1
    · exact hold.length d hd
  · have h1 := hx.1
    have h2 := hx.2
    exact Or.inr ⟨c.addr, hin, by omega, by omega⟩

/-- A new list in the headers that has as many pages. -/
theorem PoolAt.relist {as : List Nat} (h : PoolAt mmPool m t bs) (hp : Placed mmPool as)
    (hs : Mem.SameOutside (headerArea mmPool as) m m') (hpages : PagesAt mmPool m' bs')
    (hwf : ∀ b ∈ bs', b.WellFormed) (hsorted : bs'.Pairwise fun b c => b.stop ≤ c.addr)
    (hcount : pageCount bs' = pageCount bs) : PoolAt mmPool m' t bs' :=
  ⟨hpages, hwf, hsorted, (counters_frame hp hs).1.trans (h.available.trans hcount.symm),
    (counters_frame hp hs).2.trans h.total⟩

/-- A new list in the headers, and then the number of its pages in the counter. -/
theorem PoolAt.rebook {as : List Nat} (h : PoolAt mmPool m t bs) (hp : Placed mmPool as)
    (hs : Mem.SameOutside (headerArea mmPool as) m m') (hpages : PagesAt mmPool m' bs')
    (hwf : ∀ b ∈ bs', b.WellFormed) (hsorted : bs'.Pairwise fun b c => b.stop ≤ c.addr) :
    PoolAt mmPool (mmPool.setAvailable m' (pageCount bs')) t bs' ∧
      Mem.SameOutside (headerArea mmPool as ∪ poolCounters mmPool) m
        (mmPool.setAvailable m' (pageCount bs')) := by
  have hav : Mem.SameOutside (poolCounters mmPool) m' _ :=
    sameOutside_setAvailablePages m' (pageCount bs')
  have hp' : Placed mmPool (bs'.map PageBlock.addr) := placed_of_sorted hwf hsorted
  have hnot := headerArea_not_poolCounters hp'
  have hcount : pageCount bs' < 2 ^ 64 := by
    have := pageCount_le_of_wellFormed hwf hsorted
    omega
  refine ⟨⟨hpages.congr hav hnot, hwf, hsorted, Mem.load64_store64 hcount, ?_⟩, ?_⟩
  · rw [← h.total, ← (counters_frame hp hs).2]
    exact Mem.load64_store64_of_disjoint (by omega)
  · exact (hs.mono Set.subset_union_left).trans (hav.mono Set.subset_union_right)

end Raincloud
