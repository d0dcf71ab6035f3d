import Raincloud.Arch.PagePool

/-!
# What the page allocator does to the pool

`__page_alloc`, `__page_merge`, `__page_free` and the consistency check as operations on the
block list of `PoolAt`, and what they do to a partition of the pages.
-/

set_option linter.style.nameCheck false

namespace Raincloud

open Infra Infra.LinkStore

variable {mmPool : MmPool} {m m' : Mem} {t size ret : Nat} {bs bs' pre post : List PageBlock}
  {b c : PageBlock}

/-! ## `__page_alloc` -/

/--
What a successful `__page_alloc(size)` makes of the block list: a block of that size is handed
out whole, or the end of a larger one is.
-/
inductive Taken (size : Nat) (bs : List PageBlock) : List PageBlock → Nat → Prop
  | whole {pre post : List PageBlock} {b : PageBlock} (hbs : bs = pre ++ b :: post)
      (hfit : b.length = size) : Taken size bs (pre ++ post) (b.addr - phyMapBase)
  | tail {pre post : List PageBlock} {b : PageBlock} (hbs : bs = pre ++ b :: post)
      (hlarge : size < b.length) :
      Taken size bs (pre ++ { b with length := b.length - size } :: post)
        (b.addr - phyMapBase + (b.length - size) * 4096)

/-- The pages taken are pages the pool had. -/
theorem Taken.partition (h : Taken size bs bs' ret) {rest : List (Nat × Nat)} {S : Set Nat}
    (hp : Partition (bs.map PageBlock.range ++ rest) S) :
    Partition (bs'.map PageBlock.range ++ (ret, size * 4096) :: rest) S := by
  cases h with
  | @whole pre post b hbs hfit =>
    have hmove : (bs.map PageBlock.range ++ rest).Perm
        ((pre ++ post).map PageBlock.range ++ b.range :: rest) := by
      rw [hbs, List.perm_iff_count]
      intro r
      simp only [List.map_append, List.map_cons, List.count_append, List.count_cons]
      omega
    have := hp.perm hmove
    rwa [PageBlock.range, hfit] at this
  | @tail pre post b hbs hlarge =>
    have hsplit : b.range = (b.addr - phyMapBase, (b.length - size) * 4096 + size * 4096) := by
      rw [PageBlock.range, ← Nat.add_mul, Nat.sub_add_cancel hlarge.le]
    have hfront : (bs.map PageBlock.range ++ rest).Perm
        (b.range :: ((pre ++ post).map PageBlock.range ++ rest)) := by
      rw [hbs, List.perm_iff_count]
      intro r
      simp only [List.map_append, List.map_cons, List.count_append, List.count_cons]
      omega
    have hcut := Partition.split_iff.mp (hsplit ▸ hp.perm hfront)
    refine hcut.perm ?_
    rw [List.perm_iff_count]
    intro r
    simp only [List.map_append, List.map_cons, List.count_append, List.count_cons,
      PageBlock.range]
    omega

theorem Taken.pageCount (h : Taken size bs bs' ret) : pageCount bs' + size = pageCount bs := by
  cases h with
  | whole hbs hfit =>
    rw [hbs]
    simp only [pageCount_append, pageCount_cons]
    omega
  | tail hbs hlarge =>
    rw [hbs]
    simp only [pageCount_append, pageCount_cons]
    omega

theorem PoolAt.next_block (h : PoolAt mmPool m t (pre ++ b :: post)) :
    next m b.addr = (post.map PageBlock.addr).headD mmPool.addr := by
  have hr := h.pages.ring
  rw [List.map_append, List.map_cons] at hr
  exact hr.next_mem

theorem PoolAt.addr_ne (h : PoolAt mmPool m t bs) (hb : b ∈ bs) : b.addr ≠ mmPool.addr := by
  have := h.placed.below b.addr (List.mem_map_of_mem hb)
  omega

theorem PageBlock.WellFormed.convert (h : b.WellFormed) {n : Nat} (hn : n ≤ b.length) :
    convertVirtToPhy (add64 b.addr (shl64 n 12)) = some (b.addr - phyMapBase + n * 4096) := by
  have h1 := h.bounds
  have h2 := h.fits
  simp only [PageBlock.stop, phyMapBase, phyMapSize, kernelImageBase] at h1 h2 ⊢
  rw [shl64_eq (by omega), add64_eq (by omega), convertVirtToPhy_eq (by simp only [phyMapBase]; omega)
    (by omega)]
  exact congrArg some (by simp only [phyMapBase]; omega)

theorem PageBlock.stop_shrink (b : PageBlock) (size : Nat) :
    ({ b with length := b.length - size } : PageBlock).stop ≤ b.stop :=
  Nat.add_le_add_left (Nat.mul_le_mul_right 4096 (Nat.sub_le b.length size)) b.addr

theorem PageBlock.WellFormed.shrink (h : b.WellFormed) (hlarge : size < b.length) :
    ({ b with length := b.length - size } : PageBlock).WellFormed :=
  ⟨Nat.sub_pos_of_lt hlarge, h.aligned, h.above, (b.stop_shrink size).trans h.fits⟩

/-- A block of the right size leaves the pool. -/
theorem PoolAt.takeWhole (h : PoolAt mmPool m t (pre ++ b :: post)) :
    let m1 := listDel m b.addr
    let m2 := mmPool.setAvailable m1 (sub64 (mmPool.available m1) b.length)
    PoolAt mmPool m2 t (pre ++ post) ∧
      Mem.SameOutside (poolArea mmPool (pre ++ b :: post)) m m2 := by
  intro m1 m2
  have hp := h.placed
  obtain ⟨hpages, hs⟩ := h.pages.remove hp
  have hle := h.pageCount_le
  have hav : sub64 (mmPool.available m1) b.length = pageCount (pre ++ post) := by
    rw [(counters_frame hp hs).1, h.available]
    simp only [pageCount_append, pageCount_cons] at hle ⊢
    rw [sub64_eq (by omega) (by omega)]
    omega
  simp only [m2, hav]
  exact h.rebook hp hs hpages
    (fun c hc => h.wellFormed c (mem_middle.mpr (Or.inr hc)))
    (h.sorted.sublist (by simp))

/-- A larger block loses its end. -/
theorem PoolAt.takeTail (h : PoolAt mmPool m t (pre ++ b :: post)) (hpos : 0 < size)
    (hlarge : size < b.length) :
    let m1 := setPageLength m b.addr (sub64 b.length size)
    let m2 := mmPool.setAvailable m1 (sub64 (mmPool.available m1) size)
    PoolAt mmPool m2 t (pre ++ { b with length := b.length - size } :: post) ∧
      Mem.SameOutside (poolArea mmPool (pre ++ b :: post)) m m2 ∧
      pageLength m2 b.addr = b.length - size := by
  intro m1 m2
  have hp := h.placed
  have hle := h.pageCount_le
  simp only [pageCount_append, pageCount_cons] at hle
  have hlen : sub64 b.length size = b.length - size := sub64_eq (by omega) (by omega)
  have hpages : PagesAt mmPool m1 (pre ++ { b with length := b.length - size } :: post) := by
    simp only [m1, hlen]
    exact h.pages.setLength hp (by omega)
  have hs : Mem.SameOutside (headerArea mmPool ((pre ++ b :: post).map PageBlock.addr)) m m1 :=
    sameOutside_store (List.mem_map_of_mem (by simp)) (by omega)
  have hav : sub64 (mmPool.available m1) size
      = pageCount (pre ++ { b with length := b.length - size } :: post) := by
    rw [(counters_frame hp hs).1, h.available]
    simp only [pageCount_append, pageCount_cons]
    rw [sub64_eq (by omega) (by omega)]
    omega
  have hwf : ∀ c ∈ pre ++ { b with length := b.length - size } :: post, c.WellFormed := by
    intro c hc
    rcases mem_middle.mp hc with rfl | hc
    · exact (h.wellFormed b (by simp)).shrink hlarge
    · exact h.wellFormed c (mem_middle.mpr (Or.inr hc))
  have hsorted : (pre ++ { b with length := b.length - size } :: post).Pairwise
      fun b c => b.stop ≤ c.addr := by
    have hs := h.sorted
    rw [List.pairwise_append, List.pairwise_cons] at hs ⊢
    refine ⟨hs.1, ⟨fun c hc => ?_, hs.2.1.2⟩, fun c hc d hd => ?_⟩
    · exact (b.stop_shrink size).trans (hs.2.1.1 c hc)
    · rcases List.mem_cons.mp hd with rfl | hd
      · exact hs.2.2 c hc b (by simp)
      · exact hs.2.2 c hc d (List.mem_cons_of_mem _ hd)
  simp only [m2, hav]
  obtain ⟨h1, h2⟩ := h.rebook hp hs hpages hwf hsorted
  exact ⟨h1, h2, h1.pages.length { b with length := b.length - size } (by simp)⟩

/-- The loop of `__page_alloc` with the blocks `pre` behind it and `post` ahead. -/
theorem PoolAt.pageAllocFrom (h : PoolAt mmPool m t (pre ++ post)) (hpos : 0 < size)
    (hpre : ∀ b ∈ pre, b.length < size) {fuel : Nat} (hf : post.length < fuel) :
    (__pageAllocFrom mmPool size fuel ((post.map PageBlock.addr).headD mmPool.addr) m
        = some (invalidAddr, m) ∧ ∀ b ∈ pre ++ post, b.length < size) ∨
      ∃ bs' ret m', __pageAllocFrom mmPool size fuel
          ((post.map PageBlock.addr).headD mmPool.addr) m = some (ret, m') ∧
        Taken size (pre ++ post) bs' ret ∧ PoolAt mmPool m' t bs' ∧
        Mem.SameOutside (poolArea mmPool (pre ++ post)) m m' := by
  induction post generalizing pre fuel with
  | nil =>
    obtain ⟨fuel, rfl⟩ : ∃ f, fuel = f + 1 := ⟨fuel - 1, by simp at hf; omega⟩
    left
    exact ⟨by simp [__pageAllocFrom], by simpa using hpre⟩
  | cons b post ih =>
    obtain ⟨fuel, rfl⟩ : ∃ f, fuel = f + 1 := ⟨fuel - 1, by simp at hf; omega⟩
    have hwf := h.wellFormed b (by simp)
    have hlen := h.pages.length b (by simp)
    rw [List.map_cons, List.headD_cons, __pageAllocFrom, if_neg (h.addr_ne (by simp)), hlen]
    rcases lt_trichotomy b.length size with hlt | heq | hgt
    · rw [if_neg (by omega), if_neg (by omega), h.next_block, List.append_cons]
      refine ih (by rwa [← List.append_cons]) (fun c hc => ?_)
        (by simp only [List.length_cons] at hf; omega)
      rcases List.mem_append.mp hc with hc | hc
      · exact hpre c hc
      · rw [List.mem_singleton.mp hc]
        exact hlt
    · right
      obtain ⟨h', hs⟩ := h.takeWhole
      have hconv : convertVirtToPhy b.addr = some (b.addr - phyMapBase) := by
        have := hwf.bounds
        simp only [kernelImageBase] at this
        exact convertVirtToPhy_eq hwf.above (by omega)
      subst heq
      rw [if_pos rfl, hconv]
      exact ⟨_, _, _, rfl, .whole rfl rfl, h', hs⟩
    · right
      obtain ⟨h', hs, hlen'⟩ := h.takeTail hpos hgt
      rw [if_neg (by omega), if_pos hgt]
      simp only [hlen', hwf.convert (Nat.sub_le b.length size)]
      exact ⟨_, _, _, rfl, .tail rfl hgt, h', hs⟩

/-- `__page_alloc` fails when every block is too small, and takes from one otherwise. -/
theorem PoolAt.__pageAlloc (h : PoolAt mmPool m t bs) (hpos : 0 < size) :
    (Raincloud.__pageAlloc mmPool size m = some (invalidAddr, m) ∧ ∀ b ∈ bs, b.length < size) ∨
      ∃ bs' ret m', Raincloud.__pageAlloc mmPool size m = some (ret, m') ∧
        Taken size bs bs' ret ∧ PoolAt mmPool m' t bs' ∧
        Mem.SameOutside (poolArea mmPool bs) m m' := by
  unfold Raincloud.__pageAlloc
  split
  · next hempty =>
    rw [listEmpty_iff h.pages.ring, List.map_eq_nil_iff] at hempty
    exact Or.inl ⟨rfl, by simp [hempty]⟩
  · rw [h.pages.ring.next_head]
    have h' : PoolAt mmPool m t ([] ++ bs) := h
    exact h'.pageAllocFrom hpos (by simp) h.length_lt

/-! ## `__page_merge` -/

/-- Two blocks that touch. -/
def PageBlock.Touch (b c : PageBlock) : Prop := b.stop = c.addr

instance : DecidableRel PageBlock.Touch := fun b c =>
  inferInstanceAs (Decidable (b.stop = c.addr))

def PageBlock.join (b c : PageBlock) : PageBlock := { b with length := b.length + c.length }

/-- Runs of blocks that touch become one block. -/
def mergePages : List PageBlock → List PageBlock := mergeRuns PageBlock.Touch PageBlock.join

theorem PageBlock.stop_join (h : b.Touch c) : (b.join c).stop = c.stop := by
  simp only [PageBlock.Touch, PageBlock.stop, PageBlock.join] at h ⊢
  rw [← h, Nat.add_mul, Nat.add_assoc]

theorem PageBlock.WellFormed.join (hb : b.WellFormed) (hc : c.WellFormed) (h : b.Touch c) :
    (b.join c).WellFormed :=
  ⟨Nat.add_pos_left hb.pos _, hb.aligned, hb.above, PageBlock.stop_join h ▸ hc.fits⟩

theorem mergePages_partition {rest : List (Nat × Nat)} {S : Set Nat}
    (hwf : ∀ b ∈ bs, b.WellFormed) (h : Partition (bs.map PageBlock.range ++ rest) S) :
    Partition ((mergePages bs).map PageBlock.range ++ rest) S := by
  refine (mergeRuns_induction (P := fun cs => (∀ b ∈ cs, b.WellFormed) ∧
    Partition (cs.map PageBlock.range ++ rest) S) ?_ ⟨hwf, h⟩).2
  rintro pre b c post ht ⟨hwf, h⟩
  have hb := hwf b (by simp)
  have hc := hwf c (by simp)
  have hrange : (b.join c).range
      = (b.addr - phyMapBase, b.length * 4096 + c.length * 4096) := by
    rw [PageBlock.range, ← Nat.add_mul]
    rfl
  have hnext : c.range = (b.addr - phyMapBase + b.length * 4096, c.length * 4096) := by
    have h1 := hb.above
    simp only [PageBlock.Touch, PageBlock.stop] at ht
    rw [PageBlock.range, ← ht]
    refine Prod.ext ?_ rfl
    simp only
    omega
  refine ⟨fun d hd => ?_, ?_⟩
  · rcases mem_middle.mp hd with rfl | hd
    · exact hb.join hc ht
    · refine hwf d ?_
      rw [mem_middle, mem_middle]
      exact Or.inr (Or.inr hd)
  · have hfront : ((pre ++ b :: c :: post).map PageBlock.range ++ rest).Perm
        (b.range :: c.range :: ((pre ++ post).map PageBlock.range ++ rest)) := by
      rw [List.perm_iff_count]
      intro r
      simp only [List.map_append, List.map_cons, List.count_append, List.count_cons]
      omega
    have hjoined := h.perm hfront
    rw [hnext] at hjoined
    refine (Partition.split_iff.mpr hjoined).perm ?_
    rw [← hrange, List.perm_iff_count]
    intro r
    simp only [List.map_append, List.map_cons, List.count_append, List.count_cons]
    omega

theorem mergePages_pageCount (bs : List PageBlock) : pageCount (mergePages bs) = pageCount bs := by
  refine mergeRuns_induction (P := fun cs => pageCount cs = pageCount bs) ?_ rfl
  intro pre b c post _ h
  rw [← h]
  simp only [pageCount_append, pageCount_cons, PageBlock.join]
  omega

/-- One round of the inner loop: `b` swallows the block `c` behind it. -/
theorem PoolAt.absorb (h : PoolAt mmPool m t (pre ++ b :: c :: post)) (ht : b.Touch c) :
    PoolAt mmPool (__pageMergeBody m b.addr c.addr) t (pre ++ b.join c :: post) ∧
      Mem.SameOutside (poolArea mmPool (pre ++ b :: c :: post)) m
        (__pageMergeBody m b.addr c.addr) := by
  have hp := h.placed
  have hle := h.pageCount_le
  simp only [pageCount_append, pageCount_cons] at hle
  have hlen : add64 (pageLength m b.addr) (pageLength m c.addr) = (b.join c).length := by
    rw [h.pages.length b (by simp), h.pages.length c (by simp), add64_eq (by omega)]
    rfl
  obtain ⟨m1, hm1⟩ : ∃ m1, m1 = setPageLength m b.addr (b.join c).length := ⟨_, rfl⟩
  have hbody : __pageMergeBody m b.addr c.addr
      = memset (listDel m1 c.addr) c.addr 0 mmBlockSize := by
    rw [hm1, ← hlen]
    rfl
  have hmap : (pre ++ b.join c :: c :: post).map PageBlock.addr
      = (pre ++ b :: c :: post).map PageBlock.addr := by simp [PageBlock.join]
  have hp1 : Placed mmPool ((pre ++ [b.join c] ++ c :: post).map PageBlock.addr) := by
    rw [← List.append_cons, hmap]
    exact hp
  have hpages1 : PagesAt mmPool m1 (pre ++ [b.join c] ++ c :: post) := by
    rw [hm1, ← List.append_cons]
    refine h.pages.setLength hp ?_
    simp only [PageBlock.join]
    omega
  have hs1 : Mem.SameOutside (headerArea mmPool ((pre ++ b :: c :: post).map PageBlock.addr)) m
      m1 := by
    rw [hm1]
    exact sameOutside_store (List.mem_map_of_mem (by simp)) (by omega)
  obtain ⟨hpages2, hs2⟩ := hpages1.remove hp1
  have hc : c.addr ∈ (pre ++ b :: c :: post).map PageBlock.addr := List.mem_map_of_mem (by simp)
  have hs3 := Mem.fill_sameOutside (listDel m1 c.addr) c.addr 0 mmBlockSize
  have hpages3 : PagesAt mmPool (__pageMergeBody m b.addr c.addr) (pre ++ b.join c :: post) := by
    rw [hbody, List.append_cons]
    refine hpages2.congr hs3 ?_
    rintro x (hx | ⟨a, ha, hx⟩) hin
    · have := hp.below _ hc
      have h2 : x < c.addr + 24 := hin.2
      omega
    · obtain ⟨d, hd, rfl⟩ := List.mem_map.mp ha
      have hd' : d.addr ∈ (pre ++ b :: c :: post).map PageBlock.addr := by
        rw [← hmap, List.append_cons]
        exact List.mem_map_of_mem (mem_middle.mpr (Or.inr hd))
      have := hp.apart _ hd' _ hc (hpages1.addr_ne d hd)
      have h1 : c.addr ≤ x := hin.1
      have h2 : x < c.addr + 24 := hin.2
      omega
  have hs : Mem.SameOutside (headerArea mmPool ((pre ++ b :: c :: post).map PageBlock.addr)) m
      (__pageMergeBody m b.addr c.addr) := by
    rw [← List.append_cons, hmap] at hs2
    rw [hbody]
    refine (hs1.trans hs2).trans (hs3.mono fun x hx => ?_)
    have h1 : c.addr ≤ x := hx.1
    have h2 : x < c.addr + 24 := hx.2
    exact Or.inr ⟨c.addr, hc, h1, by omega⟩
  refine ⟨h.relist hp hs hpages3 (fun d hd => ?_) ?_ ?_, hs.mono Set.subset_union_left⟩
  · rcases mem_middle.mp hd with rfl | hd
    · exact (h.wellFormed b (by simp)).join (h.wellFormed c (by simp)) ht
    · refine h.wellFormed d ?_
      rw [mem_middle, mem_middle]
      exact Or.inr (Or.inr hd)
  · have hsorted := h.sorted
    rw [List.pairwise_append, List.pairwise_cons, List.pairwise_cons] at hsorted
    rw [List.pairwise_append, List.pairwise_cons]
    refine ⟨hsorted.1, ⟨fun d hd => ?_, hsorted.2.1.2.2⟩, fun d hd e he => ?_⟩
    · rw [PageBlock.stop_join ht]
      exact hsorted.2.1.2.1 d hd
    · rcases List.mem_cons.mp he with rfl | he
      · exact hsorted.2.2 d hd b (by simp)
      · exact hsorted.2.2 d hd e (by simp [he])
  · simp only [pageCount_append, pageCount_cons, PageBlock.join]
    omega

theorem pageMergeStep (mmPool : MmPool) (m : Mem) (t : Nat) (bs : List PageBlock) :
    MergeStep __pageMergeCond __pageMergeBody mmPool.addr PageBlock.addr PageBlock.Touch
      PageBlock.join fun s cs => PoolAt mmPool s t cs ∧
        poolArea mmPool cs ⊆ poolArea mmPool bs ∧
        Mem.SameOutside (poolArea mmPool bs) m s where
  ring h := h.1.pages.ring
  addr_join _ _ := rfl
  cond_iff {s pre b c post} h := by
    have hb := h.1.pages.length b (by simp)
    have hwf := (h.1.wellFormed b (by simp)).bounds
    simp only [PageBlock.stop, kernelImageBase] at hwf
    rw [__pageMergeCond, hb, shl64_eq (by omega), add64_eq (by omega)]
    simp [PageBlock.Touch, PageBlock.stop]
  body {s pre b c post} h ht := by
    obtain ⟨h1, h2⟩ := h.1.absorb ht
    refine ⟨h1, (poolArea_mono fun x hx => ?_).trans h.2.1, h.2.2.trans (h2.mono h.2.1)⟩
    rcases mem_middle.mp hx with rfl | hx
    · exact ⟨b, by simp, rfl⟩
    · refine ⟨x, ?_, rfl⟩
      rw [mem_middle, mem_middle]
      exact Or.inr (Or.inr hx)

/-- `__page_merge` runs blocks that touch together. -/
theorem PoolAt.__pageMerge (h : PoolAt mmPool m t bs) :
    ∃ m', Raincloud.__pageMerge mmPool m = some m' ∧ PoolAt mmPool m' t (mergePages bs) ∧
      poolArea mmPool (mergePages bs) ⊆ poolArea mmPool bs ∧
      Mem.SameOutside (poolArea mmPool bs) m m' :=
  (pageMergeStep mmPool m t bs).mergeWalk_eq
    ⟨h, subset_rfl, Mem.SameOutside.refl _ m⟩ h.length_lt

/-! ## `__page_free` -/

/-- The search stops at the first block behind `addr`. -/
theorem pageFreeFrom_eq (hr : Ring m mmPool.addr ((pre ++ post).map PageBlock.addr)) {addr : Nat}
    (hpre : ∀ b ∈ pre, b.addr ≤ addr) {fuel : Nat} (hf : post.length < fuel) :
    ∃ pre' post', pre ++ post = pre' ++ post' ∧ (∀ b ∈ pre', b.addr ≤ addr) ∧
      (∀ b ∈ post'.head?, addr < b.addr) ∧
      __pageFreeFrom mmPool m addr fuel ((post.map PageBlock.addr).headD mmPool.addr)
        = some ((post'.map PageBlock.addr).headD mmPool.addr) := by
  induction post generalizing pre fuel with
  | nil =>
    obtain ⟨fuel, rfl⟩ : ∃ f, fuel = f + 1 := ⟨fuel - 1, by simp at hf; omega⟩
    exact ⟨pre, [], rfl, hpre, by simp, by simp [__pageFreeFrom]⟩
  | cons b post ih =>
    obtain ⟨fuel, rfl⟩ : ∃ f, fuel = f + 1 := ⟨fuel - 1, by simp at hf; omega⟩
    have hr' := hr
    rw [List.map_append, List.map_cons] at hr'
    have hb : b.addr ≠ mmPool.addr := by
      intro he
      exact hr'.not_mem (he ▸ by simp)
    rw [List.map_cons, List.headD_cons, __pageFreeFrom, if_neg hb]
    split
    · next hgt => exact ⟨pre, b :: post, rfl, hpre, by simpa using hgt, by simp⟩
    · next hle =>
      rw [hr'.next_mem, List.append_cons]
      refine ih (by rwa [← List.append_cons]) (fun d hd => ?_)
        (by simp only [List.length_cons] at hf; omega)
      rcases List.mem_append.mp hd with hd | hd
      · exact hpre d hd
      · rw [List.mem_singleton.mp hd]
        omega

/-- The block at physical address `size` of `size` pages is what `__page_free` adds. -/
def freedBlock (size : Nat) : PageBlock := ⟨size + phyMapBase, size⟩

/-- Blocks that stay clear of the block `c`. -/
def Clear (bs : List PageBlock) (c : PageBlock) : Prop :=
  ∀ b ∈ bs, b.stop ≤ c.addr ∨ c.stop ≤ b.addr

theorem PoolAt.placed_cons (h : PoolAt mmPool m t bs) (hc : c.WellFormed) (hclear : Clear bs c) :
    Placed mmPool (c.addr :: bs.map PageBlock.addr) := by
  have hp := h.placed
  have hb := hc.bounds
  have himage := mmPool.image
  have key : ∀ a ∈ bs.map PageBlock.addr, a + 32 ≤ c.addr ∨ c.addr + 32 ≤ a := by
    intro a ha
    obtain ⟨d, hd, rfl⟩ := List.mem_map.mp ha
    have h1 := (h.wellFormed d hd).bounds
    have h2 := hclear d hd
    omega
  refine ⟨hp.fits, fun a ha => ?_, fun a ha a' ha' hne => ?_⟩
  · rcases List.mem_cons.mp ha with rfl | ha
    · omega
    · exact hp.below a ha
  · rcases List.mem_cons.mp ha with rfl | ha <;> rcases List.mem_cons.mp ha' with rfl | ha'
    · exact absurd rfl hne
    · exact (key a' ha').symm
    · exact key a ha
    · exact hp.apart a ha a' ha' hne

/-- A block put in at its place in address order. -/
theorem sorted_insert (hs : (pre ++ post).Pairwise fun b c => b.stop ≤ c.addr)
    (hwf : ∀ b ∈ pre ++ post, b.WellFormed) (hc : c.WellFormed) (hclear : Clear (pre ++ post) c)
    (hpre : ∀ b ∈ pre, b.addr ≤ c.addr) (hpost : ∀ b ∈ post.head?, c.addr < b.addr) :
    (pre ++ c :: post).Pairwise fun b c => b.stop ≤ c.addr := by
  have hcb := hc.bounds
  rw [List.pairwise_append] at hs ⊢
  have hbefore : ∀ b ∈ pre, b.stop ≤ c.addr := by
    intro b hb
    have h1 := hpre b hb
    have h2 := hclear b (List.mem_append_left _ hb)
    omega
  have hbehind : ∀ b ∈ post, c.stop ≤ b.addr := by
    intro b hb
    have h1 := (hwf b (List.mem_append_right _ hb)).bounds
    have h2 := hclear b (List.mem_append_right _ hb)
    have hgt : c.addr < b.addr := by
      cases post with
      | nil => simp at hb
      | cons d post =>
        have hd := hpost d (by simp)
        rcases List.mem_cons.mp hb with rfl | hb
        · exact hd
        · have h3 := (List.pairwise_cons.mp hs.2.1).1 b hb
          have h4 := (hwf d (by simp)).bounds
          omega
    omega
  refine ⟨hs.1, List.pairwise_cons.mpr ⟨hbehind, hs.2.1⟩, fun b hb d hd => ?_⟩
  rcases List.mem_cons.mp hd with rfl | hd
  · exact hbefore b hb
  · exact hs.2.2 b hb d hd

theorem PoolAt.__pageFree (h : PoolAt mmPool m t bs) (hwf : (freedBlock size).WellFormed)
    (hclear : Clear bs (freedBlock size)) (addr : Nat) :
    ∃ m' pre post, Raincloud.__pageFree mmPool addr size m = some m' ∧ bs = pre ++ post ∧
      PoolAt mmPool m' t (pre ++ freedBlock size :: post) ∧
      Mem.SameOutside (poolArea mmPool (freedBlock size :: bs)) m m' := by
  have hp := h.placed_cons hwf hclear
  have hb := hwf.bounds
  have hfits := hwf.fits
  have hsize : size < phyMapSize := by
    simp only [freedBlock] at hb hfits
    omega
  have hnew : (freedBlock size).addr ∉ bs.map PageBlock.addr := by
    intro hin
    obtain ⟨d, hd, he⟩ := List.mem_map.mp hin
    have h1 := (h.wellFormed d hd).bounds
    have h2 := hclear d hd
    omega
  have hpages := h.pages.initBlock (n := size) hp hnew
  have hring' : Ring (__initBlock m (freedBlock size).addr size) mmPool.addr
      (([] ++ bs).map PageBlock.addr) := hpages.ring
  obtain ⟨pre, post, hbs, hpre, hpost, hsearch⟩ :=
    pageFreeFrom_eq hring' (List.forall_mem_nil fun b : PageBlock => b.addr ≤ (freedBlock size).addr)
      h.length_lt
  rw [List.nil_append] at hbs
  subst hbs
  have hlt : (freedBlock size).length < 2 ^ 64 := by
    simp only [freedBlock, phyMapSize] at hsize ⊢
    omega
  obtain ⟨m2, hm2⟩ : ∃ m2, m2 = listAddBefore (__initBlock m (freedBlock size).addr size)
      ((post.map PageBlock.addr).headD mmPool.addr) (freedBlock size).addr := ⟨_, rfl⟩
  obtain ⟨hins, hs⟩ : PagesAt mmPool m2 (pre ++ freedBlock size :: post) ∧ Mem.SameOutside
      (headerArea mmPool ((freedBlock size).addr :: (pre ++ post).map PageBlock.addr)) m m2 :=
    hm2 ▸ h.pages.insert hlt hp hnew
  have hav : add64 (mmPool.available m2) size = pageCount (pre ++ freedBlock size :: post) := by
    have hle := h.pageCount_le
    simp only [phyMapSize] at hsize
    rw [(counters_frame hp hs).1, h.available, add64_eq (by omega)]
    simp only [pageCount_append, pageCount_cons, freedBlock]
    omega
  have hall : ∀ d ∈ pre ++ freedBlock size :: post, d.WellFormed := by
    intro d hd
    rcases mem_middle.mp hd with rfl | hd
    · exact hwf
    · exact h.wellFormed d hd
  obtain ⟨h', hs'⟩ := h.rebook hp hs hins hall
    (sorted_insert h.sorted h.wellFormed hwf hclear hpre hpost)
  refine ⟨_, pre, post, ?_, rfl, h', hs'⟩
  rw [← hpages.ring.next_head] at hsearch
  unfold Raincloud.__pageFree
  rw [convertPhyToVirt_eq hsize, Option.bind_some]
  simp only [freedBlock] at hsearch hm2
  simp only [hsearch, Option.map_some, ← hm2, hav]

/-! ## The consistency check -/

theorem PoolAt.pageCheckFrom (h : PoolAt mmPool m t (pre ++ post)) {fuel sum : Nat}
    (hf : post.length < fuel) (hs : sum + pageCount post < 2 ^ 64) :
    __pageCheckFrom mmPool m fuel ((post.map PageBlock.addr).headD mmPool.addr) sum
      = some (sum + pageCount post, []) := by
  induction post generalizing pre fuel sum with
  | nil =>
    obtain ⟨fuel, rfl⟩ : ∃ f, fuel = f + 1 := ⟨fuel - 1, by simp at hf; omega⟩
    simp [__pageCheckFrom]
  | cons b post ih =>
    obtain ⟨fuel, rfl⟩ : ∃ f, fuel = f + 1 := ⟨fuel - 1, by simp at hf; omega⟩
    have hlen := h.pages.length b (by simp)
    rw [pageCount_cons] at hs
    have h' : PoolAt mmPool m t (pre ++ [b] ++ post) := by simpa using h
    have hf' : post.length < fuel := by
      simp only [List.length_cons] at hf
      omega
    have hs' : sum + b.length + pageCount post < 2 ^ 64 := by omega
    have hrec := ih h' hf' hs'
    have hend : ∀ c ∈ pre ++ b :: post,
        add64 c.addr (shl64 (pageLength m c.addr) 12) = c.stop := by
      intro c hc
      have hwf := (h.wellFormed c hc).bounds
      simp only [PageBlock.stop, kernelImageBase] at hwf ⊢
      rw [h.pages.length c hc, shl64_eq (by omega), add64_eq (by omega)]
      omega
    have hfine : ¬(next m b.addr ≠ mmPool.addr ∧ add64 b.addr (shl64 (pageLength m b.addr) 12)
        > add64 (next m b.addr) (shl64 (pageLength m (next m b.addr)) 12)) := by
      rw [h.next_block]
      cases post with
      | nil => exact fun hn => hn.1 rfl
      | cons c post =>
        rintro ⟨-, hgt⟩
        rw [List.map_cons, List.headD_cons, hend b (by simp), hend c (by simp)] at hgt
        have h1 := (h.wellFormed c (by simp)).bounds
        have h2 := h.sorted
        rw [List.pairwise_append, List.pairwise_cons] at h2
        have h3 := h2.2.1.1 c (by simp)
        omega
    rw [List.map_cons, List.headD_cons, __pageCheckFrom, if_neg (h.addr_ne (by simp))]
    simp only [if_neg hfine]
    rw [hlen, add64_eq (a := sum) (by omega), h.next_block, hrec, Option.map_some,
      pageCount_cons, Nat.add_assoc]

/-- The check never reports. -/
theorem PoolAt.pageConsistencyCheck (h : PoolAt mmPool m t bs) (ht : pageCount bs ≤ t) :
    __pageConsistencyCheck mmPool m = some [] := by
  have hle := h.pageCount_le
  have h' : PoolAt mmPool m t ([] ++ bs) := h
  have hcheck := h'.pageCheckFrom h.length_lt (show 0 + _ < 2 ^ 64 by omega)
  unfold __pageConsistencyCheck
  rw [if_pos (by rw [h.available, h.total]; exact ht), h.pages.ring.next_head, hcheck,
    Option.map_some, h.available, Nat.zero_add]
  simp

/-! ## `page_alloc` and `page_free` -/

/-- The pages taken make a well-formed block. -/
theorem Taken.wellFormed (h : Taken size bs bs' ret) (hwf : ∀ b ∈ bs, b.WellFormed)
    (hpos : 0 < size) : (⟨ret + phyMapBase, size⟩ : PageBlock).WellFormed := by
  cases h with
  | @whole pre post b hbs hfit =>
    have hb := hwf b (by simp [hbs])
    have heq : (⟨b.addr - phyMapBase + phyMapBase, size⟩ : PageBlock) = b := by
      rw [Nat.sub_add_cancel hb.above.le, ← hfit]
    rw [heq]
    exact hb
  | @tail pre post b hbs hlarge =>
    have hb := hwf b (by simp [hbs])
    have h1 := hb.above
    have h2 := hb.aligned
    have h3 := hb.fits
    have hsum : (b.length - size) * 4096 + size * 4096 = b.length * 4096 := by
      rw [← Nat.add_mul, Nat.sub_add_cancel hlarge.le]
    simp only [PageBlock.stop] at h3
    have haddr : (⟨b.addr - phyMapBase + (b.length - size) * 4096 + phyMapBase, size⟩ :
        PageBlock) = ⟨b.addr + (b.length - size) * 4096, size⟩ := by
      rw [Nat.add_right_comm, Nat.sub_add_cancel h1.le]
    rw [haddr]
    refine ⟨hpos, ?_, Nat.lt_add_right _ h1, ?_⟩
    · simp only
      rw [Nat.add_mul_mod_self_right]
      exact h2
    · simp only [PageBlock.stop]
      rw [Nat.add_assoc, hsum]
      exact h3

theorem PageBlock.WellFormed.ne_invalidAddr
    (h : (⟨ret + phyMapBase, size⟩ : PageBlock).WellFormed) : ret ≠ invalidAddr := by
  have := h.bounds
  simp only [PageBlock.stop, phyMapBase, kernelImageBase] at this
  simp only [invalidAddr]
  omega

/-- What the two attempts of `page_alloc` lead to. -/
theorem PoolAt.pageAllocBlock (h : PoolAt mmPool m t bs) (hpos : 0 < size) :
    ∃ bs₀ ret m', Raincloud.pageAllocBlock mmPool size m = some (ret, m') ∧
      (bs₀ = bs ∨ bs₀ = mergePages bs) ∧ (∀ b ∈ bs₀, b.WellFormed) ∧
      Mem.SameOutside (poolArea mmPool bs) m m' ∧
      (ret = invalidAddr ∧ PoolAt mmPool m' t bs₀ ∧ (∀ b ∈ mergePages bs, b.length < size) ∨
        ∃ bs', Taken size bs₀ bs' ret ∧ PoolAt mmPool m' t bs') := by
  unfold Raincloud.pageAllocBlock
  rcases h.__pageAlloc hpos with ⟨he, -⟩ | ⟨bs', ret, m', he, htaken, h', hs⟩
  · obtain ⟨m₁, hmerge, h₁, harea, hs₁⟩ := h.__pageMerge
    rw [he, Option.bind_some, if_pos rfl, hmerge, Option.bind_some]
    rcases h₁.__pageAlloc hpos with ⟨he₁, hsmall⟩ | ⟨bs', ret, m', he₁, htaken, h', hs⟩
    · exact ⟨_, _, _, he₁, Or.inr rfl, h₁.wellFormed, hs₁, Or.inl ⟨rfl, h₁, hsmall⟩⟩
    · exact ⟨_, _, _, he₁, Or.inr rfl, h₁.wellFormed, hs₁.trans (hs.mono harea),
        Or.inr ⟨bs', htaken, h'⟩⟩
  · have hret := (htaken.wellFormed h.wellFormed hpos).ne_invalidAddr
    rw [he, Option.bind_some, if_neg hret]
    exact ⟨_, _, _, rfl, Or.inl rfl, h.wellFormed, hs, Or.inr ⟨bs', htaken, h'⟩⟩

/-- What a call to `page_alloc` leads to: it fails, or pages of the pool become the caller's. -/
theorem PoolAt.pageAlloc (h : PoolAt mmPool m t bs) (ht : pageCount bs ≤ t) (hpos : 0 < size) :
    ∃ ret m' bs', Raincloud.pageAlloc mmPool size m = some ⟨m', ret, []⟩ ∧
      PoolAt mmPool m' t bs' ∧ Mem.SameOutside (poolArea mmPool bs) m m' ∧
      (ret = invalidAddr ∧ pageCount bs' = pageCount bs ∧
          (∀ b ∈ mergePages bs, b.length < size) ∧
          (∀ rest S, Partition (bs.map PageBlock.range ++ rest) S →
            Partition (bs'.map PageBlock.range ++ rest) S) ∨
        (⟨ret + phyMapBase, size⟩ : PageBlock).WellFormed ∧
          pageCount bs' + size = pageCount bs ∧
          ∀ rest S, Partition (bs.map PageBlock.range ++ rest) S →
            Partition (bs'.map PageBlock.range ++ (ret, size * 4096) :: rest) S) := by
  obtain ⟨bs₀, ret, m', he, hbs₀, hwf, hs, hres⟩ := h.pageAllocBlock hpos
  have hcount : pageCount bs₀ = pageCount bs := by
    rcases hbs₀ with rfl | rfl
    · rfl
    · exact mergePages_pageCount bs
  have hpart : ∀ rest S, Partition (bs.map PageBlock.range ++ rest) S →
      Partition (bs₀.map PageBlock.range ++ rest) S := by
    intro rest S hp
    rcases hbs₀ with rfl | rfl
    · exact hp
    · exact mergePages_partition h.wellFormed hp
  have hcall : ∀ bs', PoolAt mmPool m' t bs' → pageCount bs' ≤ pageCount bs →
      Raincloud.pageAlloc mmPool size m = some ⟨m', ret, []⟩ := by
    intro bs' h' hle
    unfold Raincloud.pageAlloc
    simp only [if_neg hpos.ne', he, Option.bind_some,
      h'.pageConsistencyCheck (hle.trans ht), Option.map_some]
  rcases hres with ⟨hret, h', hsmall⟩ | ⟨bs', htaken, h'⟩
  · exact ⟨ret, m', bs₀, hcall _ h' hcount.le, h', hs, Or.inl ⟨hret, hcount, hsmall, hpart⟩⟩
  · have hsize := htaken.pageCount
    refine ⟨ret, m', bs', hcall _ h' (by omega), h', hs,
      Or.inr ⟨htaken.wellFormed hwf hpos, by omega, fun rest S hp => ?_⟩⟩
    exact htaken.partition (hpart rest S hp)

/-- A `page_free` whose two arguments are the same number gives the pages back. -/
theorem PoolAt.pageFree (h : PoolAt mmPool m t bs) (hwf : (freedBlock size).WellFormed)
    (hclear : Clear bs (freedBlock size)) (ht : pageCount bs + size ≤ t) :
    ∃ m' bs', Raincloud.pageFree mmPool size size m = some ⟨m', NULL, []⟩ ∧
      PoolAt mmPool m' t bs' ∧ pageCount bs' = pageCount bs + size ∧
      Mem.SameOutside (poolArea mmPool (freedBlock size :: bs)) m m' ∧
      ∀ rest S, Partition (bs.map PageBlock.range ++ (size, size * 4096) :: rest) S →
        Partition (bs'.map PageBlock.range ++ rest) S := by
  obtain ⟨m', pre, post, he, rfl, h', hs⟩ := h.__pageFree hwf hclear size
  have hcount : pageCount (pre ++ freedBlock size :: post) = pageCount (pre ++ post) + size := by
    simp only [pageCount_append, pageCount_cons, freedBlock]
    omega
  refine ⟨m', _, ?_, h', hcount, hs, fun rest S hp => hp.perm ?_⟩
  · unfold Raincloud.pageFree
    rw [he, Option.bind_some, h'.pageConsistencyCheck (by omega), Option.map_some]
  · have hrange : (freedBlock size).range = (size, size * 4096) := by
      simp only [PageBlock.range, freedBlock, Nat.add_sub_cancel]
    rw [← hrange, List.perm_iff_count]
    intro r
    simp only [List.map_append, List.map_cons, List.count_append, List.count_cons]
    omega

end Raincloud
