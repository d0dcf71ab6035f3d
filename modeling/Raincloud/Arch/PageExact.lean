import Raincloud.Arch.PageRun

/-!
# `page_alloc` finds pages exactly when there are some

`page_alloc` looks for a block that is large enough, merges the blocks that touch and looks
again. After the merge no two blocks touch, so pages in a row that are all free lie in one block,
and a search that fails has seen that there is no room.
-/

set_option linter.style.nameCheck false

namespace Raincloud

open Infra Infra.LinkStore

variable {mmPool : MmPool} {m m' : Mem} {t n p size ret : Nat} {bs bs' : List PageBlock}
  {b c : PageBlock}

/-- The numbers of the physical pages in the blocks. -/
def freePages (bs : List PageBlock) : Set Nat := {p | p * 4096 ∈ blockBytes bs}

/-- The numbers of `n` pages in a row. -/
def pageRun (p n : Nat) : Set Nat := Set.Ico p (p + n)

/-! ## Pages of blocks -/

/-- The number of the first page of a block. -/
def PageBlock.firstPage (b : PageBlock) : Nat := (b.addr - phyMapBase) / 4096

theorem PageBlock.WellFormed.addr_eq (h : b.WellFormed) :
    b.addr = phyMapBase + b.firstPage * 4096 := by
  have h1 := h.above
  have h2 := h.aligned
  have hbase : phyMapBase % 4096 = 0 := by decide
  simp only [PageBlock.firstPage]
  omega

/-- The end of one block and the start of another, in pages. -/
theorem PageBlock.WellFormed.stop_lt_iff (hb : b.WellFormed) (hc : c.WellFormed) :
    b.stop < c.addr ↔ b.firstPage + b.length < c.firstPage := by
  rw [PageBlock.stop, hb.addr_eq, hc.addr_eq, Nat.add_assoc, ← Nat.add_mul, Nat.add_lt_add_iff_left]
  exact Nat.mul_lt_mul_right (by decide)

theorem PageBlock.WellFormed.mem_range (h : b.WellFormed) :
    p * 4096 ∈ rangeArea b.range ↔ b.firstPage ≤ p ∧ p < b.firstPage + b.length := by
  have he : b.addr - phyMapBase = b.firstPage * 4096 := by
    have := h.addr_eq
    omega
  simp only [rangeArea, PageBlock.range, Set.mem_Ico, he, ← Nat.add_mul]
  exact and_congr (Nat.mul_le_mul_right_iff (by decide)) (Nat.mul_lt_mul_right (by decide))

theorem mem_freePages (hwf : ∀ b ∈ bs, b.WellFormed) :
    p ∈ freePages bs ↔ ∃ b ∈ bs, b.firstPage ≤ p ∧ p < b.firstPage + b.length :=
  exists_congr fun _ => and_congr_right fun hb => (hwf _ hb).mem_range

/-- The same bytes are the same pages. -/
theorem freePages_of_partition {S : Set Nat} (h : Partition (bs.map PageBlock.range) S)
    (h' : Partition (bs'.map PageBlock.range) S) : freePages bs' = freePages bs := by
  ext p
  simp only [freePages, Set.mem_ofPred_eq, mem_blockBytes]
  rw [← h.union, ← h'.union]

theorem mergePages_freePages (h : PoolAt mmPool m t bs) :
    freePages (mergePages bs) = freePages bs := by
  have hp : Partition (bs.map PageBlock.range ++ []) (blockBytes bs) := by
    simpa using h.partition
  have hm := mergePages_partition h.wellFormed hp
  rw [List.append_nil] at hm
  exact freePages_of_partition h.partition hm

/-! ## No two blocks touch -/

/-- After the merge no block ends where another one begins. -/
theorem mergePages_isChain (bs : List PageBlock) :
    (mergePages bs).IsChain fun b c => ¬b.Touch c := by
  have hfront : ∀ a b c : PageBlock, b.Touch c → (a.Touch (b.join c) ↔ a.Touch b) :=
    fun _ _ _ _ => Iff.rfl
  exact isChain_mergeRuns hfront bs

/-- Blocks in order none of which touches the next leave a gap behind each. -/
theorem pairwise_lt_of_isChain (hwf : ∀ b ∈ bs, b.WellFormed)
    (hs : bs.Pairwise fun b c => b.stop ≤ c.addr) (hc : bs.IsChain fun b c => ¬b.Touch c) :
    bs.Pairwise fun b c => b.stop < c.addr := by
  induction bs with
  | nil => exact .nil
  | cons b bs ih =>
    rw [List.pairwise_cons] at hs
    refine List.pairwise_cons.mpr ⟨fun c hcm => ?_,
      ih (fun c hcm => hwf c (List.mem_cons_of_mem _ hcm)) hs.2 hc.tail⟩
    cases bs with
    | nil => simp at hcm
    | cons d bs =>
      have hgap : b.stop < d.addr :=
        lt_of_le_of_ne (hs.1 d (by simp)) (List.isChain_cons_cons.mp hc).1
      rcases List.mem_cons.mp hcm with rfl | hcm
      · exact hgap
      · have hd := (hwf d (by simp)).bounds
        have := (List.pairwise_cons.mp hs.2).1 c hcm
        omega

/-- Free pages in a row lie in one block when no two blocks touch. -/
theorem exists_block_of_run (hwf : ∀ b ∈ bs, b.WellFormed)
    (hgap : bs.Pairwise fun b c => b.stop < c.addr) (hn : 0 < n)
    (hrun : pageRun p n ⊆ freePages bs) : ∃ b ∈ bs, n ≤ b.length := by
  obtain ⟨b, hb, hlo, hhi⟩ := (mem_freePages hwf).mp (hrun ⟨le_rfl, by omega⟩)
  -- each further page is in the block of the page before it
  have hin : ∀ i < n, p + i < b.firstPage + b.length := by
    intro i
    induction i with
    | zero => exact fun _ => hhi
    | succ i ih =>
      intro hi
      have hprev := ih (by omega)
      obtain ⟨c, hc, h1, h2⟩ := (mem_freePages hwf).mp
        (hrun (show p + (i + 1) ∈ pageRun p n from ⟨by omega, by omega⟩))
      by_cases hbc : b = c
      · exact hbc ▸ h2
      · have hlt := pairwise_or hgap hb hc hbc
        rw [(hwf b hb).stop_lt_iff (hwf c hc), (hwf c hc).stop_lt_iff (hwf b hb)] at hlt
        omega
  have hlast := hin (n - 1) (by omega)
  exact ⟨b, hb, by omega⟩

/-- Pages in a row, as bytes. -/
theorem mem_rangeArea_page (hal : ret % 4096 = 0) :
    p * 4096 ∈ rangeArea (ret, n * 4096) ↔ p ∈ pageRun (ret / 4096) n := by
  simp only [rangeArea, pageRun, Set.mem_Ico]
  omega

/-! ## `page_alloc` -/

/-- When `page_alloc` finds no block there are not enough free pages in a row. -/
theorem PoolAt.no_run (h : PoolAt mmPool m t bs) (hpos : 0 < size)
    (hsmall : ∀ b ∈ mergePages bs, b.length < size) : ¬pageRun p size ⊆ freePages bs := by
  intro hrun
  obtain ⟨m₁, -, h₁, -⟩ := h.__pageMerge
  have hgap := pairwise_lt_of_isChain h₁.wellFormed h₁.sorted (mergePages_isChain bs)
  rw [← mergePages_freePages h] at hrun
  obtain ⟨b, hb, hle⟩ := exists_block_of_run h₁.wellFormed hgap hpos hrun
  exact absurd (hsmall b hb) (by omega)

/--
`page_alloc(size)` fails exactly when no `size` free pages are in a row, and leaves the free
pages as they are then. Otherwise it returns the address of pages that were free and are the
ones no longer free. The merge ends, and keeps the free pages.
-/
theorem pageAlloc_exact (h : PoolAt mmPool m t bs) (ht : pageCount bs ≤ t) (hpos : 0 < size) :
    (∃ m' ret bs', pageAlloc mmPool size m = some ⟨m', ret, []⟩ ∧ PoolAt mmPool m' t bs' ∧
      (ret = invalidAddr ↔ ¬∃ p, pageRun p size ⊆ freePages bs) ∧
      (ret = invalidAddr → freePages bs' = freePages bs) ∧
      (ret ≠ invalidAddr → ret % 4096 = 0 ∧ pageRun (ret / 4096) size ⊆ freePages bs ∧
        freePages bs' = freePages bs \ pageRun (ret / 4096) size ∧
        mmPool.available m' + size = mmPool.available m)) ∧
    ∃ m' bs', __pageMerge mmPool m = some m' ∧ PoolAt mmPool m' t bs' ∧
      freePages bs' = freePages bs := by
  obtain ⟨m₁, hmerge, h₁, -⟩ := h.__pageMerge
  refine ⟨?_, m₁, _, hmerge, h₁, mergePages_freePages h⟩
  obtain ⟨ret, m', bs', he, h', -, hres⟩ := h.pageAlloc ht hpos
  refine ⟨m', ret, bs', he, h', ?_⟩
  rcases hres with ⟨rfl, -, hsmall, hpart⟩ | ⟨hwf, hcount, hpart⟩
  · refine ⟨iff_of_true rfl ?_, fun _ => ?_, fun hne => absurd rfl hne⟩
    · rintro ⟨p, hrun⟩
      exact h.no_run hpos hsmall hrun
    · have hp := hpart [] (blockBytes bs) (by simpa using h.partition)
      rw [List.append_nil] at hp
      exact freePages_of_partition h.partition hp
  · have hp := hpart [] (blockBytes bs) (by simpa using h.partition)
    have hal : ret % 4096 = 0 := by
      have := hwf.aligned
      simp only [phyMapBase] at this
      omega
    have hsub : pageRun (ret / 4096) size ⊆ freePages bs := fun p hin =>
      (hp.union _).mpr ⟨(ret, size * 4096), by simp, (mem_rangeArea_page hal).mpr hin⟩
    refine ⟨iff_of_false hwf.ne_invalidAddr fun hno => hno ⟨_, hsub⟩,
      fun hret => absurd hret hwf.ne_invalidAddr, fun _ => ⟨hal, hsub, ?_, ?_⟩⟩
    · ext p
      have hleft := hp.mem_left (x := p * 4096)
      rw [← mem_blockBytes] at hleft
      simp only [freePages, Set.mem_ofPred_eq, Set.mem_sdiff, hleft, List.mem_singleton,
        forall_eq, mem_rangeArea_page hal]
    · rw [h'.available, h.available, hcount]

/-! ## Two blocks that touch -/

/-- A pool of two one-page blocks, the second right behind the first. -/
def twoPages : List PageBlock := [⟨phyMapBase + 0x1000, 1⟩, ⟨phyMapBase + 0x2000, 1⟩]

def twoPagesMem : Mem :=
  let m := listInit (fun _ => 0) mmPoolAtImageBase.addr
  let m := __initBlock m (phyMapBase + 0x1000) 1
  let m := listAddBefore m mmPoolAtImageBase.addr (phyMapBase + 0x1000)
  let m := __initBlock m (phyMapBase + 0x2000) 1
  let m := listAddBefore m mmPoolAtImageBase.addr (phyMapBase + 0x2000)
  let m := mmPoolAtImageBase.setAvailable m 2
  m.store64 (mmPoolAtImageBase.addr + 24) 2

theorem poolAt_twoPages : PoolAt mmPoolAtImageBase twoPagesMem 2 twoPages where
  pages := by
    refine ⟨⟨by decide, ?_⟩, by decide +kernel⟩
    simp only [twoPages, List.map_cons, List.map_nil, List.cons_append, List.nil_append,
      List.isChain_cons_cons, List.isChain_singleton, and_true, Linked]
    decide +kernel
  wellFormed := by
    intro b hb
    simp only [twoPages, List.mem_cons, List.not_mem_nil, or_false] at hb
    rcases hb with rfl | rfl
    · exact ⟨by decide, by decide, by decide, by decide⟩
    · exact ⟨by decide, by decide, by decide, by decide⟩
  sorted := by decide
  available := by decide +kernel
  total := by decide +kernel

/-- Two pages in a row, found only after the merge. -/
theorem pageAlloc_exact_two :
    (∃ p, pageRun p 2 ⊆ freePages twoPages) ∧
      (pageAlloc mmPoolAtImageBase 2 twoPagesMem).map PageCall.ret = some 0x1000 := by
  have hrun : (pageAlloc mmPoolAtImageBase 2 twoPagesMem).map PageCall.ret = some 0x1000 := by
    decide +kernel
  obtain ⟨⟨m', ret, bs', he, -, hfail, -⟩, -⟩ :=
    pageAlloc_exact poolAt_twoPages (by decide) (show 0 < 2 by decide)
  refine ⟨by_contra fun hno => ?_, hrun⟩
  rw [he, Option.map_some, Option.some.injEq] at hrun
  exact absurd (hrun.symm.trans (hfail.mpr hno)) (by decide)

end Raincloud
