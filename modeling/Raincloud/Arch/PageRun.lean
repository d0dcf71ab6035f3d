import Raincloud.Arch.PageCalls
import Raincloud.Infra.Run

/-!
# Runs of the page allocator

`page_free` takes the address of the block it adds from its second argument, the number of
pages. A run in which the two arguments of every `page_free` are the same number conserves
pages: the free blocks and the ranges handed out partition the pages the pool began with.
Between the calls the owners write the pages handed out, and the rest of the kernel everything
but the free pages and `mm_pool`.
-/

namespace Raincloud

open Infra Infra.LinkStore

/-! ## The machine -/

/-- The memory, and the ranges handed out and not given back: physical address and number. -/
structure PageState where
  mem : Mem
  outstanding : List (Nat × Nat)

inductive PageAction where
  | alloc (n : Nat)
  | free (a n : Nat)
  | write
  deriving DecidableEq

/-- The bytes of a number of pages. -/
def pageBytes (r : Nat × Nat) : Nat × Nat := (r.1, r.2 * 4096)

/-- What may be written between two calls, when the pool began with the physical bytes `S`. -/
def pageOwnersArea (mmPool : MmPool) (S : Set Nat) (s : PageState) : Set Nat :=
  {x | (∃ r ∈ s.outstanding, ∃ y ∈ rangeArea (pageBytes r), x = y + phyMapBase) ∨
    (∀ y ∈ S, x ≠ y + phyMapBase) ∧ (x < mmPool.addr ∨ mmPool.addr + 32 ≤ x)}

inductive PageStep (mmPool : MmPool) (S : Set Nat) : PageState → PageAction → PageState → Prop
  | alloc {s : PageState} {n : Nat} {r : PageCall} (hn : 0 < n)
      (hr : pageAlloc mmPool n s.mem = some r) :
      PageStep mmPool S s (.alloc n)
        ⟨r.mem, if r.ret = invalidAddr then s.outstanding else (r.ret, n) :: s.outstanding⟩
  | free {s : PageState} {a n : Nat} {r : PageCall} (ha : (a, n) ∈ s.outstanding)
      (hr : pageFree mmPool a n s.mem = some r) :
      PageStep mmPool S s (.free a n) ⟨r.mem, s.outstanding.erase (a, n)⟩
  | write {s : PageState} {m : Mem}
      (hm : Mem.SameOutside (pageOwnersArea mmPool S s) s.mem m) :
      PageStep mmPool S s .write ⟨m, s.outstanding⟩

/-- The physical bytes of blocks. -/
def blockBytes (bs : List PageBlock) : Set Nat := {x | ∃ b ∈ bs, x ∈ rangeArea b.range}

def pageMachine (mmPool : MmPool) (m₀ : Mem) (S : Set Nat) : Machine PageState PageAction where
  start s := s = ⟨m₀, []⟩
  step := PageStep mmPool S

/-- The condition under which `page_free` gives back the right pages. -/
def SameNumber : PageAction → Prop
  | .free a n => a = n
  | _ => True

/-! ## The invariant -/

/-- The free blocks `bs` and the ranges handed out partition `S`. -/
def Conserved (mmPool : MmPool) (S : Set Nat) (total : Nat) (s : PageState)
    (bs : List PageBlock) : Prop :=
  PoolAt mmPool s.mem total bs ∧
    Partition (bs.map PageBlock.range ++ s.outstanding.map pageBytes) S

structure PageInv (mmPool : MmPool) (S : Set Nat) (total : Nat) (s : PageState)
    (bs : List PageBlock) : Prop where
  pool : PoolAt mmPool s.mem total bs
  partition : Partition (bs.map PageBlock.range ++ s.outstanding.map pageBytes) S
  wellFormed : ∀ r ∈ s.outstanding, (⟨r.1 + phyMapBase, r.2⟩ : PageBlock).WellFormed
  count : pageCount bs + (s.outstanding.map Prod.snd).sum = total

variable {mmPool : MmPool} {S : Set Nat} {t n : Nat} {s s' : PageState} {act : PageAction}
  {bs bs' : List PageBlock} {b : PageBlock} {m m' m₀ : Mem}

theorem PoolAt.congr (h : PoolAt mmPool m t bs) (hs : Mem.SameOutside (poolArea mmPool bs)ᶜ m m') :
    PoolAt mmPool m' t bs := by
  have key : ∀ i, 16 ≤ i → i ≤ 24 →
      m'.load64 (mmPool.addr + i) = m.load64 (mmPool.addr + i) := by
    intro i h1 h2
    exact hs.load64_eq fun x hx1 hx2 hx => hx (Or.inr ⟨by omega, by omega⟩)
  exact ⟨h.pages.congr hs fun x hx hnot => hnot (Or.inl hx), h.wellFormed, h.sorted,
    (key 16 le_rfl (by omega)).trans h.available, (key 24 (by omega) le_rfl).trans h.total⟩

/-- The header of a free block lies in its pages. -/
theorem PoolAt.header_mem (h : PoolAt mmPool m t bs) (hb : b ∈ bs) {x : Nat} (h1 : b.addr ≤ x)
    (h2 : x < b.addr + 32) : ∃ y ∈ rangeArea b.range, x = y + phyMapBase := by
  have hwf := (h.wellFormed b hb).bounds
  simp only [PageBlock.stop] at hwf
  refine ⟨x - phyMapBase, ⟨?_, ?_⟩, by omega⟩
  · simp only [PageBlock.range]
    omega
  · simp only [PageBlock.range]
    omega

/-- The owners write no header. -/
theorem PageInv.ownersArea_subset (h : PageInv mmPool S t s bs) :
    pageOwnersArea mmPool S s ⊆ (poolArea mmPool bs)ᶜ := by
  have himage := mmPool.image
  rintro x hx ((hin | ⟨a, ha, h1, h2⟩) | hin)
  · rcases hx with ⟨r, hr, y, hy, rfl⟩ | ⟨-, hx⟩
    · have hwf := (h.wellFormed r hr).bounds
      have hy2 : y < r.1 + r.2 * 4096 := hy.2
      simp only [PageBlock.stop] at hwf
      omega
    · omega
  · obtain ⟨b, hb, rfl⟩ := List.mem_map.mp ha
    obtain ⟨y, hy, rfl⟩ := h.pool.header_mem hb h1 h2
    rcases hx with ⟨r, hr, y', hy', he⟩ | ⟨hx, -⟩
    · obtain rfl : y = y' := by omega
      have hap := (List.pairwise_append.mp h.partition.apart).2.2 b.range
        (List.mem_map_of_mem hb) (pageBytes r) (List.mem_map_of_mem hr)
      exact Set.disjoint_left.mp hap hy hy'
    · refine hx y ((h.partition.union y).mpr ⟨b.range, ?_, hy⟩) rfl
      exact List.mem_append_left _ (List.mem_map_of_mem hb)
  · have h3 := hin.1
    have h4 := hin.2
    rcases hx with ⟨r, hr, y, hy, rfl⟩ | ⟨-, hx⟩
    · have hwf := (h.wellFormed r hr).bounds
      have hy2 : y < r.1 + r.2 * 4096 := hy.2
      simp only [PageBlock.stop] at hwf
      omega
    · omega

/-- A range handed out, in front of the others. -/
theorem PageInv.partition_erase (h : PageInv mmPool S t s bs) {r : Nat × Nat}
    (hr : r ∈ s.outstanding) :
    Partition (bs.map PageBlock.range ++ pageBytes r :: (s.outstanding.erase r).map pageBytes) S :=
  h.partition.perm (((List.perm_cons_erase hr).map pageBytes).append_left _)

/-- A range handed out is clear of the free blocks. -/
theorem PageInv.clear (h : PageInv mmPool S t s bs) (hn : (n, n) ∈ s.outstanding) :
    Clear bs (freedBlock n) := by
  intro b hb
  have hwf := (h.pool.wellFormed b hb).bounds
  have hn' := h.wellFormed _ hn
  have hp := (h.partition_erase hn).perm List.perm_middle
  have hlt := hp.lt_or_lt (List.mem_append_left _ (List.mem_map_of_mem hb))
    (Nat.mul_pos hn'.pos (by decide)) (Nat.mul_pos (h.pool.wellFormed b hb).pos (by decide))
  simp only [PageBlock.range, pageBytes, PageBlock.stop, freedBlock] at *
  omega

theorem PageInv.step (h : PageInv mmPool S t s bs) (hs : PageStep mmPool S s act s')
    (hact : SameNumber act) : ∃ bs', PageInv mmPool S t s' bs' := by
  cases hs with
  | @alloc n r hn hr =>
    have hcount := h.count
    obtain ⟨ret, m', bs', he, h', -, hres⟩ := h.pool.pageAlloc (by omega) hn
    obtain rfl : _ = r := Option.some.inj (he.symm.trans hr)
    rcases hres with ⟨rfl, hcnt, -, hpart⟩ | ⟨hwf, hcnt, hpart⟩
    · exact ⟨bs', h', hpart _ _ h.partition, h.wellFormed, by simpa [hcnt] using hcount⟩
    · refine ⟨bs', h', ?_, ?_, ?_⟩
      · rw [if_neg hwf.ne_invalidAddr]
        exact hpart _ _ h.partition
      · rw [if_neg hwf.ne_invalidAddr]
        intro r hr
        rcases List.mem_cons.mp hr with rfl | hr
        · exact hwf
        · exact h.wellFormed r hr
      · rw [if_neg hwf.ne_invalidAddr, List.map_cons, List.sum_cons]
        omega
  | @free a n r ha hr =>
    obtain rfl : a = n := hact
    have hsum : (s.outstanding.map Prod.snd).sum = a + ((s.outstanding.erase (a, a)).map
        Prod.snd).sum := by
      rw [((List.perm_cons_erase ha).map Prod.snd).sum_eq, List.map_cons, List.sum_cons]
    have hcount := h.count
    obtain ⟨m', bs', he, h', hcnt, -, hpart⟩ :=
      h.pool.pageFree (h.wellFormed _ ha) (h.clear ha) (by omega)
    obtain rfl : _ = r := Option.some.inj (he.symm.trans hr)
    refine ⟨bs', h', hpart _ _ (h.partition_erase ha),
      fun r hr => h.wellFormed r (List.mem_of_mem_erase hr), ?_⟩
    simp only
    omega
  | write hm =>
    exact ⟨bs, h.pool.congr (hm.mono h.ownersArea_subset), h.partition, h.wellFormed, h.count⟩

/-- The blocks of a pool partition their bytes. -/
theorem PoolAt.partition (h : PoolAt mmPool m t bs) :
    Partition (bs.map PageBlock.range) (blockBytes bs) where
  apart := by
    rw [List.pairwise_map]
    refine h.sorted.imp_of_mem fun {b c} hb hc hle => ?_
    have h1 := (h.wellFormed b hb).bounds
    have h2 := (h.wellFormed c hc).bounds
    rw [Set.disjoint_left]
    intro x hx hx'
    have h3 := hx.2
    have h4 := hx'.1
    simp only [PageBlock.range, PageBlock.stop] at *
    omega
  union x := by
    simp only [blockBytes, Set.mem_ofPred_eq, List.mem_map, exists_exists_and_eq_and]

theorem exists_pageInv {bs₀ : List PageBlock} (h₀ : PoolAt mmPool m₀ (pageCount bs₀) bs₀)
    (hr : ((pageMachine mmPool m₀ (blockBytes bs₀)).restrict fun _ => SameNumber).Reachable s) :
    ∃ bs, PageInv mmPool (blockBytes bs₀) (pageCount bs₀) s bs := by
  refine hr.invariant (fun s => ∃ bs, PageInv mmPool _ _ s bs) ?_ ?_
  · rintro _ rfl
    exact ⟨bs₀, h₀, by simpa using h₀.partition, by simp, by simp⟩
  · rintro s act s' ⟨bs, hinv⟩ ⟨hact, hstep⟩
    exact hinv.step hstep hact

theorem mem_blockBytes {x : Nat} :
    x ∈ blockBytes bs ↔ ∃ r ∈ bs.map PageBlock.range, x ∈ rangeArea r := by
  simp [blockBytes]

/-- Giving back a range makes its bytes free, and no others. -/
theorem PageInv.free_bytes (h : PageInv mmPool S t s bs) {r : Nat × Nat} (hr : r ∈ s.outstanding)
    (h' : Partition (bs'.map PageBlock.range ++ (s.outstanding.erase r).map pageBytes) S) :
    blockBytes bs' = blockBytes bs ∪ rangeArea (pageBytes r) := by
  have hp := h.partition_erase hr
  have hrest := (List.pairwise_append.mp hp.apart).2.1
  ext x
  rw [Set.mem_union, mem_blockBytes, mem_blockBytes, h'.mem_left, hp.mem_left]
  constructor
  · rintro ⟨hS, hnot⟩
    by_cases hx : x ∈ rangeArea (pageBytes r)
    · exact Or.inr hx
    · refine Or.inl ⟨hS, fun r' hr' => ?_⟩
      rcases List.mem_cons.mp hr' with rfl | hr'
      · exact hx
      · exact hnot r' hr'
  · rintro (⟨hS, hnot⟩ | hx)
    · exact ⟨hS, fun r' hr' => hnot r' (List.mem_cons_of_mem _ hr')⟩
    · refine ⟨(hp.union x).mpr ⟨pageBytes r, by simp, hx⟩, fun r' hr' => ?_⟩
      exact Set.disjoint_left.mp ((List.pairwise_cons.mp hrest).1 r' hr') hx

/--
When the two arguments of every `page_free` are the same number, the free blocks and the
ranges handed out partition the initial pages in every reachable state: an allocation is
clear of every range handed out, and a `page_free` frees just its own range. No call reports
or halts.
-/
theorem pageMachine_conserves {bs₀ : List PageBlock}
    (h₀ : PoolAt mmPool m₀ (pageCount bs₀) bs₀)
    (hr : ((pageMachine mmPool m₀ (blockBytes bs₀)).restrict fun _ => SameNumber).Reachable s) :
    ∃ bs, Conserved mmPool (blockBytes bs₀) (pageCount bs₀) s bs ∧
      (∀ n, 0 < n → ∃ r, pageAlloc mmPool n s.mem = some r ∧ r.bugs = [] ∧
        (r.ret ≠ invalidAddr → ∀ o ∈ s.outstanding,
          Disjoint (rangeArea (pageBytes (r.ret, n))) (rangeArea (pageBytes o)))) ∧
      ∀ n, (n, n) ∈ s.outstanding → ∃ m' bs', pageFree mmPool n n s.mem = some ⟨m', NULL, []⟩ ∧
        Conserved mmPool (blockBytes bs₀) (pageCount bs₀) ⟨m', s.outstanding.erase (n, n)⟩ bs' ∧
        blockBytes bs' = blockBytes bs ∪ rangeArea (n, n * 4096) := by
  obtain ⟨bs, hinv⟩ := exists_pageInv h₀ hr
  have hcount := hinv.count
  refine ⟨bs, ⟨hinv.pool, hinv.partition⟩, fun n hn => ?_, fun n hn => ?_⟩
  · obtain ⟨ret, m', bs', he, -, -, hres⟩ := hinv.pool.pageAlloc (by omega) hn
    refine ⟨_, he, rfl, fun hret o ho => ?_⟩
    rcases hres with ⟨hfail, -⟩ | ⟨-, -, hpart⟩
    · exact absurd hfail hret
    · have hap := (List.pairwise_append.mp (hpart _ _ hinv.partition).apart).2.1
      exact (List.pairwise_cons.mp hap).1 _ (List.mem_map_of_mem ho)
  · have hsum : (s.outstanding.map Prod.snd).sum = n + ((s.outstanding.erase (n, n)).map
        Prod.snd).sum := by
      rw [((List.perm_cons_erase hn).map Prod.snd).sum_eq, List.map_cons, List.sum_cons]
    obtain ⟨m', bs', he, h', -, -, hpart⟩ :=
      hinv.pool.pageFree (hinv.wellFormed _ hn) (hinv.clear hn) (by omega)
    have hpart' := hpart _ _ (hinv.partition_erase hn)
    exact ⟨m', bs', he, ⟨h', hpart'⟩, hinv.free_bytes hn hpart'⟩

/-! ## A pool of one block -/

/-- `mm_pool` at the start of the kernel image. -/
def mmPoolAtImageBase : MmPool := ⟨kernelImageBase, kernelImageBase_aligned, le_rfl, by decide⟩

/-- What `page_alloc_init` leaves when there is one piece of usable memory. -/
def singleBlockMem (b : PageBlock) : Mem :=
  let m := listInit (fun _ => 0) mmPoolAtImageBase.addr
  let m := __initBlock m b.addr b.length
  let m := listAddBefore m mmPoolAtImageBase.addr b.addr
  let m := mmPoolAtImageBase.setAvailable m b.length
  m.store64 (mmPoolAtImageBase.addr + 24) b.length

/-- 16 MB from physical address 4096 on. -/
def lowBlock : PageBlock := ⟨phyMapBase + 0x1000, 0x1000⟩

theorem poolAt_lowBlock : PoolAt mmPoolAtImageBase (singleBlockMem lowBlock) 0x1000 [lowBlock] where
  pages := by
    refine ⟨⟨by decide, ?_⟩, ?_⟩
    · simp only [List.map_cons, List.map_nil, List.cons_append, List.nil_append,
        List.isChain_cons_cons, List.isChain_singleton, and_true, Linked]
      decide +kernel
    · decide +kernel
  wellFormed := by
    intro b hb
    obtain rfl := List.mem_singleton.mp hb
    exact ⟨by decide, by decide, by decide, by decide⟩
  sorted := by simp
  available := by decide +kernel
  total := by decide +kernel

/-- All 16 MB are handed out, and given back by a call with two equal arguments. -/
theorem pageMachine_conserves_lowBlock :
    ∃ r m' bs', pageAlloc mmPoolAtImageBase 0x1000 (singleBlockMem lowBlock) = some r ∧
      r.ret = 0x1000 ∧ pageFree mmPoolAtImageBase 0x1000 0x1000 r.mem = some ⟨m', NULL, []⟩ ∧
      Conserved mmPoolAtImageBase (blockBytes [lowBlock]) 0x1000 ⟨m', []⟩ bs' := by
  obtain ⟨r, hr, hret⟩ : ∃ r, pageAlloc mmPoolAtImageBase 0x1000 (singleBlockMem lowBlock) = some r
      ∧ r.ret = 0x1000 := Option.map_eq_some_iff.mp (by decide +kernel)
  have hstep : PageStep mmPoolAtImageBase (blockBytes [lowBlock]) ⟨singleBlockMem lowBlock, []⟩
      (.alloc 0x1000) ⟨r.mem, [(0x1000, 0x1000)]⟩ := by
    have := PageStep.alloc (S := blockBytes [lowBlock]) (s := ⟨singleBlockMem lowBlock, []⟩)
      (by decide) hr
    rwa [if_neg (by rw [hret]; decide), hret] at this
  have hreach : ((pageMachine mmPoolAtImageBase (singleBlockMem lowBlock)
      (blockBytes [lowBlock])).restrict fun _ => SameNumber).Reachable
        ⟨r.mem, [(0x1000, 0x1000)]⟩ :=
    .step (a := .alloc 0x1000) (.start rfl) ⟨trivial, hstep⟩
  obtain ⟨_, -, -, hfree⟩ := pageMachine_conserves poolAt_lowBlock hreach
  obtain ⟨m', bs', he, hc, -⟩ := hfree 0x1000 (by simp)
  rw [List.erase_cons_head] at hc
  exact ⟨r, m', bs', hr, hret, he, hc⟩

/--
One page is handed out and given back: `page_free(0x1000000, 1)` puts the block at physical
address 1 instead, and the free list is not one of page-aligned blocks any more.
-/
theorem pageMachine_not_conserves :
    ∃ s, (pageMachine mmPoolAtImageBase (singleBlockMem lowBlock)
        (blockBytes [lowBlock])).Reachable s ∧
      ∀ t bs, ¬Conserved mmPoolAtImageBase (blockBytes [lowBlock]) t s bs := by
  have hrun : (pageAlloc mmPoolAtImageBase 1 (singleBlockMem lowBlock)).map
      (fun r => (r.ret, (pageFree mmPoolAtImageBase 0x1000000 1 r.mem).map
        fun r => next r.mem mmPoolAtImageBase.addr))
      = some (0x1000000, some (phyMapBase + 1)) := by decide +kernel
  obtain ⟨r, hr, hres⟩ := Option.map_eq_some_iff.mp hrun
  obtain ⟨hret, hmem⟩ := Prod.mk.inj hres
  obtain ⟨r', hr', hnext⟩ := Option.map_eq_some_iff.mp hmem
  have hstep : PageStep mmPoolAtImageBase (blockBytes [lowBlock]) ⟨singleBlockMem lowBlock, []⟩
      (.alloc 1) ⟨r.mem, [(0x1000000, 1)]⟩ := by
    have := PageStep.alloc (S := blockBytes [lowBlock]) (s := ⟨singleBlockMem lowBlock, []⟩)
      (by decide) hr
    rwa [if_neg (by rw [hret]; decide), hret] at this
  refine ⟨_, .step (.step (.start rfl) hstep) (.free (by simp) hr'), ?_⟩
  rintro t bs ⟨hpool, -⟩
  have hring := hpool.pages.ring.next_head
  rw [hnext] at hring
  cases bs with
  | nil => exact absurd hring (by decide)
  | cons b bs =>
    have halign := (hpool.wellFormed b (by simp)).aligned
    rw [List.map_cons, List.headD_cons] at hring
    rw [← hring] at halign
    exact absurd halign (by decide)

end Raincloud
