import Raincloud.Arch.PageRun

/-!
# What callers of `page_alloc` rely on

A page allocator has physical bytes to hand out. The pages of a call that succeeds are among
them and are its own no longer; all other memory behind the direct map stays as it is, and may
be written without the allocator noticing. The allocator of `paging.c` is one.
-/

set_option linter.style.nameCheck false

namespace Raincloud

open Infra Infra.LinkStore

/-- The physical bytes out of `F`, where they are in the direct map. -/
def mappedOutside (F : Set Nat) : Set Nat :=
  {x | ∃ y, y < phyMapSize ∧ y ∉ F ∧ x = y + phyMapBase}

/-- `Owns m F`: in the memory `m` the allocator has the physical bytes `F` to hand out. -/
structure PageSource (pageAlloc : Nat → Mem → Nat × Mem) (Owns : Mem → Set Nat → Prop) :
    Prop where
  fits : ∀ {m F}, Owns m F → ∀ y ∈ F, y < phyMapSize
  nonzero : ∀ m, (pageAlloc 0 m).1 = invalidAddr
  fresh : ∀ {m F} (n : Nat), Owns m F → (pageAlloc n m).1 ≠ invalidAddr →
    rangeArea ((pageAlloc n m).1, n * 4096) ⊆ F ∧
      Owns (pageAlloc n m).2 (F \ rangeArea ((pageAlloc n m).1, n * 4096))
  frame : ∀ {m F} (n : Nat), Owns m F → ∀ x ∈ mappedOutside F, (pageAlloc n m).2 x = m x
  keep : ∀ {m m' F}, Owns m F → Mem.SameOutside (mappedOutside F) m m' → Owns m' F

/-- `page_alloc` succeeds for the numbers of pages in turn, whatever is written to the pages. -/
def Supplies (pageAlloc : Nat → Mem → Nat × Mem) : Mem → List Nat → Prop
  | _, [] => True
  | m, n :: ns => (pageAlloc n m).1 ≠ invalidAddr ∧
      ∀ m', Mem.SameOutside (Set.Ico ((pageAlloc n m).1 + phyMapBase)
        ((pageAlloc n m).1 + phyMapBase + n * 4096)) (pageAlloc n m).2 m' → Supplies pageAlloc m' ns

namespace PageSource

variable {pageAlloc : Nat → Mem → Nat × Mem} {Owns : Mem → Set Nat → Prop} {m m' : Mem}
  {F : Set Nat} {n : Nat}

/-- The pages of a call lie in the direct map. -/
theorem range_fits (h : PageSource pageAlloc Owns) (ho : Owns m F)
    (hne : (pageAlloc n m).1 ≠ invalidAddr) :
    0 < n ∧ (pageAlloc n m).1 + n * 4096 ≤ phyMapSize := by
  have hpos : 0 < n := by
    rcases Nat.eq_zero_or_pos n with rfl | hpos
    · exact absurd (h.nonzero m) hne
    · exact hpos
  have hin : (pageAlloc n m).1 + (n * 4096 - 1) ∈ rangeArea ((pageAlloc n m).1, n * 4096) :=
    ⟨Nat.le_add_right _ _, show _ < (pageAlloc n m).1 + n * 4096 by omega⟩
  have hlt := h.fits ho _ ((h.fresh n ho hne).1 hin)
  exact ⟨hpos, by omega⟩

end PageSource

/-! ## The allocator of `paging.c` -/

variable {mmPool : MmPool} {m m' : Mem} {t : Nat} {bs : List PageBlock}

/-- A call of `page_alloc`, by its return value and the memory it leaves. -/
def poolAlloc (mmPool : MmPool) (n : Nat) (m : Mem) : Nat × Mem :=
  match pageAlloc mmPool n m with
  | some r => (r.ret, r.mem)
  | none => (invalidAddr, m)

/-- The pool is intact, and its blocks are the bytes `F`. -/
def PoolOwns (mmPool : MmPool) (m : Mem) (F : Set Nat) : Prop :=
  ∃ t bs, PoolAt mmPool m t bs ∧ pageCount bs ≤ t ∧ F = blockBytes bs

theorem poolAlloc_of_eq {n : Nat} {r : PageCall} (h : pageAlloc mmPool n m = some r) :
    poolAlloc mmPool n m = (r.ret, r.mem) := by
  rw [poolAlloc, h]

/-- The books of the pool are its own bytes and those of `mm_pool`. -/
theorem PoolAt.mappedOutside_subset (h : PoolAt mmPool m t bs) :
    mappedOutside (blockBytes bs) ⊆ (poolArea mmPool bs)ᶜ := by
  have himage := mmPool.image
  rintro x ⟨y, hy, hnot, rfl⟩ ((hin | ⟨a, ha, h1, h2⟩) | hin)
  · simp only [phyMapSize, phyMapBase, kernelImageBase] at *
    omega
  · obtain ⟨b, hb, rfl⟩ := List.mem_map.mp ha
    obtain ⟨y', hy', he⟩ := h.header_mem hb h1 h2
    obtain rfl : y = y' := by omega
    exact hnot ⟨b, hb, hy'⟩
  · have := hin.1
    simp only [phyMapSize, phyMapBase, kernelImageBase] at *
    omega

theorem poolAlloc_pageSource (mmPool : MmPool) :
    PageSource (poolAlloc mmPool) (PoolOwns mmPool) where
  fits := by
    rintro m _ ⟨t, bs, h, -, rfl⟩ y ⟨b, hb, hy⟩
    have hwf := h.wellFormed b hb
    have h1 := hwf.above
    have h2 := hwf.fits
    have h3 : y < b.addr - phyMapBase + b.length * 4096 := hy.2
    simp only [PageBlock.stop] at h2
    omega
  nonzero m := rfl
  fresh := by
    rintro m _ n ⟨t, bs, h, ht, rfl⟩ hne
    have hpos : 0 < n := by
      rcases Nat.eq_zero_or_pos n with rfl | hpos
      · exact absurd rfl hne
      · exact hpos
    obtain ⟨ret, m', bs', he, h', -, hres⟩ := h.pageAlloc ht hpos
    rw [poolAlloc_of_eq he] at hne ⊢
    rcases hres with ⟨hfail, -⟩ | ⟨-, hcount, hpart⟩
    · exact absurd hfail hne
    · have hp := hpart [] (blockBytes bs) (by simpa using h.partition)
      refine ⟨fun x hx => (hp.union x).mpr ⟨_, by simp, hx⟩, t, bs', h', by omega, ?_⟩
      ext x
      rw [mem_blockBytes, hp.mem_left]
      simp
  frame := by
    rintro m _ n ⟨t, bs, h, ht, rfl⟩ x hx
    rcases Nat.eq_zero_or_pos n with rfl | hpos
    · rfl
    · obtain ⟨ret, m', bs', he, -, hs, -⟩ := h.pageAlloc ht hpos
      rw [poolAlloc_of_eq he]
      exact hs x (h.mappedOutside_subset hx)
  keep := by
    rintro m m' _ ⟨t, bs, h, ht, rfl⟩ hs
    exact ⟨t, bs, h.congr (hs.mono h.mappedOutside_subset), ht, rfl⟩

end Raincloud
