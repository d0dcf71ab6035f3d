import Raincloud.Mm.HeapBlocks

/-!
# The state of the heap

`HeapAt` is the invariant of `malloc.c`: the blocks in memory tile the heap window, lengths
are multiples of 16, and the three counters of `vm_heap` agree with the block list.
-/

namespace Raincloud

open Infra Infra.LinkStore

def heapSize : Nat := 0x10000000

def heapEnd : Nat := kernelHeapBase + heapSize

/-- The lengths of the free blocks, added up. -/
def freeLength (bs : List Block) : Nat := ((bs.filter fun b => !b.used).map Block.length).sum

@[simp] theorem freeLength_nil : freeLength [] = 0 := rfl

@[simp] theorem freeLength_append (bs cs : List Block) :
    freeLength (bs ++ cs) = freeLength bs + freeLength cs := by
  simp [freeLength]

@[simp] theorem freeLength_cons (b : Block) (bs : List Block) :
    freeLength (b :: bs) = (if b.used then 0 else b.length) + freeLength bs := by
  cases h : b.used <;> simp [freeLength, h]

variable (vmHeap : VmHeap)

/-- The counters of `vm_heap`. -/
structure Counters (m : Mem) (total count available : Nat) : Prop where
  total : vmHeap.total m = total
  count : vmHeap.blockCount m = count
  available : vmHeap.available m = available

structure HeapAt (m : Mem) (bs : List Block) : Prop where
  blocks : BlocksAt vmHeap m bs
  tiles : Tiles Block.addr Block.size kernelHeapBase bs heapEnd
  aligned : ∀ b ∈ bs, b.length % 16 = 0
  counters : Counters vmHeap m heapSize bs.length (freeLength bs)

/-- Everything the heap keeps its books in: `vm_heap` and the headers. -/
def heapArea (bs : List Block) : Set Nat :=
  {x | (vmHeap.addr ≤ x ∧ x < vmHeap.addr + 40) ∨ ∃ b ∈ bs, b.addr ≤ x ∧ x < b.addr + 32}

variable {vmHeap} {m m' : Mem} {bs bs' pre post : List Block} {b c : Block} {t n a : Nat}

/-! ## Counters -/

theorem Counters.frame {as : List Nat} (h : Counters vmHeap m t n a) (hp : Placed vmHeap as)
    (hs : Mem.SameOutside (headerArea vmHeap as) m m') : Counters vmHeap m' t n a := by
  have key : ∀ i, 16 ≤ i → i ≤ 32 →
      m'.load64 (vmHeap.addr + i) = m.load64 (vmHeap.addr + i) := by
    intro i h1 h2
    refine hs.load64_eq fun x hx1 hx2 hx => ?_
    exact headerArea_disjoint_counterArea hp x hx ⟨by omega, by omega⟩
  exact ⟨(key 24 (by omega) (by omega)).trans h.total, (key 32 (by omega) le_rfl).trans h.count,
    (key 16 le_rfl (by omega)).trans h.available⟩

theorem Counters.setAvailable (h : Counters vmHeap m t n a) {v : Nat} (hv : v < 2 ^ 64) :
    Counters vmHeap (vmHeap.setAvailable m v) t n v :=
  ⟨(Mem.load64_store64_of_disjoint (by omega)).trans h.total,
    (Mem.load64_store64_of_disjoint (by omega)).trans h.count, Mem.load64_store64 hv⟩

theorem Counters.setBlockCount (h : Counters vmHeap m t n a) {v : Nat} (hv : v < 2 ^ 64) :
    Counters vmHeap (vmHeap.setBlockCount m v) t v a :=
  ⟨(Mem.load64_store64_of_disjoint (by omega)).trans h.total, Mem.load64_store64 hv,
    (Mem.load64_store64_of_disjoint (by omega)).trans h.available⟩

theorem BlocksAt.setAvailable (h : BlocksAt vmHeap m bs)
    (hp : Placed vmHeap (bs.map Block.addr)) (v : Nat) :
    BlocksAt vmHeap (vmHeap.setAvailable m v) bs :=
  h.congr (sameOutside_setAvailable m v) (headerArea_disjoint_counterArea hp)

theorem BlocksAt.setBlockCount (h : BlocksAt vmHeap m bs)
    (hp : Placed vmHeap (bs.map Block.addr)) (v : Nat) :
    BlocksAt vmHeap (vmHeap.setBlockCount m v) bs :=
  h.congr (sameOutside_setBlockCount m v) (headerArea_disjoint_counterArea hp)

/-! ## Geometry -/

theorem heapEnd_lt_image : heapEnd < kernelImageBase := by decide

theorem placed_of_tiles (h : Tiles Block.addr Block.size kernelHeapBase bs heapEnd) :
    Placed vmHeap (bs.map Block.addr) where
  fits := by
    have := vmHeap.fits
    omega
  below := by
    intro a ha
    obtain ⟨b, hb, rfl⟩ := List.mem_map.mp ha
    have := (h.bounds hb).2
    have := vmHeap.image
    have := heapEnd_lt_image
    simp only [Block.size, blockStructSize] at *
    omega
  apart := by
    intro a ha c hc hne
    obtain ⟨b, hb, rfl⟩ := List.mem_map.mp ha
    obtain ⟨d, hd, rfl⟩ := List.mem_map.mp hc
    have := h.apart hb hd hne
    simp only [Block.size, blockStructSize] at this
    omega

theorem HeapAt.placed (h : HeapAt vmHeap m bs) : Placed vmHeap (bs.map Block.addr) :=
  placed_of_tiles h.tiles

/-- A block lies in the heap window. -/
theorem HeapAt.bounds (h : HeapAt vmHeap m bs) (hb : b ∈ bs) :
    kernelHeapBase ≤ b.addr ∧ b.addr + 32 + b.length ≤ heapEnd := by
  have := h.tiles.bounds hb
  simp only [Block.size, blockStructSize] at this
  omega

theorem sum_size (bs : List Block) :
    (bs.map Block.size).sum = (bs.map Block.length).sum + 32 * bs.length := by
  induction bs with
  | nil => rfl
  | cons b bs ih =>
    simp only [List.map_cons, List.sum_cons, List.length_cons, ih, Block.size, blockStructSize]
    omega

/-- The sum of the lengths, and a header for each block, make up the heap. -/
theorem HeapAt.sum_lengths (h : HeapAt vmHeap m bs) :
    (bs.map Block.length).sum + 32 * bs.length = heapSize := by
  have := h.tiles.add_sum
  rw [sum_size] at this
  simp only [heapEnd] at this
  omega

theorem freeLength_le (bs : List Block) : freeLength bs ≤ (bs.map Block.length).sum := by
  induction bs with
  | nil => simp
  | cons b bs ih =>
    simp only [freeLength_cons, List.map_cons, List.sum_cons]
    split <;> omega

theorem HeapAt.length_lt (h : HeapAt vmHeap m bs) : bs.length < walkFuel := by
  have := h.sum_lengths
  simp only [heapSize, walkFuel] at *
  omega

theorem HeapAt.freeLength_le (h : HeapAt vmHeap m bs) : freeLength bs ≤ heapSize := by
  have := h.sum_lengths
  have := Raincloud.freeLength_le bs
  omega

/-- Block addresses are multiples of 16. -/
theorem addr_aligned {s e : Nat} (h : Tiles Block.addr Block.size s bs e) (hs : s % 16 = 0)
    (hal : ∀ b ∈ bs, b.length % 16 = 0) (hb : b ∈ bs) : b.addr % 16 = 0 := by
  induction bs generalizing s with
  | nil => simp at hb
  | cons d bs ih =>
    have hd := h.1
    have hdl := hal d (by simp)
    rcases List.mem_cons.mp hb with rfl | hb
    · omega
    · refine ih h.2 ?_ (fun x hx => hal x (List.mem_cons_of_mem _ hx)) hb
      simp only [Block.size, blockStructSize]
      omega

theorem HeapAt.addr_aligned (h : HeapAt vmHeap m bs) (hb : b ∈ bs) : b.addr % 16 = 0 :=
  Raincloud.addr_aligned h.tiles (by decide) h.aligned hb

/-! ## Areas -/

theorem headerArea_subset (hsub : ∀ b ∈ bs, ∃ b' ∈ bs', b'.addr = b.addr) :
    headerArea vmHeap (bs.map Block.addr) ⊆ heapArea vmHeap bs' := by
  rintro x (hx | ⟨a, ha, hx⟩)
  · exact Or.inl ⟨hx.1, by omega⟩
  · obtain ⟨b, hb, rfl⟩ := List.mem_map.mp ha
    obtain ⟨b', hb', he⟩ := hsub b hb
    exact Or.inr ⟨b', hb', by omega, by omega⟩

theorem counterArea_subset : counterArea vmHeap ⊆ heapArea vmHeap bs := by
  intro x hx
  have h1 := hx.1
  exact Or.inl ⟨by omega, hx.2⟩

end Raincloud
