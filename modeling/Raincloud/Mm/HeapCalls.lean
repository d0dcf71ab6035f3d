import Raincloud.Mm.HeapState

/-!
# What the calls of `malloc.c` do to the block list

One lemma for each function: the block list it leads to, and the bytes it leaves alone.
`Carve` is what a successful `__malloc` can do, `mergeBlocks` is what `__merge_block` does.
-/

set_option linter.style.nameCheck false

namespace Raincloud

open Infra Infra.LinkStore

variable {vmHeap : VmHeap} {m m' : Mem} {bs bs' pre post : List Block} {b c : Block} {size : Nat}

theorem HeapAt.fields (h : HeapAt vmHeap m bs) (hb : b ∈ bs) :
    blockLength m b.addr = b.length ∧ blockUsed m b.addr = b.used.toNat :=
  ⟨h.blocks.length b hb, h.blocks.used b hb⟩

/-! ## `__malloc` -/

/-- Handing out a whole block. -/
theorem HeapAt.take (h : HeapAt vmHeap m (pre ++ b :: post)) (hfree : b.used = false) :
    let m1 := setBlockUsed m b.addr 1
    let m2 := vmHeap.setAvailable m1 (sub64 (vmHeap.available m1) (blockLength m1 b.addr))
    HeapAt vmHeap m2 (pre ++ { b with used := true } :: post) ∧
      Mem.SameOutside (heapArea vmHeap (pre ++ b :: post)) m m2 := by
  intro m1 m2
  have hp := h.placed
  have hmap : (pre ++ { b with used := true } :: post).map Block.addr
      = (pre ++ b :: post).map Block.addr := by simp
  have hb1 : BlocksAt vmHeap m1 (pre ++ { b with used := true } :: post) :=
    h.blocks.setUsed hp true
  have hs1 : Mem.SameOutside (headerArea vmHeap ((pre ++ b :: post).map Block.addr)) m m1 :=
    sameOutside_setBlockUsed (List.mem_map_of_mem (by simp))
  have hc1 := h.counters.frame hp hs1
  have hlen : blockLength m1 b.addr = b.length :=
    hb1.length { b with used := true } (by simp)
  have hfl : freeLength (pre ++ b :: post) = freeLength pre + (b.length + freeLength post) := by
    simp [hfree]
  have hav : sub64 (vmHeap.available m1) (blockLength m1 b.addr)
      = freeLength (pre ++ { b with used := true } :: post) := by
    have := h.freeLength_le
    rw [hc1.available, hlen, hfl, sub64_eq (by omega) (by simp only [heapSize] at *; omega)]
    simp only [freeLength_append, freeLength_cons, if_true]
    omega
  refine ⟨⟨hb1.setAvailable (hmap ▸ hp) _, ?_, ?_, ?_⟩, ?_⟩
  · have ht := h.tiles
    rw [Tiles.append_iff] at ht ⊢
    exact ht
  · intro d hd
    rcases mem_middle.mp hd with rfl | hd
    · exact h.aligned b (by simp)
    · exact h.aligned d (mem_middle.mpr (Or.inr hd))
  · have hlen' : (pre ++ { b with used := true } :: post).length = (pre ++ b :: post).length := by
      simp
    rw [hlen', ← hav]
    exact hc1.setAvailable (sub64_lt _ _)
  · exact (hs1.mono (headerArea_subset fun d hd => ⟨d, hd, rfl⟩)).trans
      ((sameOutside_setAvailable m1 _).mono counterArea_subset)

theorem sameOutside_newHeader (m : Mem) (a len : Nat) :
    Mem.SameOutside (Set.Ico a (a + 32)) m
      (setBlockUsed (setBlockLength (listInit m a) a len) a 1) := by
  have hsub : ∀ i, i ≤ 24 → Set.Ico (a + i) (a + i + 8) ⊆ Set.Ico a (a + 32) := by
    intro i hi x hx
    exact ⟨by have := hx.1; omega, by have := hx.2; omega⟩
  refine Mem.SameOutside.store64 (Mem.SameOutside.store64 ?_ (hsub 16 (by omega)))
    (hsub 24 le_rfl)
  exact ((Mem.SameOutside.refl _ m).store64 (hsub 0 (by omega))).store64 (hsub 8 (by omega))

/-- A block cut in two takes the room that it took. -/
theorem tiles_split
    (h : Tiles Block.addr Block.size kernelHeapBase (pre ++ b :: post) heapEnd)
    (hsize : size + 48 ≤ b.length) :
    Tiles Block.addr Block.size kernelHeapBase
      (pre ++ { b with length := b.length - (size + 32) } ::
        ⟨b.addr + 32 + (b.length - (size + 32)), size, true⟩ :: post) heapEnd := by
  rw [Tiles.append_iff] at h ⊢
  obtain ⟨s, h1, h2, h3⟩ := h
  refine ⟨s, h1, h2, ?_, ?_⟩
  · simp only [Block.size, blockStructSize]
    omega
  · convert h3 using 1
    simp only [Block.size, blockStructSize]
    omega

/-- The header of a new block is written and linked in behind that of `b`. -/
theorem blocksAt_addNew {a : Nat} (h : BlocksAt vmHeap m (pre ++ b :: post))
    (hp : Placed vmHeap (a :: (pre ++ b :: post).map Block.addr))
    (hnew : a ∉ (pre ++ b :: post).map Block.addr) (hsize : size < 2 ^ 64) :
    let m1 := setBlockUsed (setBlockLength (listInit m a) a size) a 1
    BlocksAt vmHeap (listAddAfter m1 b.addr a) (pre ++ b :: ⟨a, size, true⟩ :: post) ∧
      Mem.SameOutside (headerArea vmHeap (a :: (pre ++ b :: post).map Block.addr)) m
        (listAddAfter m1 b.addr a) := by
  intro m1
  have hs1 := sameOutside_newHeader m a size
  have hb1 : BlocksAt vmHeap m1 (pre ++ b :: post) := by
    refine h.congr hs1 ?_
    rintro x (hx | ⟨d, hd, hx⟩) hin
    · have := hp.below a (by simp)
      have := hin.2
      omega
    · have := hp.apart a (by simp) d (List.mem_cons_of_mem _ hd) fun he => hnew (he ▸ hd)
      have := hin.1
      have := hin.2
      omega
  obtain ⟨hlength, hused⟩ := newBlock_fields (a := a) hsize (listInit m a)
  have hnode : b.addr ∈ listNodes vmHeap (a :: (pre ++ b :: post).map Block.addr) :=
    Or.inr (List.mem_cons_of_mem _ (by simp))
  have hnext : next m1 b.addr ∈ listNodes vmHeap (a :: (pre ++ b :: post).map Block.addr) := by
    refine listNodes_mono (fun x hx => ?_) hb1.neighbours.2
    obtain ⟨d, hd, rfl⟩ := List.mem_map.mp hx
    exact List.mem_cons_of_mem _ (List.mem_map_of_mem (mem_middle.mpr (Or.inr hd)))
  refine ⟨hb1.listAddAfter (c := ⟨a, size, true⟩) hp hnew hlength hused, ?_⟩
  refine (hs1.mono fun x hx => Or.inr ⟨a, by simp, hx.1, hx.2⟩).trans ?_
  exact sameOutside_listAdd hnode hnext (Or.inr (by simp))

/-- Cutting a block of `size` bytes off the tail of a free one. -/
theorem HeapAt.split (h : HeapAt vmHeap m (pre ++ b :: post)) (hfree : b.used = false)
    (hal : size % 16 = 0) (hsize : size + 48 ≤ b.length) :
    let len := b.length - (size + 32)
    let a := b.addr + 32 + len
    let m1 := setBlockLength m b.addr len
    let m4 := setBlockUsed (setBlockLength (listInit m1 a) a size) a 1
    let m5 := listAddAfter m4 b.addr a
    let m6 := vmHeap.setAvailable m5
      (sub64 (vmHeap.available m5) (add64 (blockLength m5 a) blockStructSize))
    let m7 := vmHeap.setBlockCount m6 (add64 (vmHeap.blockCount m6) 1)
    HeapAt vmHeap m7 (pre ++ { b with length := len } :: ⟨a, size, true⟩ :: post) ∧
      Mem.SameOutside
        (heapArea vmHeap (pre ++ { b with length := len } :: ⟨a, size, true⟩ :: post)) m m7 := by
  intro len a m1 m4 m5 m6 m7
  have hp := h.placed
  have hbnd := h.bounds (b := b) (by simp)
  have hcount := h.sum_lengths
  have hfle := h.freeLength_le
  have hlen64 : len < 2 ^ 64 := by simp only [heapEnd, kernelHeapBase, heapSize] at hbnd; omega
  have hsize64 : size < 2 ^ 64 := by simp only [heapEnd, kernelHeapBase, heapSize] at hbnd; omega
  -- the geometry of the new list
  have htiles : Tiles Block.addr Block.size kernelHeapBase
      (pre ++ { b with length := len } :: ⟨a, size, true⟩ :: post) heapEnd :=
    tiles_split h.tiles hsize
  have hp' : Placed vmHeap
      ((pre ++ { b with length := len } :: ⟨a, size, true⟩ :: post).map Block.addr) :=
    placed_of_tiles htiles
  have hpc : Placed vmHeap
      (a :: (pre ++ { b with length := len } :: post).map Block.addr) := by
    refine hp'.mono fun x hx => ?_
    simp only [List.map_append, List.map_cons, List.mem_append, List.mem_cons] at hx ⊢
    tauto
  have hmap : (pre ++ { b with length := len } :: post).map Block.addr
      = (pre ++ b :: post).map Block.addr := by simp
  have hnew : a ∉ (pre ++ { b with length := len } :: post).map Block.addr := by
    have hnd := htiles.nodup_starts fun d _ => by simp only [Block.size, blockStructSize]; omega
    rw [List.append_cons, List.map_append, List.map_cons] at hnd
    have := (List.nodup_middle.mp hnd).notMem
    rw [← List.map_append] at this
    simpa using this
  -- the headers
  have hb1 : BlocksAt vmHeap m1 (pre ++ { b with length := len } :: post) :=
    h.blocks.setLength hp hlen64
  obtain ⟨hb5, hs⟩ := blocksAt_addNew hb1 hpc hnew hsize64
  -- the bytes written so far
  have hs5 : Mem.SameOutside (headerArea vmHeap
      (a :: (pre ++ { b with length := len } :: post).map Block.addr)) m m5 := by
    have hmem : b.addr ∈ a :: (pre ++ { b with length := len } :: post).map Block.addr :=
      List.mem_cons_of_mem _ (by simp)
    exact (sameOutside_setBlockLength hmem).trans hs
  -- the counters
  have hc5 := h.counters.frame hpc hs5
  have hl5 : blockLength m5 a = size := hb5.length ⟨a, size, true⟩ (by simp)
  have hav : sub64 (vmHeap.available m5) (add64 (blockLength m5 a) blockStructSize)
      = freeLength (pre ++ { b with length := len } :: ⟨a, size, true⟩ :: post) := by
    have hfl : freeLength (pre ++ b :: post)
        = freeLength pre + (b.length + freeLength post) := by simp [hfree]
    simp only [heapSize] at hfle
    rw [hc5.available, hl5, hfl, add64_eq (by simp only [blockStructSize]; omega),
      sub64_eq (by simp only [blockStructSize]; omega) (by omega)]
    simp only [freeLength_append, freeLength_cons, hfree, blockStructSize, len, if_true,
      Bool.false_eq_true, if_false]
    omega
  have hc6 : Counters vmHeap m6 _ _ _ := hc5.setAvailable (sub64_lt _ _)
  have hct : add64 (vmHeap.blockCount m6) 1
      = (pre ++ { b with length := len } :: ⟨a, size, true⟩ :: post).length := by
    have hle : (pre ++ b :: post).length ≤ heapSize := by omega
    simp only [List.length_append, List.length_cons, heapSize] at hle ⊢
    rw [hc6.count, add64_eq (by simp only [List.length_append, List.length_cons]; omega)]
    simp only [List.length_append, List.length_cons]
    omega
  refine ⟨⟨(hb5.setAvailable hp' _).setBlockCount hp' _, htiles, ?_, ?_⟩, ?_⟩
  · intro d hd
    have hbal := h.aligned b (by simp)
    rw [mem_middle, mem_middle] at hd
    rcases hd with rfl | rfl | hd
    · simp only [len]
      omega
    · exact hal
    · exact h.aligned d (mem_middle.mpr (Or.inr hd))
  · rw [← hct, ← hav]
    exact hc6.setBlockCount (add64_lt _ _)
  · have hsub : headerArea vmHeap (a :: (pre ++ { b with length := len } :: post).map Block.addr)
        ⊆ heapArea vmHeap (pre ++ { b with length := len } :: ⟨a, size, true⟩ :: post) := by
      change headerArea vmHeap
        ((⟨a, size, true⟩ :: (pre ++ { b with length := len } :: post)).map Block.addr) ⊆ _
      refine headerArea_subset
        fun d hd => ⟨d, ?_, rfl⟩
      simp only [List.mem_append, List.mem_cons] at hd ⊢
      tauto
    exact ((hs5.mono hsub).trans ((sameOutside_setAvailable m5 _).mono counterArea_subset)).trans
      ((sameOutside_setBlockCount m6 _).mono counterArea_subset)

/-- A block `__malloc` passes over. -/
def Block.Unfit (size : Nat) (b : Block) : Prop := b.used = true ∨ b.length < size

/--
What a successful `__malloc(size)` makes of the block list: the first fitting block is
handed out whole, or, when a header and 16 bytes would be left over, its tail is.
-/
inductive Carve (size : Nat) (bs : List Block) : List Block → Nat → Prop
  | whole {pre post : List Block} {b : Block} (hbs : bs = pre ++ b :: post)
      (hpre : ∀ c ∈ pre, c.Unfit size) (hfree : b.used = false) (hfit : size ≤ b.length)
      (hsmall : b.length < size + 48) :
      Carve size bs (pre ++ { b with used := true } :: post) b.payload
  | tail {pre post : List Block} {b : Block} (hbs : bs = pre ++ b :: post)
      (hpre : ∀ c ∈ pre, c.Unfit size) (hfree : b.used = false)
      (hlarge : size + 48 ≤ b.length) :
      Carve size bs
        (pre ++ { b with length := b.length - (size + 32) } ::
          ⟨b.addr + 32 + (b.length - (size + 32)), size, true⟩ :: post)
        (b.addr + 32 + (b.length - (size + 32)) + 32)

/-- The list node after a block is the next block, or the list head. -/
theorem HeapAt.next_block (h : HeapAt vmHeap m (pre ++ b :: post)) :
    next m b.addr = (post.map Block.addr).headD vmHeap.addr := by
  have hr := h.blocks.ring
  rw [List.map_append, List.map_cons] at hr
  exact hr.next_mem

theorem HeapAt.addr_ne (h : HeapAt vmHeap m bs) (hb : b ∈ bs) : b.addr ≠ vmHeap.addr := by
  have := h.placed.below b.addr (List.mem_map_of_mem hb)
  omega

/-- The block at hand fits: `__malloc` takes it. -/
theorem HeapAt.mallocFrom_fit (h : HeapAt vmHeap m (pre ++ b :: post)) (hal : size % 16 = 0)
    (hpre : ∀ c ∈ pre, c.Unfit size) (hfit : ¬b.Unfit size) (fuel : Nat) :
    ∃ bs' p m', __mallocFrom vmHeap size (fuel + 1) b.addr m = some (p, m') ∧
      Carve size (pre ++ b :: post) bs' p ∧ HeapAt vmHeap m' bs' ∧
      Mem.SameOutside (heapArea vmHeap bs') m m' := by
  obtain ⟨hfree, hle⟩ : b.used = false ∧ size ≤ b.length := by
    simpa [Block.Unfit] using hfit
  obtain ⟨hlen, hused⟩ := h.fields (b := b) (by simp)
  have hbnd := h.bounds (b := b) (by simp)
  simp only [heapEnd, kernelHeapBase, heapSize] at hbnd
  have hcond : ¬(blockUsed m b.addr ≠ 0 ∨ blockLength m b.addr < size) := by
    rw [hlen, hused, hfree]
    simp only [Bool.toNat_false]
    omega
  have hsum : add64 (add64 size blockStructSize) 16 = size + 48 := by
    rw [add64_eq (a := size) (by simp only [blockStructSize]; omega),
      add64_eq (by simp only [blockStructSize]; omega)]
    simp only [blockStructSize]
  unfold __mallocFrom
  rw [if_neg (h.addr_ne (by simp)), if_neg hcond, hlen, hsum]
  by_cases hsmall : b.length < size + 48
  · obtain ⟨h1, h2⟩ := h.take hfree
    rw [if_pos hsmall]
    refine ⟨_, b.payload, _, ?_, .whole rfl hpre hfree hle hsmall, h1, ?_⟩
    · rw [add64_eq (by simp only [blockStructSize]; omega)]
      rfl
    · refine h2.mono ?_
      rintro x (hx | ⟨d, hd, hx⟩)
      · exact Or.inl hx
      · rcases mem_middle.mp hd with rfl | hd
        · exact Or.inr ⟨{ d with used := true }, mem_middle.mpr (Or.inl rfl), hx⟩
        · exact Or.inr ⟨d, mem_middle.mpr (Or.inr hd), hx⟩
  · obtain ⟨h1, h2⟩ := h.split hfree hal (by omega)
    rw [if_neg hsmall]
    refine ⟨_, _, _, ?_, .tail rfl hpre hfree (by omega), h1, h2⟩
    have e1 : sub64 b.length (add64 size blockStructSize) = b.length - (size + 32) := by
      rw [add64_eq (by simp only [blockStructSize]; omega)]
      exact sub64_eq (by simp only [blockStructSize]; omega) (by omega)
    have e2 : blockLength (setBlockLength m b.addr (b.length - (size + 32))) b.addr
        = b.length - (size + 32) := Mem.load64_store64 (by omega)
    have e3 : add64 (add64 b.addr blockStructSize) (b.length - (size + 32))
        = b.addr + 32 + (b.length - (size + 32)) := by
      rw [add64_eq (a := b.addr) (by simp only [blockStructSize]; omega)]
      exact add64_eq (by simp only [blockStructSize]; omega)
    have e4 : add64 (b.addr + 32 + (b.length - (size + 32))) blockStructSize
        = b.addr + 32 + (b.length - (size + 32)) + 32 :=
      add64_eq (by simp only [blockStructSize]; omega)
    simp only [e1, e2, e3, e4]

/-- The loop of `__malloc` with the blocks `pre` behind it and `post` ahead. -/
theorem HeapAt.mallocFrom (h : HeapAt vmHeap m (pre ++ post)) (hal : size % 16 = 0)
    (hpre : ∀ c ∈ pre, c.Unfit size) {fuel : Nat} (hf : post.length < fuel) :
    (__mallocFrom vmHeap size fuel ((post.map Block.addr).headD vmHeap.addr) m = some (NULL, m) ∧
        ∀ c ∈ pre ++ post, c.Unfit size) ∨
      ∃ bs' p m', __mallocFrom vmHeap size fuel ((post.map Block.addr).headD vmHeap.addr) m
          = some (p, m') ∧ Carve size (pre ++ post) bs' p ∧ HeapAt vmHeap m' bs' ∧
        Mem.SameOutside (heapArea vmHeap bs') m m' := by
  induction post generalizing pre fuel with
  | nil =>
    obtain ⟨fuel, rfl⟩ : ∃ f, fuel = f + 1 := ⟨fuel - 1, by simp at hf; omega⟩
    left
    refine ⟨?_, by simpa using hpre⟩
    unfold __mallocFrom
    simp
  | cons b post ih =>
    obtain ⟨fuel, rfl⟩ : ∃ f, fuel = f + 1 := ⟨fuel - 1, by simp at hf; omega⟩
    by_cases hfit : b.Unfit size
    · have hstep : __mallocFrom vmHeap size (fuel + 1) b.addr m
          = __mallocFrom vmHeap size fuel ((post.map Block.addr).headD vmHeap.addr) m := by
        obtain ⟨hlen, hused⟩ := h.fields (b := b) (by simp)
        rw [__mallocFrom, if_neg (h.addr_ne (by simp)), if_pos, h.next_block]
        rw [hlen, hused]
        rcases hfit with hu | hl
        · left
          rw [hu]
          decide
        · exact Or.inr hl
      have he : pre ++ b :: post = pre ++ [b] ++ post := List.append_cons _ _ _
      rw [List.map_cons, List.headD_cons, hstep, he]
      refine ih (he ▸ h) (fun c hc => ?_) (by simp only [List.length_cons] at hf; omega)
      rcases List.mem_append.mp hc with hc | hc
      · exact hpre c hc
      · rw [List.mem_singleton.mp hc]
        exact hfit
    · right
      rw [List.map_cons, List.headD_cons]
      exact h.mallocFrom_fit hal hpre hfit fuel

/-- `__malloc` fails when no block fits, and carves up the first one that does otherwise. -/
theorem HeapAt.__malloc (h : HeapAt vmHeap m bs) (hne : bs ≠ []) (hal : size % 16 = 0) :
    (Raincloud.__malloc vmHeap size m = some (NULL, m) ∧ ∀ c ∈ bs, c.Unfit size) ∨
      ∃ bs' p m', Raincloud.__malloc vmHeap size m = some (p, m') ∧ Carve size bs bs' p ∧
        HeapAt vmHeap m' bs' ∧ Mem.SameOutside (heapArea vmHeap bs') m m' := by
  have hempty : listEmpty m vmHeap.addr = false := by
    rw [Bool.eq_false_iff, Ne, listEmpty_iff h.blocks.ring]
    simpa using hne
  unfold Raincloud.__malloc
  rw [hempty, if_neg Bool.false_ne_true, h.blocks.ring.next_head]
  have h' : HeapAt vmHeap m ([] ++ bs) := h
  exact h'.mallocFrom hal (by simp) h.length_lt

/-! ## `__merge_block` -/

/-- Two free neighbours. -/
def Block.BothFree (b c : Block) : Prop := b.used = false ∧ c.used = false

instance : DecidableRel Block.BothFree := fun b c =>
  inferInstanceAs (Decidable (b.used = false ∧ c.used = false))

/-- The second block with its header becomes payload of the first. -/
def Block.join (b c : Block) : Block := { b with length := b.length + (c.length + 32) }

/-- Runs of free blocks become one block. -/
def mergeBlocks : List Block → List Block := mergeRuns Block.BothFree Block.join

theorem heapArea_mono (hsub : ∀ b ∈ bs', ∃ b' ∈ bs, b'.addr = b.addr) :
    heapArea vmHeap bs' ⊆ heapArea vmHeap bs := by
  rintro x (hx | ⟨b, hb, hx⟩)
  · exact Or.inl hx
  · obtain ⟨b', hb', he⟩ := hsub b hb
    exact Or.inr ⟨b', hb', by omega, by omega⟩

/-- Two blocks made one take the room that they took. -/
theorem tiles_join
    (h : Tiles Block.addr Block.size kernelHeapBase (pre ++ b :: c :: post) heapEnd) :
    Tiles Block.addr Block.size kernelHeapBase (pre ++ b.join c :: post) heapEnd := by
  rw [Tiles.append_iff] at h ⊢
  obtain ⟨s, h1, h2, -, h4⟩ := h
  refine ⟨s, h1, h2, ?_⟩
  convert h4 using 1
  simp only [Block.join, Block.size, blockStructSize]
  omega

/-- One round of the inner loop: `b` swallows the free block `c` behind it. -/
theorem HeapAt.absorb (h : HeapAt vmHeap m (pre ++ b :: c :: post)) (hb : b.used = false)
    (hc : c.used = false) :
    let m1 := setBlockLength m b.addr
      (add64 (blockLength m b.addr) (add64 (blockLength m c.addr) blockStructSize))
    let m2 := memset (listDel m1 c.addr) c.addr 0 blockStructSize
    let m3 := vmHeap.setBlockCount m2 (sub64 (vmHeap.blockCount m2) 1)
    let m4 := vmHeap.setAvailable m3 (add64 (vmHeap.available m3) blockStructSize)
    HeapAt vmHeap m4 (pre ++ b.join c :: post) ∧
      Mem.SameOutside (heapArea vmHeap (pre ++ b :: c :: post)) m m4 := by
  intro m1 m2 m3 m4
  simp only [Block.join]
  have hp := h.placed
  have hbb := h.bounds (b := b) (by simp)
  have hcb := h.bounds (b := c) (by simp)
  have hsum := h.sum_lengths
  have hfle := h.freeLength_le
  simp only [heapEnd, kernelHeapBase, heapSize] at hbb hcb hfle
  have hlen : add64 (blockLength m b.addr) (add64 (blockLength m c.addr) blockStructSize)
      = b.length + (c.length + 32) := by
    rw [(h.fields (b := b) (by simp)).1, (h.fields (b := c) (by simp)).1,
      add64_eq (a := c.length) (by simp only [blockStructSize]; omega),
      add64_eq (by simp only [blockStructSize]; omega)]
    rfl
  have hb1 : BlocksAt vmHeap m1
      (pre ++ { b with length := b.length + (c.length + 32) } :: c :: post) := by
    simp only [m1, hlen]
    exact h.blocks.setLength hp (by omega)
  have hmap : (pre ++ { b with length := b.length + (c.length + 32) } :: c :: post).map Block.addr
      = (pre ++ b :: c :: post).map Block.addr := by simp
  rw [← hmap] at hp
  have hb2 : BlocksAt vmHeap m2
      (pre ++ { b with length := b.length + (c.length + 32) } :: post) := by
    rw [List.append_cons] at hb1 hp ⊢
    exact hb1.remove hp
  have hs2 : Mem.SameOutside (headerArea vmHeap
      ((pre ++ { b with length := b.length + (c.length + 32) } :: c :: post).map Block.addr))
      m m2 := by
    rw [List.append_cons] at hb1
    have hsub : ∀ a ∈ ((pre ++ [{ b with length := b.length + (c.length + 32) }]) ++ post).map
        Block.addr, a ∈ (pre ++ { b with length := b.length + (c.length + 32) } :: c :: post).map
        Block.addr := by
      intro a ha
      obtain ⟨d, hd, rfl⟩ := List.mem_map.mp ha
      refine List.mem_map_of_mem ?_
      rw [List.append_cons]
      exact mem_middle.mpr (Or.inr hd)
    refine ((sameOutside_setBlockLength (by simp)).trans (sameOutside_listDel ?_ ?_)).trans
      (sameOutside_clear (by simp))
    · exact listNodes_mono hsub hb1.neighbours.1
    · exact listNodes_mono hsub hb1.neighbours.2
  have hc2 := h.counters.frame hp hs2
  have htiles : Tiles Block.addr Block.size kernelHeapBase
      (pre ++ { b with length := b.length + (c.length + 32) } :: post) heapEnd :=
    tiles_join h.tiles
  have hp3 : Placed vmHeap _ := placed_of_tiles htiles
  have hct : sub64 (vmHeap.blockCount m2) 1
      = (pre ++ { b with length := b.length + (c.length + 32) } :: post).length := by
    have hle : (pre ++ b :: c :: post).length ≤ heapSize := by omega
    simp only [List.length_append, List.length_cons, heapSize] at hle hc2 ⊢
    rw [hc2.count, sub64_eq (by omega) (by omega)]
    omega
  have hc3 : Counters vmHeap m3 _ _ _ := hc2.setBlockCount (sub64_lt _ _)
  have hfl : freeLength (pre ++ b :: c :: post)
      = freeLength pre + (b.length + (c.length + freeLength post)) := by simp [hb, hc]
  have hav : add64 (vmHeap.available m3) blockStructSize
      = freeLength (pre ++ { b with length := b.length + (c.length + 32) } :: post) := by
    rw [hc3.available, add64_eq (by simp only [blockStructSize]; omega), hfl]
    simp only [freeLength_append, freeLength_cons, hb, blockStructSize, Bool.false_eq_true,
      if_false]
    omega
  refine ⟨⟨(hb2.setBlockCount hp3 _).setAvailable hp3 _, htiles, ?_, ?_⟩, ?_⟩
  · intro d hd
    have h1 := h.aligned b (by simp)
    have h2 := h.aligned c (by simp)
    rcases mem_middle.mp hd with rfl | hd
    · simp only
      omega
    · refine h.aligned d ?_
      rw [mem_middle, mem_middle]
      exact Or.inr (Or.inr hd)
  · rw [← hct, ← hav]
    exact hc3.setAvailable (add64_lt _ _)
  · refine ((hs2.mono (headerArea_subset fun d hd => ?_)).trans
      ((sameOutside_setBlockCount m2 _).mono counterArea_subset)).trans
      ((sameOutside_setAvailable m3 _).mono counterArea_subset)
    rcases mem_middle.mp hd with rfl | hd
    · exact ⟨b, by simp, rfl⟩
    · exact ⟨d, mem_middle.mpr (Or.inr hd), rfl⟩

/-- One round of the merge, among states whose books are those of the blocks `bs` in `m`. -/
theorem heapMergeStep (vmHeap : VmHeap) (m : Mem) (bs : List Block) :
    MergeStep __mergeCond (__mergeBody vmHeap) vmHeap.addr Block.addr Block.BothFree Block.join
      fun s cs => HeapAt vmHeap s cs ∧ heapArea vmHeap cs ⊆ heapArea vmHeap bs ∧
        Mem.SameOutside (heapArea vmHeap bs) m s where
  ring h := h.1.blocks.ring
  addr_join _ _ := rfl
  cond_iff {s pre b c post} h := by
    have hb := (h.1.fields (b := b) (by simp)).2
    have hc := (h.1.fields (b := c) (by simp)).2
    simp [__mergeCond, Block.BothFree, hb, hc]
  body {s pre b c post} h ht := by
    obtain ⟨h1, h2⟩ := h.1.absorb ht.1 ht.2
    refine ⟨h1, (heapArea_mono fun x hx => ?_).trans h.2.1, h.2.2.trans (h2.mono h.2.1)⟩
    rcases mem_middle.mp hx with rfl | hx
    · exact ⟨b, by simp, rfl⟩
    · refine ⟨x, ?_, rfl⟩
      rw [mem_middle, mem_middle]
      exact Or.inr (Or.inr hx)

/-- `__merge_block` runs adjacent free blocks together. -/
theorem HeapAt.__mergeBlock (h : HeapAt vmHeap m bs) :
    ∃ m', Raincloud.__mergeBlock vmHeap m = some m' ∧ HeapAt vmHeap m' (mergeBlocks bs) ∧
      Mem.SameOutside (heapArea vmHeap bs) m m' := by
  obtain ⟨m', he, h', -, hs⟩ := (heapMergeStep vmHeap m bs).mergeWalk_eq
    ⟨h, subset_rfl, Mem.SameOutside.refl _ m⟩ h.length_lt
  exact ⟨m', he, h', hs⟩

/-- Merging leaves the allocated blocks as they are. -/
theorem mergeBlocks_used (bs : List Block) :
    (mergeBlocks bs).filter Block.used = bs.filter Block.used := by
  refine mergeRuns_induction (P := fun cs => cs.filter Block.used = bs.filter Block.used) ?_ rfl
  rintro pre b c post ⟨hb, hc⟩ h
  rw [← h]
  simp [Block.join, hb, hc]

theorem mergeBlocks_ne_nil (hne : bs ≠ []) : mergeBlocks bs ≠ [] :=
  mergeRuns_induction (P := fun cs => cs ≠ []) (fun _ _ _ _ _ _ => by simp) hne

/-! ## `__free` -/

/-- Freeing an allocated block. -/
theorem HeapAt.__free (h : HeapAt vmHeap m (pre ++ b :: post)) (hused : b.used = true) :
    ∃ m', Raincloud.__free vmHeap b.payload m = (m', []) ∧
      HeapAt vmHeap m' (pre ++ { b with used := false } :: post) ∧
      Mem.SameOutside (heapArea vmHeap (pre ++ b :: post)) m m' := by
  have hp := h.placed
  have hbnd := h.bounds (b := b) (by simp)
  have hsum := h.sum_lengths
  have hle := Raincloud.freeLength_le (pre ++ b :: post)
  simp only [heapEnd, kernelHeapBase, heapSize] at hbnd hsum
  have hentry : sub64 b.payload blockStructSize = b.addr := by
    simp only [Block.payload, blockStructSize]
    rw [sub64_eq (by omega) (by omega)]
    omega
  have hu : blockUsed m b.addr = 1 := by
    rw [(h.fields (b := b) (by simp)).2, hused]
    rfl
  have hmap : (pre ++ { b with used := false } :: post).map Block.addr
      = (pre ++ b :: post).map Block.addr := by simp
  have hb1 : BlocksAt vmHeap (setBlockUsed m b.addr 0)
      (pre ++ { b with used := false } :: post) := h.blocks.setUsed hp false
  have hs1 : Mem.SameOutside (headerArea vmHeap ((pre ++ b :: post).map Block.addr)) m
      (setBlockUsed m b.addr 0) := sameOutside_setBlockUsed (List.mem_map_of_mem (by simp))
  have hc1 := h.counters.frame hp hs1
  have hlen : blockLength (setBlockUsed m b.addr 0) b.addr = b.length :=
    hb1.length { b with used := false } (by simp)
  have hav : add64 (vmHeap.available (setBlockUsed m b.addr 0))
      (blockLength (setBlockUsed m b.addr 0) b.addr)
      = freeLength (pre ++ { b with used := false } :: post) := by
    have hfree : freeLength (pre ++ { b with used := false } :: post)
        = freeLength (pre ++ b :: post) + b.length := by
      simp only [freeLength_append, freeLength_cons, hused, if_true, Bool.false_eq_true, if_false]
      omega
    have hle' := Raincloud.freeLength_le (pre ++ { b with used := false } :: post)
    have hsame : ((pre ++ { b with used := false } :: post).map Block.length).sum
        = ((pre ++ b :: post).map Block.length).sum := by simp
    rw [hc1.available, hlen, hfree]
    exact add64_eq (by omega)
  have hal : ∀ d ∈ pre ++ { b with used := false } :: post, d.length % 16 = 0 := by
    intro d hd
    rcases mem_middle.mp hd with rfl | hd
    · exact h.aligned b (by simp)
    · exact h.aligned d (mem_middle.mpr (Or.inr hd))
  have hlen' : (pre ++ { b with used := false } :: post).length = (pre ++ b :: post).length := by
    simp
  have hc2 := hc1.setAvailable (add64_lt (vmHeap.available (setBlockUsed m b.addr 0))
    (blockLength (setBlockUsed m b.addr 0) b.addr))
  rw [hav] at hc2
  refine ⟨vmHeap.setAvailable (setBlockUsed m b.addr 0)
    (freeLength (pre ++ { b with used := false } :: post)), ?_,
    ⟨hb1.setAvailable (hmap ▸ hp) _, ?_, hal, hlen' ▸ hc2⟩, ?_⟩
  · unfold Raincloud.__free
    simp only [hentry, hu, if_true, hav]
  · have ht := h.tiles
    rw [Tiles.append_iff] at ht ⊢
    exact ht
  · exact (hs1.mono (headerArea_subset fun d hd => ⟨d, hd, rfl⟩)).trans
      ((sameOutside_setAvailable _ _).mono counterArea_subset)

/-! ## The consistency check -/

theorem HeapAt.mmListCheckFrom (h : HeapAt vmHeap m (pre ++ post)) {fuel sum : Nat}
    (hf : post.length < fuel) (hs : sum + (post.map Block.length).sum < 2 ^ 64) :
    __mmListCheckFrom vmHeap m fuel ((post.map Block.addr).headD vmHeap.addr) sum
      = some (sum + (post.map Block.length).sum, []) := by
  induction post generalizing pre fuel sum with
  | nil =>
    obtain ⟨fuel, rfl⟩ : ∃ f, fuel = f + 1 := ⟨fuel - 1, by simp at hf; omega⟩
    simp [__mmListCheckFrom]
  | cons b post ih =>
    obtain ⟨fuel, rfl⟩ : ∃ f, fuel = f + 1 := ⟨fuel - 1, by simp at hf; omega⟩
    have hlen := (h.fields (b := b) (by simp)).1
    have hbnd := h.bounds (b := b) (by simp)
    simp only [List.map_cons, List.sum_cons] at hs
    have h' : HeapAt vmHeap m (pre ++ [b] ++ post) := by simpa using h
    have hf' : post.length < fuel := by
      simp only [List.length_cons] at hf
      omega
    have hs' : sum + b.length + (post.map Block.length).sum < 2 ^ 64 := by omega
    have hrec := ih h' hf' hs'
    have hadj : next m b.addr = vmHeap.addr ∨
        add64 (add64 b.addr b.length) blockStructSize = next m b.addr := by
      rw [h.next_block]
      cases post with
      | nil => exact Or.inl rfl
      | cons c post =>
        right
        have ht := h.tiles
        rw [Tiles.append_iff] at ht
        obtain ⟨s, -, h1, h2, -⟩ := ht
        simp only [heapEnd, kernelHeapBase, heapSize] at hbnd
        simp only [Block.size, blockStructSize] at h2
        rw [add64_eq (a := b.addr) (by omega),
          add64_eq (by simp only [blockStructSize]; omega), List.map_cons, List.headD_cons]
        simp only [blockStructSize]
        omega
    rw [List.map_cons, List.headD_cons, __mmListCheckFrom, if_neg (h.addr_ne (by simp)), hlen,
      add64_eq (a := sum) (by omega), h.next_block, hrec, Option.map_some, ← h.next_block]
    rw [if_neg (by tauto)]
    simp only [List.map_cons, List.sum_cons, Nat.add_assoc]

/-- The check never reports. -/
theorem HeapAt.mmListConsistencyCheck (h : HeapAt vmHeap m bs) :
    __mmListConsistencyCheck vmHeap m = some [] := by
  have hsum := h.sum_lengths
  simp only [heapSize] at hsum
  have h' : HeapAt vmHeap m ([] ++ bs) := h
  have hcheck := h'.mmListCheckFrom h.length_lt (show 0 + _ < 2 ^ 64 by omega)
  unfold __mmListConsistencyCheck
  rw [h.blocks.ring.next_head, hcheck, Option.map_some, h.counters.count, h.counters.total]
  have hmod : bs.length * blockStructSize % 2 ^ 64 = bs.length * 32 :=
    Nat.mod_eq_of_lt (by simp only [blockStructSize]; omega)
  rw [hmod, if_neg]
  rw [add64_eq (by simp only [Nat.zero_add]; omega)]
  simp only [heapSize]
  omega

end Raincloud
