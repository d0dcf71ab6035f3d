import Raincloud.Arch.PageExact

/-!
# `page_alloc_init`

The firmware says what physical memory is usable in an array of descriptors. What lies above
`lowerbound` of each usable range becomes a block of the pool.
-/

set_option linter.style.nameCheck false

namespace Raincloud

open Infra Infra.LinkStore

/-! ## `uefi.h` -/

/-- The fields of `efi_memory_descriptor_t` the allocator reads. -/
structure EfiMemoryDescriptor where
  type : Nat
  physicalStart : Nat
  numberOfPages : Nat
  deriving DecidableEq

def efiMemoryDescriptorSize : Nat := 40

def efiLoaderCode : Nat := 1

def efiLoaderData : Nat := 2

def efiBootServicesCode : Nat := 3

def efiBootServicesData : Nat := 4

def efiConventionalMemory : Nat := 7

namespace EfiMemoryDescriptor

/-- The descriptor at an address. -/
def read (m : Mem) (ptr : Nat) : EfiMemoryDescriptor :=
  ⟨m.load ptr 4, m.load64 (ptr + 8), m.load64 (ptr + 24)⟩

/-- The five types of memory the allocator takes. -/
def Usable (d : EfiMemoryDescriptor) : Prop :=
  d.type = efiConventionalMemory ∨ d.type = efiBootServicesCode ∨ d.type = efiBootServicesData ∨
    d.type = efiLoaderCode ∨ d.type = efiLoaderData

instance (d : EfiMemoryDescriptor) : Decidable d.Usable :=
  inferInstanceAs (Decidable (_ ∨ _ ∨ _ ∨ _ ∨ _))

/-- The first byte behind the range. -/
def stop (d : EfiMemoryDescriptor) : Nat := d.physicalStart + d.numberOfPages * 4096

/-- Where the range starts when what is below `lowerbound` is cut off. -/
def clippedStart (d : EfiMemoryDescriptor) (lowerbound : Nat) : Nat :=
  if d.physicalStart > lowerbound then d.physicalStart else lowerbound

/-- The pages `page_alloc_init` finds behind the clipped start. -/
def clippedPages (d : EfiMemoryDescriptor) (lowerbound : Nat) : Nat :=
  let physicalEnd := add64 d.physicalStart (shl64 d.numberOfPages 12)
  sub64 physicalEnd (d.clippedStart lowerbound) >>> 12

end EfiMemoryDescriptor

/-! ## `page_alloc_init` -/

variable (mmPool : MmPool)

/-- The block of a descriptor, added at the end of the list. -/
def pageAllocInitBody (lowerbound : Nat) (ptr : EfiMemoryDescriptor) (m : Mem) : Option Mem :=
  if ptr.Usable then
    let physicalStart := ptr.clippedStart lowerbound
    let numberOfPages := ptr.clippedPages lowerbound
    (convertPhyToVirt physicalStart).map fun base =>
      let m := __initBlock m base numberOfPages
      let m := listAddBefore m mmPool.addr base
      mmPool.setAvailable m (add64 (mmPool.available m) numberOfPages)
  else some m

/-- The rounds of the loop. -/
def pageAllocInitLoop (desc size lowerbound : Nat) (m : Mem) (is : List Nat) : Option Mem :=
  is.foldlM (fun m i =>
    pageAllocInitBody mmPool lowerbound (.read m (add64 desc (i * size % 2 ^ 64))) m) m

def pageAllocInit (desc size totalLength lowerbound : Nat) (m : Mem) : Option Mem :=
  let m := listInit m mmPool.addr
  let m := mmPool.setAvailable m 0
  let count := totalLength / size
  if count * size % 2 ^ 64 = totalLength then
    (pageAllocInitLoop mmPool desc size lowerbound m (List.range count)).map fun m =>
      m.store64 (mmPool.addr + 24) (mmPool.available m)
  else none

/-! ## What the array says -/

/-- The descriptors of an array. -/
def descriptors (m : Mem) (desc size count : Nat) : List EfiMemoryDescriptor :=
  (List.range count).map fun i => .read m (desc + i * size)

/-- The pages at or above `lowerbound` that belong to usable descriptors. -/
def usablePages (ds : List EfiMemoryDescriptor) (lowerbound : Nat) : Set Nat :=
  {p | lowerbound ≤ p * 4096 ∧ ∃ d ∈ ds, d.Usable ∧ d.physicalStart ≤ p * 4096 ∧ p * 4096 < d.stop}

/-- The pages of a block. -/
def PageBlock.pages (b : PageBlock) : Set Nat := pageRun b.firstPage b.length

/-- The pool has exactly the pages `S`, in the blocks `bs`, and counts them. -/
structure PoolHas (m : Mem) (S : Set Nat) (bs : List PageBlock) : Prop where
  list : PagesAt mmPool m bs
  aligned : ∀ b ∈ bs, phyMapBase ≤ b.addr ∧ b.addr % 4096 = 0
  disjoint : bs.Pairwise fun b c => Disjoint b.pages c.pages
  pages : (⋃ b ∈ bs, b.pages) = S
  available : mmPool.available m = S.ncard
  total : mmPool.total m = S.ncard

/-! ## The list while it is filled -/

variable {mmPool} {m m' : Mem} {bs cs : List PageBlock} {b c : PageBlock}
  {d : EfiMemoryDescriptor} {ds : List EfiMemoryDescriptor} {lowerbound : Nat}

/-- The bytes the loop may write: from the first clipped start up. -/
def initArea (lowerbound : Nat) : Set Nat := Set.Ici (phyMapBase + min lowerbound phyMapSize)

/-- A header in the direct map above `lowerbound`, with a length that fits its word. -/
structure PageBlock.InMap (lowerbound : Nat) (b : PageBlock) : Prop where
  above : phyMapBase + min lowerbound phyMapSize ≤ b.addr
  below : b.addr ≤ phyMapBase + phyMapSize
  aligned : b.addr % 4096 = 0
  word : b.length < 2 ^ 64

theorem head_above (mmPool : MmPool) : phyMapBase + phyMapSize + 4096 ≤ mmPool.addr := by
  have := mmPool.image
  simp only [phyMapBase, phyMapSize, kernelImageBase] at *
  omega

theorem placed_of_inMap (h : ∀ b ∈ bs, b.InMap lowerbound) :
    Placed mmPool (bs.map PageBlock.addr) where
  fits := by
    have := mmPool.fits
    omega
  below := by
    intro a ha
    obtain ⟨b, hb, rfl⟩ := List.mem_map.mp ha
    have h1 := (h b hb).below
    have h2 := head_above mmPool
    omega
  apart := by
    intro a ha c hc hne
    obtain ⟨b, hb, rfl⟩ := List.mem_map.mp ha
    obtain ⟨d, hd, rfl⟩ := List.mem_map.mp hc
    have h1 := (h b hb).aligned
    have h2 := (h d hd).aligned
    omega

theorem headerArea_subset_initArea (h : ∀ b ∈ bs, b.InMap lowerbound) :
    headerArea mmPool (bs.map PageBlock.addr) ⊆ initArea lowerbound := by
  have hmin := Nat.min_le_right lowerbound phyMapSize
  have hhead := head_above mmPool
  rintro x (hx | ⟨a, ha, hx⟩)
  · exact Set.mem_Ici.mpr (by omega)
  · obtain ⟨b, hb, rfl⟩ := List.mem_map.mp ha
    have := (h b hb).above
    exact Set.mem_Ici.mpr (by omega)

theorem poolCounters_subset_initArea : poolCounters mmPool ⊆ initArea lowerbound := by
  have hmin := Nat.min_le_right lowerbound phyMapSize
  have hhead := head_above mmPool
  intro x hx
  have := hx.1
  exact Set.mem_Ici.mpr (by omega)

/--
The blocks `bs` were added in this order. Some may have been added twice: then the list is
broken, but `prev` still tells the order.
-/
structure Filling (mmPool : MmPool) (m : Mem) (bs : List PageBlock) : Prop where
  trail : Trail m mmPool.addr (bs.map PageBlock.addr).reverse
  pages : (bs.map PageBlock.addr).Nodup → PagesAt mmPool m bs
  available : mmPool.available m = pageCount bs % 2 ^ 64

/-- The links and the counters around a new header at the end of the list. -/
theorem Filling.link (h : Filling mmPool m bs) (hin : ∀ b ∈ c :: bs, b.InMap lowerbound) :
    let m' := listAddBefore (__initBlock m c.addr c.length) mmPool.addr c.addr
    Trail m' mmPool.addr (c.addr :: (bs.map PageBlock.addr).reverse) ∧
      Mem.SameOutside (headerArea mmPool ((c :: bs).map PageBlock.addr)) m m' := by
  intro m'
  have hp : Placed mmPool ((c :: bs).map PageBlock.addr) := placed_of_inMap hin
  have hc : c.addr ∈ (c :: bs).map PageBlock.addr := List.mem_map_of_mem List.mem_cons_self
  have hnodes : ∀ y ∈ mmPool.addr :: (bs.map PageBlock.addr).reverse,
      y ∈ listNodes mmPool ((c :: bs).map PageBlock.addr) := by
    intro y hy
    rcases List.mem_cons.mp hy with rfl | hy
    · exact Or.inl rfl
    · exact Or.inr (List.mem_cons_of_mem _ (List.mem_reverse.mp hy))
  have hhead : mmPool.addr ∉ c.addr :: (bs.map PageBlock.addr).reverse := by
    intro hmem
    rw [← List.mem_reverse, List.reverse_cons, List.reverse_reverse, List.mem_append,
      List.mem_singleton, or_comm, ← List.mem_cons] at hmem
    have := hp.below _ hmem
    omega
  have hs₁ := initBlock_sameOutside m c.addr c.length
  have hprev : ∀ y ∈ mmPool.addr :: (bs.map PageBlock.addr).reverse, y ≠ c.addr →
      prev (__initBlock m c.addr c.length) y = prev m y := fun y hy hne => by
    refine hs₁.load64_eq fun x h1 h2 hx => ?_
    have hx1 := hx.1
    have hx2 := hx.2
    rcases hnodes y hy with rfl | hy
    · have := hp.below _ hc
      omega
    · have := hp.apart y hy _ hc hne
      omega
  refine ⟨trail_listAddBefore hp.lawfulOn h.trail hprev hnodes (Or.inr hc) hhead, ?_⟩
  refine (hs₁.mono fun x hx => ?_).trans (sameOutside_listAdd ?_ (Or.inl rfl) (Or.inr hc))
  · have h1 := hx.1
    have h2 := hx.2
    exact Or.inr ⟨c.addr, hc, by omega, by omega⟩
  · rw [hprev _ List.mem_cons_self fun he => hhead (he ▸ List.mem_cons_self), h.trail.head]
    exact hnodes _ (Ring.headD_mem_cons _ _)

/-- One more block. -/
theorem Filling.add (h : Filling mmPool m bs) (hin : ∀ b ∈ c :: bs, b.InMap lowerbound) :
    let m' := listAddBefore (__initBlock m c.addr c.length) mmPool.addr c.addr
    Filling mmPool (mmPool.setAvailable m' (add64 (mmPool.available m') c.length))
      (bs ++ [c]) := by
  intro m'
  have hp : Placed mmPool ((c :: bs).map PageBlock.addr) := placed_of_inMap hin
  obtain ⟨htrail, hframe⟩ := h.link hin
  have hav : Mem.SameOutside (poolCounters mmPool) m' _ :=
    sameOutside_setAvailablePages m' (add64 (mmPool.available m') c.length)
  have hcounters : ∀ as, Placed mmPool as → ∀ x ∈ headerArea mmPool as, x ∉ poolCounters mmPool :=
    fun as => headerArea_not_poolCounters
  refine ⟨?_, fun hnd => ?_, ?_⟩
  · rw [List.map_append, List.reverse_append]
    refine htrail.congr fun y hy => hav.load64_eq fun x h1 h2 => ?_
    have hy' : y ∈ listNodes mmPool ((c :: bs).map PageBlock.addr) := by
      rcases List.mem_cons.mp hy with rfl | hy
      · exact Or.inl rfl
      · refine Or.inr ?_
        simpa using hy
    exact hcounters _ hp x (ico_subset_headerArea hy' le_rfl ⟨h1, h2⟩)
  · rw [List.map_append, List.map_singleton] at hnd
    obtain ⟨hnd₀, -, hdisj⟩ := List.nodup_append.mp hnd
    have hnew : c.addr ∉ (bs ++ []).map PageBlock.addr := by
      rw [List.append_nil]
      exact fun hin => hdisj _ hin _ (List.mem_singleton_self _) rfl
    have hbs : PagesAt mmPool m (bs ++ []) := by
      rw [List.append_nil]
      exact h.pages hnd₀
    have hins := (hbs.insert (hin c List.mem_cons_self).word (by simpa using hp) hnew).1
    exact hins.congr hav (hcounters _ (hp.mono fun a ha => by
      simpa [or_comm] using ha))
  · have hsame : mmPool.available m' = pageCount bs % 2 ^ 64 :=
      (counters_frame hp hframe).1.trans h.available
    rw [show mmPool.available (mmPool.setAvailable m' _) = add64 (mmPool.available m') c.length from
      Mem.load64_store64 (add64_lt _ _), hsame, add64, pageCount_append, pageCount_cons,
      pageCount_nil, Nat.add_zero, Nat.mod_add_mod]

/-! ## The loop -/

/-- The block of a usable descriptor. -/
def EfiMemoryDescriptor.block (d : EfiMemoryDescriptor) (lowerbound : Nat) : PageBlock :=
  ⟨d.clippedStart lowerbound + phyMapBase, d.clippedPages lowerbound⟩

/-- The blocks of the usable descriptors, in their order. -/
def poolBlocks (ds : List EfiMemoryDescriptor) (lowerbound : Nat) : List PageBlock :=
  (ds.filter fun d => decide d.Usable).map fun d => d.block lowerbound

theorem mem_poolBlocks : b ∈ poolBlocks ds lowerbound ↔
    ∃ d ∈ ds, d.Usable ∧ d.block lowerbound = b := by
  simp [poolBlocks, and_assoc]

theorem poolBlocks_cons : poolBlocks (d :: ds) lowerbound
    = poolBlocks [d] lowerbound ++ poolBlocks ds lowerbound := by
  by_cases h : d.Usable <;> simp [poolBlocks, h]

/-- One round. -/
theorem Filling.body (h : Filling mmPool m bs) (hin : ∀ b ∈ bs, b.InMap lowerbound)
    (hd : d.Usable → (d.block lowerbound).InMap lowerbound) : ∃ m',
    pageAllocInitBody mmPool lowerbound d m = some m' ∧
      Filling mmPool m' (bs ++ poolBlocks [d] lowerbound) ∧
      Mem.SameOutside (initArea lowerbound) m m' := by
  unfold pageAllocInitBody
  by_cases hu : d.Usable
  · have hblock := hd hu
    have hle : d.clippedStart lowerbound ≤ phyMapSize := by
      have := hblock.below
      simp only [EfiMemoryDescriptor.block] at this
      omega
    have hconv : convertPhyToVirt (d.clippedStart lowerbound)
        = some (d.clippedStart lowerbound + phyMapBase) := by
      simp only [phyMapSize] at hle
      rw [convertPhyToVirt, if_pos (by simp only [phyMapBase]; omega),
        add64_eq (by simp only [phyMapBase]; omega)]
    have hall : ∀ b ∈ d.block lowerbound :: bs, b.InMap lowerbound := fun b hb => by
      rcases List.mem_cons.mp hb with rfl | hb
      · exact hblock
      · exact hin b hb
    rw [if_pos hu]
    dsimp only
    rw [hconv, show poolBlocks [d] lowerbound = [d.block lowerbound] by
      simp [poolBlocks, hu]]
    refine ⟨_, rfl, h.add hall, ((h.link hall).2.mono ?_).trans
      ((sameOutside_setAvailablePages _ _).mono poolCounters_subset_initArea)⟩
    exact headerArea_subset_initArea hall
  · rw [if_neg hu, show poolBlocks [d] lowerbound = [] by simp [poolBlocks, hu], List.append_nil]
    exact ⟨m, rfl, h, Mem.SameOutside.refl _ m⟩

/-- A descriptor below the blocks is read as it was at first. -/
theorem read_sameOutside {ptr : Nat} (hs : Mem.SameOutside (initArea lowerbound) m m')
    (hptr : ptr + 32 ≤ phyMapBase + min lowerbound phyMapSize) :
    EfiMemoryDescriptor.read m' ptr = .read m ptr := by
  have hout : ∀ x, x < ptr + 32 → x ∉ initArea lowerbound := fun x hx hin => by
    have := Set.mem_Ici.mp hin
    omega
  unfold EfiMemoryDescriptor.read
  rw [Mem.load_congr fun x _ h => hs x (hout x (by omega)),
    hs.load64_eq fun x _ h => hout x (by omega), hs.load64_eq fun x _ h => hout x (by omega)]

/-- The rounds over the descriptors at the indices `is`. -/
theorem Filling.loop {m₀ : Mem} {desc size : Nat} {is : List Nat} (h : Filling mmPool m bs)
    (hin : ∀ b ∈ bs, b.InMap lowerbound) (hs : Mem.SameOutside (initArea lowerbound) m₀ m)
    (hfit : ∀ i ∈ is, desc + i * size + 32 ≤ phyMapBase + min lowerbound phyMapSize)
    (hds : ∀ b ∈ poolBlocks (is.map fun i => .read m₀ (desc + i * size)) lowerbound,
      b.InMap lowerbound) : ∃ m',
    pageAllocInitLoop mmPool desc size lowerbound m is = some m' ∧
      Filling mmPool m' (bs ++ poolBlocks (is.map fun i => .read m₀ (desc + i * size)) lowerbound) ∧
      Mem.SameOutside (initArea lowerbound) m₀ m' := by
  induction is generalizing m bs with
  | nil => exact ⟨m, rfl, by simpa [poolBlocks] using h, hs⟩
  | cons i is ih =>
    have hi := hfit i List.mem_cons_self
    have hmin := Nat.min_le_right lowerbound phyMapSize
    have haddr : add64 desc (i * size % 2 ^ 64) = desc + i * size := by
      simp only [phyMapBase, phyMapSize] at hi hmin
      rw [Nat.mod_eq_of_lt (by omega), add64_eq (by omega)]
    rw [List.map_cons, poolBlocks_cons] at hds ⊢
    obtain ⟨m₁, hrun₁, h₁, hs₁⟩ := h.body (d := .read m₀ (desc + i * size)) hin fun hu =>
      hds _ (List.mem_append_left _ (by simp [poolBlocks, hu]))
    obtain ⟨m₂, hrun₂, h₂, hs₂⟩ := ih h₁ (fun b hb => by
      rcases List.mem_append.mp hb with hb | hb
      · exact hin b hb
      · exact hds b (List.mem_append_left _ hb)) (hs.trans hs₁)
      (fun j hj => hfit j (List.mem_cons_of_mem i hj))
      fun b hb => hds b (List.mem_append_right _ hb)
    refine ⟨m₂, ?_, by rwa [← List.append_assoc], hs₂⟩
    rw [pageAllocInitLoop, List.foldlM_cons, haddr, read_sameOutside hs hi, hrun₁]
    exact hrun₂

/-- A store behind the list head, out of the headers. -/
theorem Filling.frame (h : Filling mmPool m bs) (hin : ∀ b ∈ bs, b.InMap lowerbound)
    (hs : Mem.SameOutside (poolCounters mmPool) m m')
    (hav : mmPool.available m' = mmPool.available m) : Filling mmPool m' bs := by
  have hp : Placed mmPool (bs.map PageBlock.addr) := placed_of_inMap hin
  have hnot := headerArea_not_poolCounters hp
  refine ⟨h.trail.congr fun y hy => hs.load64_eq fun x h1 h2 => ?_,
    fun hnd => (h.pages hnd).congr hs hnot, hav.trans h.available⟩
  refine hnot x (ico_subset_headerArea (List.mem_cons.mp ?_) le_rfl ⟨h1, h2⟩)
  simpa using hy

/-- The empty list. -/
theorem filling_nil (m : Mem) :
    Filling mmPool (mmPool.setAvailable (listInit m mmPool.addr) 0) [] ∧
      Mem.SameOutside (initArea lowerbound) m (mmPool.setAvailable (listInit m mmPool.addr) 0) := by
  have hin : ∀ b ∈ ([] : List PageBlock), b.InMap lowerbound := fun b hb =>
    absurd hb List.not_mem_nil
  have hp : Placed mmPool [] := placed_of_inMap hin
  have hs : Mem.SameOutside (poolCounters mmPool) (listInit m mmPool.addr) _ :=
    sameOutside_setAvailablePages _ 0
  have hring : Ring (listInit m mmPool.addr) mmPool.addr [] :=
    ring_listInit hp.lawfulOn (Or.inl rfl)
  have hring' := ring_sameOutside hring hs (headerArea_not_poolCounters hp)
  refine ⟨⟨⟨hring'.prev_head, fun pre x rest he => ?_⟩, fun _ => ⟨hring', ?_⟩, ?_⟩, ?_⟩
  · simp at he
  · simp
  · exact Mem.load64_store64 (by decide)
  · exact ((sameOutside_listInit (Or.inl rfl)).mono (headerArea_subset_initArea hin)).trans
      (hs.mono poolCounters_subset_initArea)

/-- Where the array is: whole descriptors, below the pages that are handed out. -/
structure DescriptorArray (desc size totalLength lowerbound : Nat) : Prop where
  stride : efiMemoryDescriptorSize ≤ size
  whole : size ∣ totalLength
  low : desc + totalLength ≤ phyMapBase + min lowerbound phyMapSize

/-- The whole loop, and then the total. -/
theorem pageAllocInit_filling {desc size totalLength : Nat} (mmPool : MmPool) (m : Mem)
    (harr : DescriptorArray desc size totalLength lowerbound)
    (hds : ∀ b ∈ poolBlocks (descriptors m desc size (totalLength / size)) lowerbound,
      b.InMap lowerbound) : ∃ m',
    pageAllocInit mmPool desc size totalLength lowerbound m = some m' ∧
      Filling mmPool m' (poolBlocks (descriptors m desc size (totalLength / size)) lowerbound) ∧
      mmPool.total m' = mmPool.available m' := by
  obtain ⟨k, rfl⟩ := harr.whole
  have hlow := harr.low
  have hstride := harr.stride
  have hpos : 0 < size := lt_of_lt_of_le (by decide) hstride
  have hmin := Nat.min_le_right lowerbound phyMapSize
  rw [Nat.mul_div_cancel_left k hpos] at hds ⊢
  obtain ⟨h₀, hs₀⟩ : Filling mmPool _ [] ∧ Mem.SameOutside (initArea lowerbound) m _ :=
    filling_nil m
  have hfit : ∀ i ∈ List.range k, desc + i * size + 32 ≤ phyMapBase + min lowerbound phyMapSize := by
    intro i hi
    have hle : (i + 1) * size ≤ k * size := Nat.mul_le_mul_right size (List.mem_range.mp hi)
    rw [Nat.succ_mul, Nat.mul_comm k] at hle
    simp only [efiMemoryDescriptorSize] at hstride
    omega
  obtain ⟨m', hrun, h', -⟩ := h₀.loop (fun b hb => absurd hb List.not_mem_nil) hs₀ hfit hds
  rw [List.nil_append] at h'
  have hstore : Mem.SameOutside (poolCounters mmPool) m'
      (m'.store64 (mmPool.addr + 24) (mmPool.available m')) :=
    (Mem.SameOutside.refl _ m').store64 fun x hx =>
      ⟨by have := hx.1; omega, by have := hx.2; omega⟩
  have hav : mmPool.available (m'.store64 (mmPool.addr + 24) (mmPool.available m'))
      = mmPool.available m' := Mem.load64_store64_of_disjoint (by omega)
  refine ⟨_, ?_, h'.frame hds hstore hav, ?_⟩
  · have hlt : size * k < 2 ^ 64 := by
      simp only [phyMapBase, phyMapSize] at hlow hmin
      omega
    rw [pageAllocInit, Nat.mul_div_cancel_left k hpos,
      if_pos (by rw [Nat.mul_comm k, Nat.mod_eq_of_lt hlt]), hrun]
    rfl
  · rw [hav]
    exact Mem.load64_store64 (Mem.load64_lt _ _)

end Raincloud
