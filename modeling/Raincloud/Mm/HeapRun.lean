import Raincloud.Infra.Run
import Raincloud.Mm.HeapCalls

/-!
# Runs of the heap

From the block list `malloc_init` builds, any sequence of `malloc` calls that find a block
and `free` calls on live pointers keeps `HeapAt`, hands out payloads that do not overlap, and
never touches the payload of another live pointer. Between the calls the owners may write
their payloads, and the rest of the kernel everything outside the heap.
-/

namespace Raincloud

open Infra Infra.LinkStore

variable {vmHeap : VmHeap} {m m' : Mem} {bs bs' pre post : List Block} {b c d : Block}
  {size p : Nat}

/-! ## Writes away from the books -/

theorem HeapAt.congr (h : HeapAt vmHeap m bs) (hs : Mem.SameOutside (heapArea vmHeap bs)ᶜ m m') :
    HeapAt vmHeap m' bs := by
  have hhead : headerArea vmHeap (bs.map Block.addr) ⊆ heapArea vmHeap bs :=
    headerArea_subset fun b hb => ⟨b, hb, rfl⟩
  have hcount : ∀ i, 16 ≤ i → i ≤ 32 →
      m'.load64 (vmHeap.addr + i) = m.load64 (vmHeap.addr + i) := by
    intro i h1 h2
    refine hs.load64_eq fun x hx1 hx2 hx => hx (counterArea_subset ⟨?_, ?_⟩) <;> omega
  refine ⟨h.blocks.congr hs fun x hx hnot => hnot (hhead hx), h.tiles, h.aligned, ?_⟩
  exact ⟨(hcount 24 (by omega) (by omega)).trans h.counters.total,
    (hcount 32 (by omega) le_rfl).trans h.counters.count,
    (hcount 16 le_rfl (by omega)).trans h.counters.available⟩

/-- The bytes of a payload. -/
def Block.payloadArea (b : Block) : Set Nat := Set.Ico b.payload (b.payload + b.length)

theorem HeapAt.addr_inj (h : HeapAt vmHeap m bs) (hb : b ∈ bs) (hc : c ∈ bs)
    (he : b.addr = c.addr) : b = c := by
  have hnd := (List.nodup_cons.mp h.blocks.ring.nodup).2
  exact List.inj_on_of_nodup_map hnd hb hc he

/-- A payload holds no header and nothing of `vm_heap`. -/
theorem HeapAt.payload_not_heapArea (h : HeapAt vmHeap m bs) (hb : b ∈ bs) :
    ∀ x ∈ b.payloadArea, x ∉ heapArea vmHeap bs := by
  intro x hx hin
  have h1 : b.addr + 32 ≤ x := hx.1
  have h2 : x < b.addr + 32 + b.length := hx.2
  have hbnd := (h.bounds hb).2
  rcases hin with hin | ⟨c, hc, h3, h4⟩
  · have := vmHeap.image
    have := heapEnd_lt_image
    omega
  · by_cases he : b.addr = c.addr
    · omega
    · have := h.tiles.apart hb hc he
      simp only [Block.size, blockStructSize] at this
      omega

theorem HeapAt.payload_disjoint (h : HeapAt vmHeap m bs) (hb : b ∈ bs) (hc : c ∈ bs)
    (hne : b ≠ c) : Disjoint b.payloadArea c.payloadArea := by
  rw [Set.disjoint_left]
  intro x hx hx'
  have h1 : b.addr + 32 ≤ x ∧ x < b.addr + 32 + b.length := hx
  have h2 : c.addr + 32 ≤ x ∧ x < c.addr + 32 + c.length := hx'
  have := h.tiles.apart hb hc fun he => hne (h.addr_inj hb hc he)
  simp only [Block.size, blockStructSize] at this
  omega

/-! ## `malloc_init` -/

/-- The block list `malloc_init` starts from. -/
def initialBlocks : List Block := [⟨kernelHeapBase, heapSize - blockStructSize, false⟩]

/-- The counters that `malloc_init` sets. -/
def initCounters (vmHeap : VmHeap) (m : Mem) : Mem :=
  vmHeap.setAvailable (vmHeap.setBlockCount (vmHeap.setTotal m heapSize) 1)
    (heapSize - blockStructSize)

theorem counters_initCounters (vmHeap : VmHeap) (m : Mem) :
    Counters vmHeap (initCounters vmHeap m) heapSize 1 (heapSize - blockStructSize) := by
  have h0 : Counters vmHeap (vmHeap.setTotal m heapSize) heapSize
      (vmHeap.blockCount m) (vmHeap.available m) :=
    ⟨Mem.load64_store64 (by decide), Mem.load64_store64_of_disjoint (by omega),
      Mem.load64_store64_of_disjoint (by omega)⟩
  exact (h0.setBlockCount (by decide)).setAvailable (by decide)

theorem sameOutside_initCounters (vmHeap : VmHeap) (m : Mem) :
    Mem.SameOutside (counterArea vmHeap) m (initCounters vmHeap m) := by
  have h0 : Mem.SameOutside (counterArea vmHeap) m (vmHeap.setTotal m heapSize) :=
    (Mem.SameOutside.refl _ m).store64 fun x hx =>
      ⟨by have := hx.1; omega, by have := hx.2; omega⟩
  exact (h0.trans (sameOutside_setBlockCount _ _)).trans (sameOutside_setAvailable _ _)

theorem heapAt_mallocInit (vmHeap : VmHeap) (m : Mem) :
    HeapAt vmHeap (mallocInit vmHeap m) initialBlocks := by
  have ht : Tiles Block.addr Block.size kernelHeapBase initialBlocks heapEnd :=
    ⟨rfl, by simp only [Tiles]; decide⟩
  have hp : Placed vmHeap (initialBlocks.map Block.addr) := placed_of_tiles ht
  change Placed vmHeap [kernelHeapBase] at hp
  have hS := hp.lawfulOn
  have hhead : vmHeap.addr ∈ listNodes vmHeap [kernelHeapBase] := Or.inl rfl
  have hbase : kernelHeapBase ∈ listNodes vmHeap [kernelHeapBase] := Or.inr (by simp)
  have hne : vmHeap.addr ≠ kernelHeapBase := by
    have := hp.below kernelHeapBase (by simp)
    omega
  obtain ⟨m1, hm1⟩ : ∃ m1, m1 = listInit m vmHeap.addr := ⟨_, rfl⟩
  have hr1 : Ring m1 vmHeap.addr [] := hm1 ▸ ring_listInit hS hhead
  -- the counters
  obtain ⟨m2, hm2⟩ : ∃ m2, m2 = initCounters vmHeap m1 := ⟨_, rfl⟩
  have hc2 : Counters vmHeap m2 heapSize 1 (heapSize - blockStructSize) :=
    hm2 ▸ counters_initCounters vmHeap m1
  have hs2 : Mem.SameOutside (counterArea vmHeap) m1 m2 :=
    hm2 ▸ sameOutside_initCounters vmHeap m1
  have hb2 : BlocksAt vmHeap m2 [] := by
    have hb1 : BlocksAt vmHeap m1 [] := ⟨hr1, by simp, by simp⟩
    exact hb1.congr hs2 (headerArea_disjoint_counterArea (hp.mono (by simp)))
  -- the first header
  obtain ⟨m3, hm3⟩ : ∃ m3, m3 = listInit m2 kernelHeapBase := ⟨_, rfl⟩
  have hr3 : Ring m3 vmHeap.addr [] := by
    have hr2 := hb2.ring
    rw [List.map_nil, Ring.nil_iff] at hr2
    rw [hm3, Ring.nil_iff, next_listInit hS hbase hhead, prev_listInit hS hbase hhead,
      if_neg hne, if_neg hne]
    exact hr2
  have hs3 : Mem.SameOutside (headerArea vmHeap [kernelHeapBase]) m2 m3 :=
    hm3 ▸ sameOutside_listInit hbase
  obtain ⟨m4, hm4⟩ : ∃ m4, m4 = listAddAfter m3 vmHeap.addr kernelHeapBase := ⟨_, rfl⟩
  have hn3 : next m3 vmHeap.addr = vmHeap.addr := hr3.next_head
  have hr4 : Ring m4 vmHeap.addr [kernelHeapBase] := by
    have := ring_listAdd (A := []) (B := []) hS hr3 (by simpa using hhead) hbase
      (by simpa using Ne.symm hne)
    rw [hm4, listAddAfter, hn3]
    simpa using this
  have hs4 : Mem.SameOutside (headerArea vmHeap [kernelHeapBase]) m3 m4 := by
    rw [hm4, listAddAfter, hn3]
    exact sameOutside_listAdd hhead hhead hbase
  have hs5 : Mem.SameOutside (headerArea vmHeap [kernelHeapBase]) m2
      (setBlockUsed (setBlockLength m4 kernelHeapBase (heapSize - blockStructSize))
        kernelHeapBase 0) :=
    ((hs3.trans hs4).trans (sameOutside_setBlockLength (by simp))).trans
      (sameOutside_setBlockUsed (by simp))
  have hrun : mallocInit vmHeap m
      = setBlockUsed (setBlockLength m4 kernelHeapBase (heapSize - blockStructSize))
        kernelHeapBase 0 := by
    have htotal : ∀ m, vmHeap.total (vmHeap.setBlockCount (vmHeap.setTotal m heapSize) 1)
        = heapSize := fun m =>
      (Mem.load64_store64_of_disjoint (by omega)).trans (Mem.load64_store64 (by decide))
    have hcount : ∀ m, vmHeap.blockCount (vmHeap.setBlockCount m 1) = 1 := fun m =>
      Mem.load64_store64 (by decide)
    have hav4 := (hc2.frame hp (hs3.trans hs4)).available
    have hshl : shl64 initialHeapSize 12 = heapSize := by decide
    have hsub : sub64 heapSize (1 * blockStructSize % 2 ^ 64) = heapSize - blockStructSize := by
      decide
    unfold initCounters at hm2
    unfold mallocInit
    simp only [hshl, htotal, hcount, hsub, ← hm1, ← hm2, ← hm3, ← hm4, hav4]
  rw [hrun]
  refine ⟨⟨?_, ?_, ?_⟩, ht, by simp [initialBlocks, heapSize, blockStructSize], ?_⟩
  · have hin : kernelHeapBase ∈ [kernelHeapBase] := by simp
    exact ring_store (ring_store hr4 hp hin le_rfl (by omega)) hp hin (by omega) le_rfl
  · intro b hb
    obtain rfl := List.mem_singleton.mp hb
    have hlen : blockLength (setBlockLength m4 kernelHeapBase (heapSize - blockStructSize))
        kernelHeapBase = heapSize - blockStructSize := Mem.load64_store64 (by decide)
    exact (Mem.load64_store64_of_disjoint (by decide)).trans hlen
  · intro b hb
    obtain rfl := List.mem_singleton.mp hb
    exact Mem.load64_store64 (by decide)
  · exact hc2.frame hp hs5

/-! ## `malloc` -/

theorem roundsize_aligned (size : Nat) : roundsize size % 16 = 0 := by
  have hmod : size &&& 0xf = size % 16 := and_mask size 4
  unfold roundsize
  split
  · have h16 : (size &&& 0xfffffffffffffff0) % 16 = 0 := by
      have := and_mask (size &&& 0xfffffffffffffff0) 4
      rw [Nat.and_assoc] at this
      simpa using this.symm
    have h64 : (2 : Nat) ^ 64 % 16 = 0 := by decide
    unfold add64
    omega
  · omega

/-- The allocated blocks. -/
def usedBlocks (bs : List Block) : List Block := bs.filter Block.used

theorem mem_usedBlocks : b ∈ usedBlocks bs ↔ b ∈ bs ∧ b.used = true := List.mem_filter

@[simp] theorem usedBlocks_append (bs cs : List Block) :
    usedBlocks (bs ++ cs) = usedBlocks bs ++ usedBlocks cs := List.filter_append ..

theorem usedBlocks_cons_used (hb : b.used = true) : usedBlocks (b :: bs) = b :: usedBlocks bs :=
  List.filter_cons_of_pos hb

theorem usedBlocks_cons_free (hb : b.used = false) : usedBlocks (b :: bs) = usedBlocks bs :=
  List.filter_cons_of_neg (by simp [hb])

/-- A successful `__malloc` adds one block to the allocated ones. -/
theorem Carve.used (h : Carve size bs bs' p) :
    ∃ c, c.payload = p ∧ size ≤ c.length ∧ (usedBlocks bs').Perm (c :: usedBlocks bs) := by
  cases h with
  | @whole pre post b hbs hpre hfree hfit hsmall =>
    refine ⟨{ b with used := true }, rfl, hfit, ?_⟩
    rw [hbs, usedBlocks_append, usedBlocks_append, usedBlocks_cons_used rfl,
      usedBlocks_cons_free hfree]
    exact List.perm_middle
  | @tail pre post b hbs hpre hfree hlarge =>
    refine ⟨⟨b.addr + 32 + (b.length - (size + 32)), size, true⟩, rfl, le_rfl, ?_⟩
    have hrest : ({ b with length := b.length - (size + 32) } : Block).used = false := hfree
    rw [hbs, usedBlocks_append, usedBlocks_append, usedBlocks_cons_free hfree,
      usedBlocks_cons_free hrest, usedBlocks_cons_used rfl]
    exact List.perm_middle

/-- What is carved up was free and large enough. -/
theorem Carve.exists_fit (h : Carve size bs bs' p) :
    ∃ b ∈ bs, b.used = false ∧ size ≤ b.length := by
  cases h with
  | @whole pre post b hbs _ hfree hfit _ => exact ⟨b, by simp [hbs], hfree, hfit⟩
  | @tail pre post b hbs _ hfree hlarge => exact ⟨b, by simp [hbs], hfree, by omega⟩

theorem Carve.ne_null (h : Carve size bs bs' p) : p ≠ NULL := by
  obtain ⟨c, rfl, -⟩ := h.used
  simp [Block.payload, blockStructSize, NULL]

/-- What the two attempts of `malloc` lead to. -/
theorem HeapAt.mallocBlock (h : HeapAt vmHeap m bs) (hne : bs ≠ []) (hal : size % 16 = 0) :
    ∃ p m', Raincloud.mallocBlock vmHeap size m = some (p, m') ∧
      (p = NULL ∧ HeapAt vmHeap m' (mergeBlocks bs) ∧ (∀ c ∈ mergeBlocks bs, c.Unfit size) ∧
          Mem.SameOutside (heapArea vmHeap bs) m m' ∨
        ∃ bs₀ bs', HeapAt vmHeap m' bs' ∧ Carve size bs₀ bs' p ∧
          (bs₀ = bs ∨ bs₀ = mergeBlocks bs) ∧
          Mem.SameOutside (heapArea vmHeap bs ∪ heapArea vmHeap bs') m m') := by
  unfold Raincloud.mallocBlock
  rcases h.__malloc hne hal with ⟨he, -⟩ | ⟨bs', p, m', he, hcarve, h', hs⟩
  · obtain ⟨m₁, hmerge, h₁, hs₁⟩ := h.__mergeBlock
    rw [he, Option.bind_some, if_pos rfl, hmerge, Option.bind_some]
    rcases h₁.__malloc (mergeBlocks_ne_nil hne) hal with
      ⟨he₁, hunfit⟩ | ⟨bs', p, m', he₁, hcarve, h', hs⟩
    · exact ⟨NULL, m₁, he₁, Or.inl ⟨rfl, h₁, hunfit, hs₁⟩⟩
    · refine ⟨p, m', he₁, Or.inr ⟨_, bs', h', hcarve, Or.inr rfl, ?_⟩⟩
      exact (hs₁.mono Set.subset_union_left).trans (hs.mono Set.subset_union_right)
  · rw [he, Option.bind_some, if_neg hcarve.ne_null]
    exact ⟨p, m', rfl, Or.inr ⟨bs, bs', h', hcarve, Or.inl rfl,
      hs.mono Set.subset_union_right⟩⟩

/-- A `malloc` that finds a block. -/
theorem HeapAt.malloc (h : HeapAt vmHeap m bs) (hne : bs ≠ []) {r : HeapCall}
    (hr : Raincloud.malloc vmHeap size m = some r) (hret : r.ret ≠ NULL) :
    r.bugs = [] ∧ ∃ bs' c, HeapAt vmHeap r.mem bs' ∧ bs' ≠ [] ∧ c.payload = r.ret ∧
      roundsize size ≤ c.length ∧ (usedBlocks bs').Perm (c :: usedBlocks bs) ∧
      Mem.SameOutside (heapArea vmHeap bs ∪ heapArea vmHeap bs' ∪ c.payloadArea) m r.mem := by
  have hsize : size ≠ 0 := by
    rintro rfl
    obtain rfl : _ = r := Option.some.inj hr
    exact hret rfl
  obtain ⟨p, m₁, he, hres⟩ := h.mallocBlock hne (roundsize_aligned size)
  unfold Raincloud.malloc at hr
  simp only [if_neg hsize, he, Option.bind_some] at hr
  obtain ⟨bugs, hbugs, rfl⟩ := Option.map_eq_some_iff.mp hr
  obtain ⟨hnull, -⟩ | ⟨bs₀, bs', h', hcarve, hbs₀, hs⟩ := hres
  · exact absurd hnull hret
  have hused : usedBlocks bs₀ = usedBlocks bs := by
    rcases hbs₀ with rfl | rfl
    · rfl
    · exact mergeBlocks_used bs
  obtain ⟨c, rfl, hlen, hperm⟩ := hcarve.used
  have hc : c ∈ bs' := (mem_usedBlocks.mp (hperm.mem_iff.mpr (by simp))).1
  have hpay : Mem.SameOutside c.payloadArea m₁ (memset m₁ c.payload 0 (roundsize size)) :=
    (Mem.fill_sameOutside m₁ c.payload 0 (roundsize size)).mono fun x hx =>
      ⟨hx.1, by have := hx.2; omega⟩
  have hfin : HeapAt vmHeap (memset m₁ c.payload 0 (roundsize size)) bs' :=
    h'.congr (hpay.mono fun x hx => h'.payload_not_heapArea hc x hx)
  rw [hfin.mmListConsistencyCheck] at hbugs
  refine ⟨(Option.some.inj hbugs).symm, bs', c, hfin, ?_, rfl, hlen, hused ▸ hperm, ?_⟩
  · exact List.ne_nil_of_mem hc
  · exact (hs.mono Set.subset_union_left).trans (hpay.mono Set.subset_union_right)

/-! ## `free` -/

/-- A `free` of an allocated block. -/
theorem HeapAt.free (h : HeapAt vmHeap m bs) (hb : b ∈ bs) (hused : b.used = true) :
    ∃ m' bs', Raincloud.free vmHeap b.payload m = some ⟨m', NULL, []⟩ ∧ HeapAt vmHeap m' bs' ∧
      bs' ≠ [] ∧ (usedBlocks bs).Perm (b :: usedBlocks bs') ∧
      Mem.SameOutside (heapArea vmHeap bs) m m' := by
  obtain ⟨pre, post, rfl⟩ := List.append_of_mem hb
  obtain ⟨m', he, h', hs⟩ := h.__free hused
  refine ⟨m', _, ?_, h', by simp, ?_, hs⟩
  · unfold Raincloud.free
    simp only [he, h'.mmListConsistencyCheck, Option.map_some, List.nil_append]
  · rw [usedBlocks_append, usedBlocks_append, usedBlocks_cons_used hused,
      usedBlocks_cons_free rfl]
    exact List.perm_middle

/-! ## The machine -/

/-- The memory, and the pointers handed out and not freed yet. -/
structure HeapState where
  mem : Mem
  live : List Nat

inductive HeapAction where
  | malloc (size : Nat)
  | free (ptr : Nat)
  | write
  deriving DecidableEq

/-- The bytes behind a pointer, as many as its header says. -/
def payloadArea (m : Mem) (p : Nat) : Set Nat :=
  Set.Ico p (p + blockLength m (p - blockStructSize))

/-- What the rest of the kernel may write between two calls. -/
def ownersArea (vmHeap : VmHeap) (s : HeapState) : Set Nat :=
  {x | (∃ p ∈ s.live, x ∈ payloadArea s.mem p) ∨
    (x < kernelHeapBase ∨ heapEnd ≤ x) ∧ (x < vmHeap.addr ∨ vmHeap.addr + 40 ≤ x)}

inductive HeapStep (vmHeap : VmHeap) : HeapState → HeapAction → HeapState → Prop
  | malloc {s : HeapState} {size : Nat} {r : HeapCall}
      (hr : Raincloud.malloc vmHeap size s.mem = some r) (hret : r.ret ≠ NULL) :
      HeapStep vmHeap s (.malloc size) ⟨r.mem, r.ret :: s.live⟩
  | free {s : HeapState} {p : Nat} {r : HeapCall} (hp : p ∈ s.live)
      (hr : Raincloud.free vmHeap p s.mem = some r) :
      HeapStep vmHeap s (.free p) ⟨r.mem, s.live.erase p⟩
  | write {s : HeapState} {m : Mem} (hm : Mem.SameOutside (ownersArea vmHeap s) s.mem m) :
      HeapStep vmHeap s .write ⟨m, s.live⟩

def heapMachine (vmHeap : VmHeap) : Machine HeapState HeapAction where
  start s := ∃ m, s = ⟨mallocInit vmHeap m, []⟩
  step := HeapStep vmHeap

/-! ## The invariant -/

/-- The heap holds the blocks `bs`, and the allocated ones are the live pointers. -/
structure HeapInv (vmHeap : VmHeap) (s : HeapState) (bs : List Block) : Prop where
  heap : HeapAt vmHeap s.mem bs
  nonempty : bs ≠ []
  live : s.live.Perm ((usedBlocks bs).map Block.payload)

variable {s s' : HeapState} {act : HeapAction} {q : Nat}

theorem HeapInv.mem_live (h : HeapInv vmHeap s bs) :
    p ∈ s.live ↔ ∃ b ∈ bs, b.used = true ∧ b.payload = p := by
  rw [h.live.mem_iff]
  simp only [List.mem_map, mem_usedBlocks, and_assoc]

theorem HeapAt.payloadArea_eq (h : HeapAt vmHeap m bs) (hb : b ∈ bs) :
    payloadArea m b.payload = b.payloadArea := by
  have hsub : b.payload - blockStructSize = b.addr := Nat.add_sub_cancel ..
  unfold payloadArea Block.payloadArea
  rw [hsub, h.blocks.length b hb]

theorem HeapInv.nodup (h : HeapInv vmHeap s bs) : s.live.Nodup := by
  rw [h.live.nodup_iff]
  refine List.Nodup.map_on ?_ ?_
  · intro b hb c hc he
    refine h.heap.addr_inj (mem_usedBlocks.mp hb).1 (mem_usedBlocks.mp hc).1 ?_
    simp only [Block.payload] at he
    omega
  · exact (List.Nodup.of_map _ (List.nodup_cons.mp h.heap.blocks.ring.nodup).2).filter _

/-- Payloads are not among the books, so their owners keep the heap as it is. -/
theorem HeapInv.ownersArea_subset (h : HeapInv vmHeap s bs) :
    ownersArea vmHeap s ⊆ (heapArea vmHeap bs)ᶜ := by
  rintro x (⟨p, hp, hx⟩ | ⟨h1, h2⟩) hin
  · obtain ⟨b, hb, -, rfl⟩ := h.mem_live.mp hp
    rw [h.heap.payloadArea_eq hb] at hx
    exact h.heap.payload_not_heapArea hb x hx hin
  · rcases hin with hin | ⟨b, hb, hin⟩
    · omega
    · have := h.heap.bounds hb
      omega

theorem HeapInv.step (h : HeapInv vmHeap s bs) (hs : HeapStep vmHeap s act s') :
    ∃ bs', HeapInv vmHeap s' bs' := by
  cases hs with
  | malloc hr hret =>
    obtain ⟨-, bs', c, h', hne, hc, -, hperm, -⟩ := h.heap.malloc h.nonempty hr hret
    refine ⟨bs', h', hne, ?_⟩
    rw [← hc]
    exact (h.live.cons c.payload).trans (hperm.map Block.payload).symm
  | @free p r hp hr =>
    obtain ⟨b, hb, hused, rfl⟩ := h.mem_live.mp hp
    obtain ⟨m', bs', he, h', hne, hperm, -⟩ := h.heap.free hb hused
    obtain rfl : _ = r := Option.some.inj (he.symm.trans hr)
    refine ⟨bs', h', hne, ?_⟩
    have := (h.live.trans (hperm.map Block.payload)).erase b.payload
    rwa [List.map_cons, List.erase_cons_head] at this
  | write hm =>
    exact ⟨bs, h.heap.congr (hm.mono h.ownersArea_subset), h.nonempty, h.live⟩

theorem heapInv_mallocInit (vmHeap : VmHeap) (m : Mem) :
    HeapInv vmHeap ⟨mallocInit vmHeap m, []⟩ initialBlocks :=
  ⟨heapAt_mallocInit vmHeap m, by simp [initialBlocks], by simp [initialBlocks, usedBlocks]⟩

theorem exists_heapInv (h : (heapMachine vmHeap).Reachable s) : ∃ bs, HeapInv vmHeap s bs := by
  refine h.invariant (fun s => ∃ bs, HeapInv vmHeap s bs) ?_ ?_
  · rintro _ ⟨m, rfl⟩
    exact ⟨initialBlocks, heapInv_mallocInit vmHeap m⟩
  · rintro s a s' ⟨bs, hinv⟩ hs
    exact hinv.step hs

/-! ## What the invariant says -/

/-- A payload is aligned and holds no header. -/
theorem HeapInv.payload (h : HeapInv vmHeap s bs) (hp : p ∈ s.live) :
    p % 16 = 0 ∧ ∀ b ∈ bs, Disjoint (payloadArea s.mem p) (Set.Ico b.addr (b.addr + 32)) := by
  obtain ⟨c, hc, -, rfl⟩ := h.mem_live.mp hp
  refine ⟨?_, fun b hb => ?_⟩
  · have := h.heap.addr_aligned hc
    simp only [Block.payload, blockStructSize]
    omega
  · rw [Set.disjoint_left, h.heap.payloadArea_eq hc]
    exact fun x hx hin => h.heap.payload_not_heapArea hc x hx (Or.inr ⟨b, hb, hin⟩)

theorem HeapInv.payloads_disjoint (h : HeapInv vmHeap s bs) (hp : p ∈ s.live) (hq : q ∈ s.live)
    (hne : p ≠ q) : Disjoint (payloadArea s.mem p) (payloadArea s.mem q) := by
  obtain ⟨b, hb, -, rfl⟩ := h.mem_live.mp hp
  obtain ⟨c, hc, -, rfl⟩ := h.mem_live.mp hq
  rw [h.heap.payloadArea_eq hb, h.heap.payloadArea_eq hc]
  exact h.heap.payload_disjoint hb hc fun he => hne (congrArg Block.payload he)

/-- A call leaves the payload of every pointer that was live before it alone. -/
theorem HeapInv.frame (h : HeapInv vmHeap s bs) (hs : HeapStep vmHeap s act s')
    (hact : act ≠ .write) (hp : p ∈ s.live) : ∀ x ∈ payloadArea s.mem p, s'.mem x = s.mem x := by
  obtain ⟨b, hb, hused, rfl⟩ := h.mem_live.mp hp
  rw [h.heap.payloadArea_eq hb]
  intro x hx
  cases hs with
  | malloc hr hret =>
    obtain ⟨-, bs', c, h', -, -, -, hperm, hsame⟩ := h.heap.malloc h.nonempty hr hret
    have hc := mem_usedBlocks.mp (hperm.mem_iff.mpr (List.mem_cons_self ..))
    have hb' := mem_usedBlocks.mp
      (hperm.mem_iff.mpr (List.mem_cons_of_mem _ (mem_usedBlocks.mpr ⟨hb, hused⟩)))
    refine hsame x ?_
    rintro ((hin | hin) | hin)
    · exact h.heap.payload_not_heapArea hb x hx hin
    · exact h'.payload_not_heapArea hb'.1 x hx hin
    · refine Set.disjoint_left.mp (h'.payload_disjoint hb'.1 hc.1 ?_) hx hin
      rintro rfl
      -- the new block is not one of the old ones: no block occurs twice
      have hnd := (List.Nodup.of_map _ (List.nodup_cons.mp h'.blocks.ring.nodup).2).filter
        Block.used
      have := (hperm.nodup_iff.mp hnd)
      exact (List.nodup_cons.mp this).1 (mem_usedBlocks.mpr ⟨hb, hused⟩)
  | @free p r hp' hr =>
    obtain ⟨c, hc, hcused, rfl⟩ := h.mem_live.mp hp'
    obtain ⟨m', bs', he, -, -, -, hsame⟩ := h.heap.free hc hcused
    obtain rfl : _ = r := Option.some.inj (he.symm.trans hr)
    exact hsame x fun hin => h.heap.payload_not_heapArea hb x hx hin
  | write hm => exact absurd rfl hact

/--
In every reachable state the blocks tile the heap, the counters agree with them, the live
payloads are apart from each other and from the headers, no call reports or changes a live
payload, and neither a search for a block nor the consistency check goes round for ever.
-/
theorem heapMachine_safe (h : (heapMachine vmHeap).Reachable s) :
    (∃ bs, BlocksAt vmHeap s.mem bs ∧ Tiles Block.addr Block.size kernelHeapBase bs heapEnd ∧
      vmHeap.blockCount s.mem = bs.length ∧
      (bs.map Block.length).sum + blockStructSize * vmHeap.blockCount s.mem
        = vmHeap.total s.mem ∧
      vmHeap.available s.mem = freeLength bs ∧
      (∀ p, p ∈ s.live ↔ ∃ b ∈ bs, b.used = true ∧ b.payload = p) ∧
      ∀ p ∈ s.live, p % 16 = 0 ∧
        ∀ b ∈ bs, Disjoint (payloadArea s.mem p) (Set.Ico b.addr (b.addr + blockStructSize))) ∧
    s.live.Nodup ∧
    (∀ p ∈ s.live, ∀ q ∈ s.live, p ≠ q →
      Disjoint (payloadArea s.mem p) (payloadArea s.mem q)) ∧
    __mmListConsistencyCheck vmHeap s.mem = some [] ∧
    (∀ p ∈ s.live, ∃ m', free vmHeap p s.mem = some ⟨m', NULL, []⟩) ∧
    (∀ size, (mallocBlock vmHeap (roundsize size) s.mem).isSome) ∧
    (∀ size r, malloc vmHeap size s.mem = some r → r.ret ≠ NULL → r.bugs = []) ∧
    ∀ act s', HeapStep vmHeap s act s' → act ≠ .write →
      ∀ p ∈ s.live, ∀ x ∈ payloadArea s.mem p, s'.mem x = s.mem x := by
  obtain ⟨bs, hinv⟩ := exists_heapInv h
  have hheap := hinv.heap
  refine ⟨⟨bs, hheap.blocks, hheap.tiles, hheap.counters.count, ?_, hheap.counters.available,
      fun p => hinv.mem_live, fun p hp => hinv.payload hp⟩,
    hinv.nodup, fun p hp q hq hne => hinv.payloads_disjoint hp hq hne,
    hheap.mmListConsistencyCheck, ?_, ?_, ?_,
    fun act s' hs hact p hp => hinv.frame hs hact hp⟩
  · rw [hheap.counters.count, hheap.counters.total]
    exact hheap.sum_lengths
  · intro p hp
    obtain ⟨b, hb, hused, rfl⟩ := hinv.mem_live.mp hp
    obtain ⟨m', -, he, -⟩ := hheap.free hb hused
    exact ⟨m', he⟩
  · intro size
    obtain ⟨p, m', he, -⟩ := hheap.mallocBlock hinv.nonempty (roundsize_aligned size)
    rw [he]
    rfl
  · intro size r hr hret
    exact (hheap.malloc hinv.nonempty hr hret).1

/-- `vm_heap` at the start of the kernel image. -/
def vmHeapAtImageBase : VmHeap := ⟨kernelImageBase, kernelImageBase_aligned, le_rfl, by decide⟩

/-- The first allocation, of 16 bytes, is cut off the end of the heap. -/
theorem heapMachine_safe_first_malloc :
    ∃ r, malloc vmHeapAtImageBase 16 (mallocInit vmHeapAtImageBase fun _ => 0) = some r ∧
      r.ret = heapEnd - 16 ∧ __mmListConsistencyCheck vmHeapAtImageBase r.mem = some [] := by
  obtain ⟨r, hr, hret⟩ : ∃ r, malloc vmHeapAtImageBase 16
      (mallocInit vmHeapAtImageBase fun _ => 0) = some r ∧ r.ret = heapEnd - 16 :=
    Option.map_eq_some_iff.mp (by decide +kernel)
  have hstep : HeapStep vmHeapAtImageBase ⟨mallocInit vmHeapAtImageBase fun _ => 0, []⟩
      (.malloc 16) ⟨r.mem, [r.ret]⟩ := .malloc hr (by rw [hret]; decide)
  have hreach : (heapMachine vmHeapAtImageBase).Reachable ⟨r.mem, [r.ret]⟩ :=
    .step (.start ⟨_, rfl⟩) hstep
  exact ⟨r, hr, hret, (heapMachine_safe hreach).2.2.2.1⟩

end Raincloud
