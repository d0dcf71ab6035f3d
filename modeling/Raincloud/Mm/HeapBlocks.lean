import Raincloud.Infra.Tiling
import Raincloud.Mm.Headers
import Raincloud.Mm.Malloc

/-!
# The blocks of the heap

What memory looks like when the heap consists of the blocks `bs`: their headers hang on
`vm_heap` in this order and hold their lengths and flags (`BlocksAt`). Each statement of
`malloc.c` that writes a header is one lemma here: the block list it leads to and the bytes
it may have changed.
-/

namespace Raincloud

open Infra Infra.LinkStore

/-- A block: the address of its header, its payload length, and whether it is allocated. -/
structure Block where
  addr : Nat
  length : Nat
  used : Bool
  deriving DecidableEq

namespace Block

/-- Header and payload. -/
def size (b : Block) : Nat := blockStructSize + b.length

/-- What `malloc` returned for the block. -/
def payload (b : Block) : Nat := b.addr + blockStructSize

end Block

variable (vmHeap : VmHeap)

/-- The bytes of the counters in `vm_heap`. -/
def counterArea : Set Nat := {x | vmHeap.addr + 16 ≤ x ∧ x < vmHeap.addr + 40}

variable {vmHeap} {as : List Nat} {m m' : Mem} {bs pre post : List Block} {b c : Block}

/-! ## Frames of the statements -/

theorem sameOutside_setBlockLength {a v : Nat} (ha : a ∈ as) :
    Mem.SameOutside (headerArea vmHeap as) m (setBlockLength m a v) :=
  sameOutside_store ha (by omega)

theorem sameOutside_setBlockUsed {a v : Nat} (ha : a ∈ as) :
    Mem.SameOutside (headerArea vmHeap as) m (setBlockUsed m a v) :=
  sameOutside_store ha le_rfl

theorem sameOutside_clear {a : Nat} (ha : a ∈ as) :
    Mem.SameOutside (headerArea vmHeap as) m (memset m a 0 blockStructSize) :=
  (Mem.fill_sameOutside m a 0 blockStructSize).mono fun _ hx => Or.inr ⟨a, ha, hx.1, hx.2⟩

theorem sameOutside_setAvailable (m : Mem) (v : Nat) :
    Mem.SameOutside (counterArea vmHeap) m (vmHeap.setAvailable m v) :=
  (Mem.SameOutside.refl _ m).store64 fun x hx =>
    ⟨by have := hx.1; omega, by have := hx.2; omega⟩

theorem sameOutside_setBlockCount (m : Mem) (v : Nat) :
    Mem.SameOutside (counterArea vmHeap) m (vmHeap.setBlockCount m v) :=
  (Mem.SameOutside.refl _ m).store64 fun x hx =>
    ⟨by have := hx.1; omega, by have := hx.2; omega⟩

/-! ## The block list in memory -/

variable (vmHeap)

/-- The blocks `bs` hang on `vm_heap` in this order, with these lengths and flags. -/
structure BlocksAt (m : Mem) (bs : List Block) : Prop where
  ring : Ring m vmHeap.addr (bs.map Block.addr)
  length : ∀ b ∈ bs, blockLength m b.addr = b.length
  used : ∀ b ∈ bs, blockUsed m b.addr = b.used.toNat

variable {vmHeap}

/-- Writes away from the headers keep the block list. -/
theorem BlocksAt.congr {area : Set Nat} (h : BlocksAt vmHeap m bs)
    (hs : Mem.SameOutside area m m')
    (harea : ∀ x ∈ headerArea vmHeap (bs.map Block.addr), x ∉ area) :
    BlocksAt vmHeap m' bs := by
  have hword : ∀ b ∈ bs, ∀ i, i ≤ 24 → m'.load64 (b.addr + i) = m.load64 (b.addr + i) := by
    intro b hb i hi
    refine hs.load64_eq fun x h1 h2 => harea x (Or.inr ⟨b.addr, ?_, by omega, by omega⟩)
    exact List.mem_map_of_mem hb
  refine ⟨ring_sameOutside h.ring hs harea, fun b hb => ?_, fun b hb => ?_⟩
  · rw [← h.length b hb]
    exact hword b hb 16 (by omega)
  · rw [← h.used b hb]
    exact hword b hb 24 (by omega)

theorem headerArea_disjoint_counterArea (hp : Placed vmHeap as) :
    ∀ x ∈ headerArea vmHeap as, x ∉ counterArea vmHeap := by
  rintro x (hx | ⟨a, ha, hx⟩) hc
  · have := hc.1
    omega
  · have := hp.below a ha
    have := hc.1
    omega

theorem BlocksAt.nodup (h : BlocksAt vmHeap m (pre ++ b :: post)) :
    ∀ c ∈ pre ++ post, c.addr ≠ b.addr := by
  have hnd := (List.nodup_cons.mp h.ring.nodup).2
  rw [List.map_append, List.map_cons] at hnd
  have hb : b.addr ∉ pre.map Block.addr ++ post.map Block.addr :=
    (List.nodup_middle.mp hnd).notMem
  intro c hc he
  rw [← List.map_append] at hb
  exact hb (he ▸ List.mem_map_of_mem hc)

/-- A write to the `length` or `used` word of one block replaces that block. -/
theorem BlocksAt.store {b' : Block} {i v : Nat} (h : BlocksAt vmHeap m (pre ++ b :: post))
    (hp : Placed vmHeap ((pre ++ b :: post).map Block.addr)) (h1 : 16 ≤ i) (h2 : i ≤ 24)
    (haddr : b'.addr = b.addr)
    (hlen : blockLength (m.store64 (b.addr + i) v) b.addr = b'.length)
    (hused : blockUsed (m.store64 (b.addr + i) v) b.addr = b'.used.toNat) :
    BlocksAt vmHeap (m.store64 (b.addr + i) v) (pre ++ b' :: post) := by
  have hb : b.addr ∈ (pre ++ b :: post).map Block.addr := List.mem_map_of_mem (by simp)
  have hmap : (pre ++ b' :: post).map Block.addr = (pre ++ b :: post).map Block.addr := by
    simp [haddr]
  have hother : ∀ c ∈ pre ++ post, ∀ j, j ≤ 24 →
      (m.store64 (b.addr + i) v).load64 (c.addr + j) = m.load64 (c.addr + j) := by
    intro c hc j hj
    have hca : c.addr ∈ (pre ++ b :: post).map Block.addr :=
      List.mem_map_of_mem (mem_middle.mpr (Or.inr hc))
    exact Mem.load64_store64_of_disjoint
      (header_ne hp hca hb hj h2 fun he => absurd he (h.nodup c hc))
  refine ⟨?_, fun c hc => ?_, fun c hc => ?_⟩
  · rw [hmap]
    exact ring_store h.ring hp hb h1 h2
  · rcases mem_middle.mp hc with rfl | hc
    · rw [haddr]
      exact hlen
    · rw [← h.length c (mem_middle.mpr (Or.inr hc))]
      exact hother c hc 16 (by omega)
  · rcases mem_middle.mp hc with rfl | hc
    · rw [haddr]
      exact hused
    · rw [← h.used c (mem_middle.mpr (Or.inr hc))]
      exact hother c hc 24 (by omega)

theorem BlocksAt.setUsed (h : BlocksAt vmHeap m (pre ++ b :: post))
    (hp : Placed vmHeap ((pre ++ b :: post).map Block.addr)) (v : Bool) :
    BlocksAt vmHeap (setBlockUsed m b.addr v.toNat) (pre ++ { b with used := v } :: post) := by
  have hv : v.toNat < 2 ^ 64 := by cases v <;> decide
  refine h.store hp (by omega) (by omega) rfl ?_ (Mem.load64_store64 hv)
  rw [← h.length b (by simp)]
  exact Mem.load64_store64_of_disjoint (by omega)

theorem BlocksAt.setLength (h : BlocksAt vmHeap m (pre ++ b :: post))
    (hp : Placed vmHeap ((pre ++ b :: post).map Block.addr)) {v : Nat} (hv : v < 2 ^ 64) :
    BlocksAt vmHeap (setBlockLength m b.addr v) (pre ++ { b with length := v } :: post) := by
  refine h.store hp (by omega) (by omega) rfl (Mem.load64_store64 hv) ?_
  rw [← h.used b (by simp)]
  exact Mem.load64_store64_of_disjoint (by omega)

/-- A header written at a fresh place. -/
theorem newBlock_fields {a len : Nat} (hlen : len < 2 ^ 64) (m : Mem) :
    blockLength (setBlockUsed (setBlockLength m a len) a 1) a = len ∧
      blockUsed (setBlockUsed (setBlockLength m a len) a 1) a = 1 := by
  refine ⟨?_, Mem.load64_store64 (by decide)⟩
  unfold blockLength setBlockUsed
  rw [Mem.load64_store64_of_disjoint (by omega)]
  exact Mem.load64_store64 hlen

/-- The neighbours of a block are list heads of the heap. -/
theorem BlocksAt.neighbours (h : BlocksAt vmHeap m (pre ++ b :: post)) :
    prev m b.addr ∈ listNodes vmHeap ((pre ++ post).map Block.addr) ∧
      next m b.addr ∈ listNodes vmHeap ((pre ++ post).map Block.addr) := by
  have hr := h.ring
  rw [List.map_append, List.map_cons] at hr
  rw [List.map_append]
  exact ring_neighbours hr

theorem BlocksAt.listAddAfter (h : BlocksAt vmHeap m (pre ++ b :: post))
    (hp : Placed vmHeap (c.addr :: (pre ++ b :: post).map Block.addr))
    (hnew : c.addr ∉ (pre ++ b :: post).map Block.addr)
    (hlen : blockLength m c.addr = c.length) (hused : blockUsed m c.addr = c.used.toNat) :
    BlocksAt vmHeap (listAddAfter m b.addr c.addr) (pre ++ b :: c :: post) := by
  have hr := h.ring
  simp only [List.map_append, List.map_cons] at hr hp hnew
  have hc : c.addr ≠ vmHeap.addr := by
    have := hp.below c.addr (by simp)
    omega
  have hsub : ∀ y ∈ vmHeap.addr :: (pre.map Block.addr ++ b.addr :: post.map Block.addr),
      y ∈ listNodes vmHeap
        (c.addr :: (pre.map Block.addr ++ b.addr :: post.map Block.addr)) := by
    intro y hy
    rcases List.mem_cons.mp hy with rfl | hy
    · exact Or.inl rfl
    · exact Or.inr (List.mem_cons_of_mem _ hy)
  have hnext : next m b.addr ∈ listNodes vmHeap
      (c.addr :: (pre.map Block.addr ++ b.addr :: post.map Block.addr)) := by
    refine listNodes_mono (fun a ha => ?_) h.neighbours.2
    rw [List.map_append] at ha
    exact List.mem_cons_of_mem _ (mem_middle.mpr (Or.inr ha))
  have hfield : ∀ d : Block,
      d.addr ∈ c.addr :: (pre.map Block.addr ++ b.addr :: post.map Block.addr) → ∀ i, 16 ≤ i →
      i ≤ 24 → (Raincloud.listAddAfter m b.addr c.addr).load64 (d.addr + i)
        = m.load64 (d.addr + i) := by
    intro d hd i h1 h2
    exact load64_listAdd hp (hsub _ (by simp)) hnext (Or.inr (by simp)) hd h1 h2
  have hmem : ∀ d ∈ pre ++ b :: c :: post, d = c ∨ d ∈ pre ++ b :: post := by
    intro d hd
    rw [List.append_cons, mem_middle, ← List.append_cons] at hd
    exact hd
  have hin : ∀ d ∈ pre ++ b :: c :: post,
      d.addr ∈ c.addr :: (pre.map Block.addr ++ b.addr :: post.map Block.addr) := by
    intro d hd
    rcases hmem d hd with rfl | hd
    · simp
    · have := List.mem_map_of_mem (f := Block.addr) hd
      simp only [List.map_append, List.map_cons] at this
      exact List.mem_cons_of_mem _ this
  refine ⟨?_, fun d hd => ?_, fun d hd => ?_⟩
  · have := ring_listAddAfter hp.lawfulOn hr hsub (x := c.addr) (Or.inr (by simp))
      (by simpa [hc] using hnew)
    simpa using this
  · rw [show blockLength _ d.addr = blockLength m d.addr from hfield d (hin d hd) 16 le_rfl
      (by omega)]
    rcases hmem d hd with rfl | hd
    · exact hlen
    · exact h.length d hd
  · rw [show blockUsed _ d.addr = blockUsed m d.addr from hfield d (hin d hd) 24 (by omega) le_rfl]
    rcases hmem d hd with rfl | hd
    · exact hused
    · exact h.used d hd

/-- A block unlinked and its header cleared. -/
theorem BlocksAt.remove (h : BlocksAt vmHeap m (pre ++ c :: post))
    (hp : Placed vmHeap ((pre ++ c :: post).map Block.addr)) :
    BlocksAt vmHeap (memset (listDel m c.addr) c.addr 0 blockStructSize) (pre ++ post) := by
  have hr := h.ring
  have hsub : ∀ a ∈ (pre ++ post).map Block.addr, a ∈ (pre ++ c :: post).map Block.addr := by
    intro a ha
    obtain ⟨d, hd, rfl⟩ := List.mem_map.mp ha
    exact List.mem_map_of_mem (mem_middle.mpr (Or.inr hd))
  have hpm := listNodes_mono hsub h.neighbours.1
  have hnm := listNodes_mono hsub h.neighbours.2
  have hdel : BlocksAt vmHeap (listDel m c.addr) (pre ++ post) := by
    refine ⟨?_, fun d hd => ?_, fun d hd => ?_⟩
    · rw [List.map_append, List.map_cons] at hr
      rw [List.map_append]
      refine ring_listDel hp.lawfulOn hr fun y hy => ?_
      simpa [listNodes] using hy
    · rw [← h.length d (mem_middle.mpr (Or.inr hd))]
      exact load64_listDel hp hpm hnm (hsub _ (List.mem_map_of_mem hd)) le_rfl (by omega)
    · rw [← h.used d (mem_middle.mpr (Or.inr hd))]
      exact load64_listDel hp hpm hnm (hsub _ (List.mem_map_of_mem hd)) (by omega) le_rfl
  refine hdel.congr (Mem.fill_sameOutside _ c.addr 0 blockStructSize) ?_
  have hc : c.addr ∈ (pre ++ c :: post).map Block.addr := List.mem_map_of_mem (by simp)
  rintro x (hx | ⟨a, ha, hx⟩) hin
  · have := hp.below _ hc
    have h2 : x < c.addr + 32 := hin.2
    omega
  · obtain ⟨d, hd, rfl⟩ := List.mem_map.mp ha
    have := hp.apart _ (hsub _ ha) _ hc (h.nodup d hd)
    have h1 : c.addr ≤ x := hin.1
    have h2 : x < c.addr + 32 := hin.2
    omega

end Raincloud
