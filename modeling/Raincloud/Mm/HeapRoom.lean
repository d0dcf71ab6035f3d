import Raincloud.Mm.HeapFail

/-!
# When `malloc` has room

The free blocks of the heap lie in runs: neighbours that are free, with a used block or the end
of the heap on both sides. `__merge_block` makes one block of each run, headers included, so
`malloc` fails exactly when no run has room for the request.
-/

set_option linter.style.nameCheck false

namespace Raincloud

open Infra Infra.LinkStore

variable {vmHeap : VmHeap} {m m' : Mem} {bs run xs : List Block} {b d x : Block}
  {size n p : Nat} {s : HeapState} {r : HeapCall}

/-! ## Runs of free blocks -/

/-- Consecutive unused blocks, as many as there are in a row. -/
def FreeRun (bs run : List Block) : Prop :=
  ∃ pre post, bs = pre ++ run ++ post ∧ run ≠ [] ∧ (∀ b ∈ run, b.used = false) ∧
    (∀ b ∈ pre.getLast?, b.used = true) ∧ ∀ b ∈ post.head?, b.used = true

theorem FreeRun.ne_nil (h : FreeRun bs run) : run ≠ [] := by
  obtain ⟨-, -, -, hne, -⟩ := h
  exact hne

/-- The payload of a run when it is one block: the headers but the first are payload then. -/
def runLength (run : List Block) : Nat := (run.map Block.length).sum + 32 * (run.length - 1)

theorem foldl_join (x : Block) (xs : List Block) :
    (xs.foldl Block.join x).length = runLength (x :: xs) ∧
      (xs.foldl Block.join x).used = x.used := by
  induction xs generalizing x with
  | nil => simp [runLength]
  | cons y xs ih =>
    obtain ⟨h1, h2⟩ := ih (x.join y)
    rw [List.foldl_cons, h1, h2]
    refine ⟨?_, rfl⟩
    simp only [runLength, List.map_cons, List.sum_cons, List.length_cons, Block.join,
      Nat.add_sub_cancel]
    omega

/-- A chain of free neighbours is free as soon as its first block is. -/
theorem forall_free_of_isChain (hc : (x :: xs).IsChain Block.BothFree) (hx : x.used = false) :
    ∀ b ∈ x :: xs, b.used = false := by
  induction xs generalizing x with
  | nil => simpa using hx
  | cons y xs ih =>
    rw [List.isChain_cons_cons] at hc
    intro b hb
    rcases List.mem_cons.mp hb with rfl | hb
    · exact hx
    · exact ih hc.2 hc.1.2 b hb

theorem isChain_of_forall_free (h : ∀ b ∈ run, b.used = false) : run.IsChain Block.BothFree :=
  (List.pairwise_of_forall_mem_list fun b hb c hc =>
    (⟨h b hb, h c hc⟩ : b.BothFree c)).isChain

/-- The runs of free blocks are the maximal runs that start with a free block. -/
theorem freeRun_iff : FreeRun bs (x :: xs) ↔
    MaximalRun Block.BothFree bs (x :: xs) ∧ x.used = false := by
  constructor
  · rintro ⟨pre, post, he, hne, hfree, h1, h2⟩
    refine ⟨⟨pre, post, he, hne, isChain_of_forall_free hfree, fun b hb c _ hbc => ?_,
      fun b _ c hc hbc => ?_⟩, hfree x (by simp)⟩
    · exact absurd ((h1 b hb).symm.trans hbc.1) (by decide)
    · exact absurd ((h2 c hc).symm.trans hbc.2) (by decide)
  · rintro ⟨⟨pre, post, he, hne, hc, h1, h2⟩, hx⟩
    have hfree := forall_free_of_isChain hc hx
    refine ⟨pre, post, he, hne, hfree, fun b hb => ?_, fun c hcm => ?_⟩
    · by_contra hb'
      exact h1 b hb x rfl ⟨Bool.eq_false_iff.mpr hb', hx⟩
    · by_contra hc'
      have hlast := List.getLast?_eq_some_getLast hne
      exact h2 _ hlast c hcm ⟨hfree _ (List.getLast_mem hne), Bool.eq_false_iff.mpr hc'⟩

/-! ## Merging makes a block of each run -/

theorem mem_mergeBlocks_iff : d ∈ mergeBlocks bs ↔
    ∃ x xs, MaximalRun Block.BothFree bs (x :: xs) ∧ xs.foldl Block.join x = d := by
  have hback : ∀ b c d : Block, b.BothFree c → ((b.join c).BothFree d ↔ c.BothFree d) :=
    fun b c d h => by simp only [Block.BothFree, Block.join, h.1, h.2]
  exact mem_mergeRuns_iff hback

/-- There is a run with room for `n` bytes exactly when the merged heap has such a block. -/
theorem exists_freeRun_iff : (∃ run, FreeRun bs run ∧ n ≤ runLength run) ↔
    ∃ d ∈ mergeBlocks bs, d.used = false ∧ n ≤ d.length := by
  constructor
  · rintro ⟨run, hrun, hle⟩
    obtain ⟨x, xs, rfl⟩ := List.exists_cons_of_ne_nil hrun.ne_nil
    obtain ⟨hmax, hx⟩ := freeRun_iff.mp hrun
    obtain ⟨h1, h2⟩ := foldl_join x xs
    exact ⟨_, mem_mergeBlocks_iff.mpr ⟨x, xs, hmax, rfl⟩, h2.trans hx, h1 ▸ hle⟩
  · rintro ⟨d, hd, hfree, hle⟩
    obtain ⟨x, xs, hmax, rfl⟩ := mem_mergeBlocks_iff.mp hd
    obtain ⟨h1, h2⟩ := foldl_join x xs
    exact ⟨x :: xs, freeRun_iff.mpr ⟨hmax, h2.symm.trans hfree⟩, h1 ▸ hle⟩

theorem length_le_runLength (hb : b ∈ run) : b.length ≤ runLength run := by
  have := List.le_sum_of_mem (List.mem_map_of_mem (f := Block.length) hb)
  simp only [runLength]
  omega

/-- A free block is part of a run. -/
theorem exists_freeRun_of_mem (hb : b ∈ bs) (hfree : b.used = false) :
    ∃ run, FreeRun bs run ∧ b.length ≤ runLength run := by
  rw [← List.flatten_splitBy (fun b c => decide (Block.BothFree b c)) bs] at hb
  obtain ⟨run, hrun, hbr⟩ := List.mem_flatten.mp hb
  have hmax := mem_splitBy_iff.mp hrun
  obtain ⟨x, xs, rfl⟩ := List.exists_cons_of_ne_nil (List.ne_nil_of_mem hbr)
  refine ⟨x :: xs, freeRun_iff.mpr ⟨hmax, ?_⟩, length_le_runLength hbr⟩
  obtain ⟨-, -, -, -, hc, -⟩ := hmax
  cases xs with
  | nil => exact List.mem_singleton.mp hbr ▸ hfree
  | cons y xs => exact (List.isChain_cons_cons.mp hc).1.1

/-! ## The two attempts of `malloc` -/

/-- The two attempts fail exactly when no run of free blocks has room. -/
theorem HeapAt.mallocBlock_null_iff (h : HeapAt vmHeap m bs) (hne : bs ≠ [])
    (hal : size % 16 = 0) : ∃ p m', Raincloud.mallocBlock vmHeap size m = some (p, m') ∧
      (p = NULL ↔ ¬∃ run, FreeRun bs run ∧ size ≤ runLength run) ∧
      (p = NULL → HeapAt vmHeap m' (mergeBlocks bs)) := by
  obtain ⟨p, m', he, hres⟩ := h.mallocBlock hne hal
  refine ⟨p, m', he, ?_⟩
  obtain ⟨hp, h', hunfit, -⟩ | ⟨bs₀, bs', -, hcarve, hbs₀, -⟩ := hres
  · refine ⟨iff_of_true hp ?_, fun _ => h'⟩
    rw [exists_freeRun_iff]
    rintro ⟨d, hd, hfree, hle⟩
    rcases hunfit d hd with hu | hl
    · exact absurd (hu.symm.trans hfree) (by decide)
    · omega
  · obtain ⟨b, hb, hfree, hfit⟩ := hcarve.exists_fit
    refine ⟨iff_of_false hcarve.ne_null fun hno => hno ?_, fun hp => absurd hp hcarve.ne_null⟩
    rcases hbs₀ with rfl | rfl
    · obtain ⟨run, hrun, hle⟩ := exists_freeRun_of_mem hb hfree
      exact ⟨run, hrun, hfit.trans hle⟩
    · exact exists_freeRun_iff.mpr ⟨b, hb, hfree, hfit⟩

/-- After the merge another merge has nothing to do. -/
theorem mergeBlocks_mergeBlocks (bs : List Block) :
    mergeBlocks (mergeBlocks bs) = mergeBlocks bs := by
  have hfront : ∀ a b c : Block, b.BothFree c → (a.BothFree (b.join c) ↔ a.BothFree b) :=
    fun _ _ _ _ => Iff.rfl
  exact mergeRuns_of_isChain (isChain_mergeRuns hfront bs)

theorem and_not_fifteen (hlt : size < 2 ^ 64) :
    size &&& 0xfffffffffffffff0 = size / 16 * 16 := by
  have hmod : (size &&& 0xfffffffffffffff0) % 16 = 0 := by
    have := and_mask (size &&& 0xfffffffffffffff0) 4
    rw [Nat.and_assoc] at this
    simpa using this.symm
  have hdiv : (size &&& 0xfffffffffffffff0) / 2 ^ 4 = size / 2 ^ 4 := by
    rw [Nat.and_div_two_pow, show 0xfffffffffffffff0 / 2 ^ 4 = 2 ^ 60 - 1 from rfl, and_mask]
    omega
  omega

/-- Up to 2^64 - 16 the size is rounded up to a multiple of 16. -/
theorem roundsize_eq (hle : size ≤ 2 ^ 64 - 16) : roundsize size = (size + 15) / 16 * 16 := by
  have hmod : size &&& 0xf = size % 16 := and_mask size 4
  unfold roundsize
  rw [hmod, and_not_fifteen (by omega)]
  split
  · rw [add64_eq (by omega)]
    omega
  · omega

/--
The two attempts of `malloc(size)` fail exactly when no run of consecutive unused blocks, with
the headers in between, has room for the rounded size; one more merge would not help.
-/
theorem malloc_complete (h : (heapCallMachine vmHeap).Reachable s)
    (hle : size ≤ 2 ^ 64 - 16) : ∃ bs p m', HeapInv vmHeap s bs ∧
      mallocBlock vmHeap (roundsize size) s.mem = some (p, m') ∧
      (p = NULL ↔ ¬∃ run, FreeRun bs run ∧ (size + 15) / 16 * 16 ≤ runLength run) ∧
      (p = NULL → ∃ m'', __mergeBlock vmHeap m' = some m'' ∧
        __malloc vmHeap (roundsize size) m'' = some (NULL, m'')) := by
  obtain ⟨bs, hinv⟩ := exists_heapInv_calls h
  have hal := roundsize_aligned size
  obtain ⟨p, m', he, hiff, hmerged⟩ := hinv.heap.mallocBlock_null_iff hinv.nonempty hal
  refine ⟨bs, p, m', hinv, he, roundsize_eq hle ▸ hiff, fun hp => ?_⟩
  obtain ⟨m'', hmerge, h'', -⟩ := (hmerged hp).__mergeBlock
  rw [mergeBlocks_mergeBlocks] at h''
  refine ⟨m'', hmerge, ?_⟩
  rcases h''.__malloc (mergeBlocks_ne_nil hinv.nonempty) hal with
    ⟨hfail, -⟩ | ⟨bs', q, m₃, -, hcarve, -⟩
  · exact hfail
  · obtain ⟨d, hd, hfree, hfit⟩ := hcarve.exists_fit
    exact absurd (exists_freeRun_iff.mpr ⟨d, hd, hfree, hfit⟩) (hiff.mp hp)

/-- The heap of `malloc_init` is one run with room for a page. -/
theorem malloc_complete_page : ∃ bs p m',
    HeapInv vmHeapAtImageBase ⟨mallocInit vmHeapAtImageBase fun _ => 0, []⟩ bs ∧
      mallocBlock vmHeapAtImageBase (roundsize 4096) (mallocInit vmHeapAtImageBase fun _ => 0)
        = some (p, m') ∧
      (p = NULL ↔ ¬∃ run, FreeRun bs run ∧ 4096 ≤ runLength run) := by
  have hreach : (heapCallMachine vmHeapAtImageBase).Reachable
      ⟨mallocInit vmHeapAtImageBase fun _ => 0, []⟩ := .start ⟨_, rfl⟩
  obtain ⟨bs, p, m', hinv, he, hiff, -⟩ :=
    malloc_complete hreach (show 4096 ≤ 2 ^ 64 - 16 by decide)
  exact ⟨bs, p, m', hinv, he, hiff⟩

/-! ## What `malloc` hands out -/

/-- The block of a call has `size` bytes in the heap, all of them zero. -/
structure Serves (r : HeapCall) (size : Nat) : Prop where
  length : size ≤ blockLength r.mem (r.ret - blockStructSize)
  inside : kernelHeapBase ≤ r.ret ∧
    r.ret + blockLength r.mem (r.ret - blockStructSize) ≤ heapEnd
  zero : ∀ i < size, r.mem (r.ret + i) = 0

theorem Serves.mono (h : Serves r n) (hle : size ≤ n) : Serves r size :=
  ⟨hle.trans h.length, h.inside, fun i hi => h.zero i (by omega)⟩

end Raincloud
