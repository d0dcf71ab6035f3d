import Raincloud.Mm.HeapRun

/-!
# `malloc` without a block

A `malloc` that finds no block still merges the free blocks and fills `size` bytes from `NULL`
on with zeros. Below the heap window the fill is a write to memory the heap has nothing to do
with; once it reaches the window the list is gone and the consistency check goes round for ever.
-/

set_option linter.style.nameCheck false

namespace Raincloud

open Infra Infra.LinkStore

variable {vmHeap : VmHeap} {m m' : Mem} {bs bs' : List Block} {size fuel it sum : Nat}

/-! ## The zeroing at `NULL` -/

/-- Words of a zeroed range. -/
theorem load64_fill_zero {a b n : Nat} (hlo : a ≤ b) (hhi : b + 8 ≤ a + n) :
    (m.fill a 0 n).load64 b = 0 := by
  unfold Mem.load64
  refine (Mem.load_eq_of_digits (v := 0) fun i hi => ?_).trans (Nat.zero_mod _)
  rw [Mem.fill_apply, if_pos (by omega)]
  simp

/-- From `NULL` a list of zeros leads to `NULL` again. -/
theorem mmListCheckFrom_null (h : next m NULL = NULL) (fuel sum : Nat) :
    __mmListCheckFrom vmHeap m fuel NULL sum = none := by
  induction fuel generalizing sum with
  | zero => rfl
  | succ fuel ih =>
    have hne : NULL ≠ vmHeap.addr := by
      have := vmHeap.image
      simp only [NULL, kernelImageBase] at *
      omega
    rw [__mmListCheckFrom, if_neg hne, h, ih, Option.map_none]

/-- A fill that reaches the first header of the heap leaves a list without an end. -/
theorem HeapAt.check_fill (h : HeapAt vmHeap m bs) (hne : bs ≠ []) (hal : size % 16 = 0)
    (hlarge : kernelHeapBase < size) :
    __mmListConsistencyCheck vmHeap (memset m NULL 0 size) = none := by
  obtain ⟨b, bs, rfl⟩ := List.exists_cons_of_ne_nil hne
  have hbase : kernelHeapBase % 16 = 0 := by decide
  have hzero : ∀ a, a + 8 ≤ size → next (memset m NULL 0 size) a = NULL := fun a ha =>
    load64_fill_zero (Nat.zero_le a) (by simpa [NULL] using ha)
  have hnull : next (memset m NULL 0 size) NULL = NULL := hzero NULL (by simp only [NULL]; omega)
  have hloop : ∀ fuel sum, __mmListCheckFrom vmHeap (memset m NULL 0 size) fuel
      (next (memset m NULL 0 size) vmHeap.addr) sum = none := by
    intro fuel sum
    by_cases hin : vmHeap.addr < size
    · rw [hzero vmHeap.addr (by have := vmHeap.aligned; omega)]
      exact mmListCheckFrom_null hnull fuel sum
    · -- the list head is still there, and points to the header that is gone
      have hhead : next (memset m NULL 0 size) vmHeap.addr = kernelHeapBase := by
        rw [Mem.next_def, memset, (Mem.fill_sameOutside m NULL 0 size).load64_eq]
        · exact h.blocks.ring.next_head.trans h.tiles.1
        · rintro x hx - ⟨-, hx'⟩
          simp only [NULL] at hx'
          omega
      rw [hhead]
      cases fuel with
      | zero => rfl
      | succ fuel =>
        have hne : kernelHeapBase ≠ vmHeap.addr := h.tiles.1 ▸ h.addr_ne (by simp)
        rw [__mmListCheckFrom, if_neg hne, hzero kernelHeapBase (by omega),
          mmListCheckFrom_null hnull, Option.map_none]
  rw [__mmListConsistencyCheck, hloop, Option.map_none]

/-- Below the heap window there is nothing of the books. -/
theorem HeapAt.fill_below (h : HeapAt vmHeap m bs) (hle : size ≤ kernelHeapBase) :
    HeapAt vmHeap (memset m NULL 0 size) bs := by
  refine h.congr ((Mem.fill_sameOutside m NULL 0 size).mono ?_)
  rintro x ⟨-, hx⟩ (hin | ⟨b, hb, hin⟩)
  · have := vmHeap.image
    simp only [NULL, kernelHeapBase, kernelImageBase] at *
    omega
  · have := (h.bounds hb).1
    simp only [NULL] at hx
    omega

/-! ## A `malloc` that gives `NULL` -/

@[simp] theorem roundsize_zero : roundsize 0 = 0 := rfl

/-- Below the heap window the zeroing lets the call return. -/
theorem HeapAt.malloc_failed (h : HeapAt vmHeap m' bs) (hpos : size ≠ 0)
    (he : Raincloud.mallocBlock vmHeap (roundsize size) m = some (NULL, m'))
    (hle : roundsize size ≤ kernelHeapBase) :
    Raincloud.malloc vmHeap size m
      = some ⟨memset m' NULL 0 (roundsize size), NULL, []⟩ := by
  unfold Raincloud.malloc
  simp only [if_neg hpos, he, Option.bind_some, (h.fill_below hle).mmListConsistencyCheck,
    Option.map_some]

theorem HeapAt.malloc_null (h : HeapAt vmHeap m bs) (hne : bs ≠ []) {r : HeapCall}
    (hr : Raincloud.malloc vmHeap size m = some r) (hret : r.ret = NULL) :
    r.bugs = [] ∧ roundsize size ≤ kernelHeapBase ∧ ∃ m₁ bs', HeapAt vmHeap r.mem bs' ∧
      bs' ≠ [] ∧ usedBlocks bs' = usedBlocks bs ∧ Mem.SameOutside (heapArea vmHeap bs) m m₁ ∧
      r.mem = memset m₁ NULL 0 (roundsize size) := by
  by_cases hsize : size = 0
  · subst hsize
    obtain rfl : _ = r := Option.some.inj hr
    exact ⟨rfl, Nat.zero_le _, m, bs, h, hne, rfl, Mem.SameOutside.refl _ m, rfl⟩
  obtain ⟨p, m₁, he, hres⟩ := h.mallocBlock hne (roundsize_aligned size)
  unfold Raincloud.malloc at hr
  simp only [if_neg hsize, he, Option.bind_some] at hr
  obtain ⟨bugs, hbugs, rfl⟩ := Option.map_eq_some_iff.mp hr
  obtain rfl : p = NULL := hret
  obtain ⟨-, h₁, -, hs⟩ | ⟨_, _, -, hcarve, -⟩ := hres
  · have hle : roundsize size ≤ kernelHeapBase := by
      by_contra hlarge
      rw [h₁.check_fill (mergeBlocks_ne_nil hne) (roundsize_aligned size) (by omega)] at hbugs
      exact absurd hbugs (by simp)
    have h₂ := h₁.fill_below hle
    rw [h₂.mmListConsistencyCheck] at hbugs
    exact ⟨(Option.some.inj hbugs).symm, hle, m₁, _, h₂, mergeBlocks_ne_nil hne,
      mergeBlocks_used bs, hs, rfl⟩
  · exact absurd rfl hcarve.ne_null

/-! ## Runs with calls that fail -/

/-- A step of the heap, or a `malloc` that gives `NULL` back. -/
inductive HeapCallStep (vmHeap : VmHeap) : HeapState → HeapAction → HeapState → Prop
  | served {s s' : HeapState} {act : HeapAction} (h : HeapStep vmHeap s act s') :
      HeapCallStep vmHeap s act s'
  | failed {s : HeapState} {size : Nat} {r : HeapCall}
      (hr : Raincloud.malloc vmHeap size s.mem = some r) (hret : r.ret = NULL) :
      HeapCallStep vmHeap s (.malloc size) ⟨r.mem, s.live⟩

/-- The heap from `malloc_init` on, under every call that returns. -/
def heapCallMachine (vmHeap : VmHeap) : Machine HeapState HeapAction where
  start s := ∃ m, s = ⟨mallocInit vmHeap m, []⟩
  step := HeapCallStep vmHeap

variable {s s' : HeapState} {act : HeapAction}

/-- A `malloc` that gives `NULL` keeps the blocks that are handed out. -/
theorem HeapInv.fail (h : HeapInv vmHeap s bs) {r : HeapCall}
    (hr : malloc vmHeap size s.mem = some r) (hret : r.ret = NULL) :
    ∃ bs', HeapInv vmHeap ⟨r.mem, s.live⟩ bs' := by
  obtain ⟨-, -, -, bs', h', hne, hused, -⟩ := h.heap.malloc_null h.nonempty hr hret
  exact ⟨bs', h', hne, hused ▸ h.live⟩

theorem exists_heapInv_calls (h : (heapCallMachine vmHeap).Reachable s) :
    ∃ bs, HeapInv vmHeap s bs := by
  refine h.invariant (fun s => ∃ bs, HeapInv vmHeap s bs) ?_ ?_
  · rintro _ ⟨m, rfl⟩
    exact ⟨initialBlocks, heapInv_mallocInit vmHeap m⟩
  · rintro s a s' ⟨bs, hinv⟩ hs
    cases hs with
    | served hs => exact hinv.step hs
    | failed hr hret => exact hinv.fail hr hret

/-! ## What a failed call touches -/

/--
The memory `m'` has what `s` had outside the books of the heap, and the same pointers are live,
with the same payloads.
-/
structure OnlyBooks (vmHeap : VmHeap) (s : HeapState) (bs : List Block) (m' : Mem) : Prop where
  outside : ∀ x, x ∉ heapArea vmHeap bs → m' x = s.mem x
  payload : ∀ p ∈ s.live, ∀ x ∈ payloadArea s.mem p, m' x = s.mem x
  live : ∃ bs', HeapInv vmHeap ⟨m', s.live⟩ bs'

/-- The zeroing of a failed call is seen where there was something else than zeros. -/
theorem HeapInv.onlyBooks_iff (h : HeapInv vmHeap s bs) {r : HeapCall}
    (hr : malloc vmHeap size s.mem = some r) (hret : r.ret = NULL) :
    OnlyBooks vmHeap s bs r.mem ↔ ∀ x < roundsize size, s.mem x = 0 := by
  obtain ⟨-, hle, m₁, -, -, -, -, hs, hmem⟩ := h.heap.malloc_null h.nonempty hr hret
  have hfill : ∀ x, r.mem x = if x < roundsize size then 0 else m₁ x := by
    intro x
    rw [hmem, memset, Mem.fill_apply]
    exact ite_congr (by simp [NULL]) (fun _ => rfl) fun _ => rfl
  -- the books are in the heap window and the kernel image, above what is zeroed
  have hbelow : ∀ x < roundsize size, x ∉ heapArea vmHeap bs := by
    rintro x hx (hin | ⟨b, hb, hin⟩)
    · have := vmHeap.image
      simp only [kernelHeapBase, kernelImageBase] at *
      omega
    · have := (h.heap.bounds hb).1
      omega
  constructor
  · intro hbooks x hx
    rw [← hbooks.outside x (hbelow x hx), hfill, if_pos hx]
  · intro hzero
    have hout : ∀ x, x ∉ heapArea vmHeap bs → r.mem x = s.mem x := by
      intro x hx
      rw [hfill]
      split
      · next hlt => exact (hzero x hlt).symm
      · exact hs x hx
    refine ⟨hout, fun p hp x hx => ?_, h.fail hr hret⟩
    obtain ⟨b, hb, -, rfl⟩ := h.mem_live.mp hp
    rw [h.heap.payloadArea_eq hb] at hx
    exact hout x (h.heap.payload_not_heapArea hb x hx)

/--
A `malloc` that returns `NULL` touches nothing but the books of the heap exactly when all bytes
below the rounded size are zero already: it zeroes that many bytes from address 0 on.
-/
theorem malloc_null_touches (h : (heapCallMachine vmHeap).Reachable s) {r : HeapCall}
    (hr : malloc vmHeap size s.mem = some r) (hret : r.ret = NULL) :
    ∃ bs, HeapInv vmHeap s bs ∧
      (OnlyBooks vmHeap s bs r.mem ↔ ∀ x < roundsize size, s.mem x = 0) := by
  obtain ⟨bs, hinv⟩ := exists_heapInv_calls h
  exact ⟨bs, hinv, hinv.onlyBooks_iff hr hret⟩

theorem initialBlocks_length : ∀ b ∈ initialBlocks, b.length < heapSize := by
  intro b hb
  obtain rfl := List.mem_singleton.mp hb
  decide

/-- Asked for more than its one free block has, `malloc` finds nothing. -/
theorem malloc_initial_null (m : Mem) (hpos : size ≠ 0) (hlarge : heapSize ≤ roundsize size)
    (hle : roundsize size ≤ kernelHeapBase) : ∃ r,
    malloc vmHeap size (mallocInit vmHeap m) = some r ∧ r.ret = NULL := by
  have h := heapAt_mallocInit vmHeap m
  have hmerge : mergeBlocks initialBlocks = initialBlocks := rfl
  obtain ⟨p, m₁, he, hres⟩ :=
    h.mallocBlock (by simp [initialBlocks]) (roundsize_aligned size)
  simp only [hmerge, or_self_iff] at hres
  obtain ⟨rfl, h₁, -, -⟩ | ⟨bs₀, bs', -, hcarve, rfl, -⟩ := hres
  · exact ⟨_, h₁.malloc_failed hpos he hle, rfl⟩
  · obtain ⟨b, hb, -, hfit⟩ := hcarve.exists_fit
    have := initialBlocks_length b hb
    omega

/-- 256 MB are more than the heap has. -/
theorem malloc_largest_null (m : Mem) : ∃ r,
    malloc vmHeapAtImageBase 0x10000000 (mallocInit vmHeapAtImageBase m) = some r ∧
      r.ret = NULL :=
  malloc_initial_null m (by decide) (by decide) (by decide)

theorem malloc_null_touches_zero : ∃ r,
    malloc vmHeapAtImageBase 0x10000000 (mallocInit vmHeapAtImageBase fun _ => 0) = some r ∧
      ∃ bs, HeapInv vmHeapAtImageBase ⟨mallocInit vmHeapAtImageBase fun _ => 0, []⟩ bs ∧
        (OnlyBooks vmHeapAtImageBase ⟨mallocInit vmHeapAtImageBase fun _ => 0, []⟩ bs r.mem ↔
          ∀ x < roundsize 0x10000000, mallocInit vmHeapAtImageBase (fun _ => 0) x = 0) := by
  obtain ⟨r, hr, hret⟩ := malloc_largest_null fun _ => 0
  exact ⟨r, hr, malloc_null_touches (s := ⟨_, []⟩) (.start ⟨_, rfl⟩) hr hret⟩

/-- The first `malloc` of 256 MB clears a byte at address 0. -/
theorem malloc_null_clears : ∃ s r, (heapCallMachine vmHeapAtImageBase).Reachable s ∧
    malloc vmHeapAtImageBase 0x10000000 s.mem = some r ∧ r.ret = NULL ∧
      s.mem 0 = 1 ∧ r.mem 0 = 0 ∧
      ∀ bs, HeapInv vmHeapAtImageBase s bs → ¬OnlyBooks vmHeapAtImageBase s bs r.mem := by
  obtain ⟨r, hr, hret⟩ := malloc_largest_null fun _ => 1
  have h := heapAt_mallocInit vmHeapAtImageBase fun _ => 1
  have hone : mallocInit vmHeapAtImageBase (fun _ => 1) 0 = 1 := by decide +kernel
  obtain ⟨-, -, m₁, -, -, -, -, -, hmem⟩ := h.malloc_null (by simp [initialBlocks]) hr hret
  have hzero : r.mem 0 = 0 := by
    rw [hmem, memset, Mem.fill_apply]
    exact if_pos ⟨le_rfl, by decide⟩
  refine ⟨⟨_, []⟩, r, .start ⟨_, rfl⟩, hr, hret, hone, hzero, fun bs hinv hbooks => ?_⟩
  have hmust := (hinv.onlyBooks_iff hr hret).mp hbooks 0 (by decide)
  exact absurd (hone.symm.trans hmust) (by decide)

end Raincloud
