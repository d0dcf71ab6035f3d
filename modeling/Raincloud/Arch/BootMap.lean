import Raincloud.Arch.BootRoom
import Raincloud.Arch.ChunkEffect
import Raincloud.Arch.PageInit

/-!
# `init_mm_map`

The first page tables: the image of the kernel, all physical memory in the direct map and once
more at its own addresses, and the stack. How much memory there is, is taken from the last
descriptor of the firmware's array.
-/

set_option linter.style.nameCheck false

namespace Raincloud.InitMmMap

open Infra

/-! ## The function -/

def kernelStackTop : Nat := 0xfffff10000000000

/-- `PAGING_MASK_P | PAGING_MASK_R_W | PAGING_MASK_PWT | PAGING_MASK_PCD`. -/
def defaultPteFlag : Nat := 0x1b

/-- `stack_pages` in `init.S`. -/
def stackPages : Nat := 0x10

/-- The other global variables of `init.S`. -/
structure BootGlobals where
  imageBase : Nat
  imageSize : Nat
  mmDescAddr : Nat
  mmDescSize : Nat
  mmDescTotal : Nat
  stackPageBase : Nat

/-- `__validate_mapping`: the machine does not halt. -/
def __validateMapping (m : Mem) (plm4e flag : Nat) : Nat → Nat → Nat → Bool
  | 0, _, _ => true
  | n + 1, virt, phy =>
    decide (__queryMapping m plm4e virt = some (phy, flag)) &&
      __validateMapping m plm4e flag n (add64 virt 0x1000) (add64 phy 0x1000)

/-- `__map_by_pages` and `__validate_mapping`. -/
def mapChunk (plm4e : Nat) (s : BootState) (r : ChunkRequest) : Option BootState :=
  let s := (__mapByPages plm4e r.flag r.pages r.virt r.phy s).2
  if __validateMapping s.mem plm4e r.flag r.pages r.virt r.phy then some s else none

namespace BootGlobals

variable (g : BootGlobals)

/-- What the last descriptor says. -/
def phyPages (m : Mem) : Nat :=
  let it := EfiMemoryDescriptor.read m (sub64 (add64 g.mmDescAddr g.mmDescTotal) g.mmDescSize)
  add64 (it.physicalStart >>> 12) it.numberOfPages

def kernelImagePages : Nat := add64 (g.imageSize >>> 12) 1

def mmDescPages : Nat := add64 (g.mmDescTotal >>> 12) 1

/-- The descriptors and the stack behind the image. -/
def relocated : BootGlobals :=
  let mmDescAddr := add64 g.imageBase (shl64 g.kernelImagePages 12)
  { g with mmDescAddr, stackPageBase := add64 mmDescAddr (shl64 g.mmDescPages 12) }

def pageTableBase : Nat := add64 g.relocated.stackPageBase (shl64 stackPages 12)

/-- The memory with the descriptors behind the image, and no page tables yet. -/
def start (m : Mem) : BootState :=
  let m := memset m g.relocated.mmDescAddr 0 (shl64 g.mmDescPages 12)
  let m := memcpy m g.relocated.mmDescAddr g.mmDescAddr g.mmDescTotal
  ⟨m, g.pageTableBase, 0, []⟩

/-! The four chunks. -/

def image : ChunkRequest := ⟨kernelImageBase, g.imageBase, g.kernelImagePages, defaultPteFlag⟩

def direct (m : Mem) : ChunkRequest := ⟨phyMapBase, 0, g.phyPages m, defaultPteFlag⟩

def flat (m : Mem) : ChunkRequest := ⟨0, 0, g.phyPages m, defaultPteFlag⟩

def stack : ChunkRequest :=
  ⟨sub64 kernelStackTop (shl64 stackPages 12), g.relocated.stackPageBase, stackPages,
    defaultPteFlag⟩

def chunks (m : Mem) : List ChunkRequest := [g.image, g.direct m, g.flat m, g.stack]

end BootGlobals

def initMmMap (g : BootGlobals) (m : Mem) : Option (BootGlobals × BootState) := do
  let (plm4e, s) := newPlm4e (g.start m)
  let s ← mapChunk plm4e s g.image
  let s ← mapChunk plm4e s (g.direct m)
  let s ← mapChunk plm4e s (g.flat m)
  let s ← mapChunk plm4e s g.stack
  return (g.relocated, s)

/-! ## What it is for -/

/-- Every page of a chunk is translated as requested, in the tables at `root`. -/
def Translates (m : Mem) (root : Nat) (r : ChunkRequest) : Prop :=
  ∀ i < r.pages, __queryMapping m root (add64 r.virt (i * 4096))
    = some (add64 r.phy (i * 4096), r.flag)

namespace BootGlobals

variable (g : BootGlobals) (m : Mem)

/-- The descriptors of the firmware. -/
def descriptors : List EfiMemoryDescriptor :=
  Raincloud.descriptors m g.mmDescAddr g.mmDescSize (g.mmDescTotal / g.mmDescSize)

/-- After `init_mm_map` all chunks are there, and all memory is in the direct map. -/
structure Mapped (s : BootState) : Prop where
  chunk : ∀ c ∈ g.chunks m, Translates s.mem g.pageTableBase c
  covers : ∀ d ∈ g.descriptors m, ∀ i < d.numberOfPages,
    __queryMapping s.mem g.pageTableBase (phyMapBase + (d.physicalStart + i * 4096))
      = some (d.physicalStart + i * 4096, defaultPteFlag)

/-- The addresses that the direct map has room for, below the stack. -/
def directLimit : Nat := 0x710000000000 - 0x10000

/-- What the firmware and the loader promise. -/
structure Booted : Prop where
  stride : efiMemoryDescriptorSize ≤ g.mmDescSize
  whole : g.mmDescSize ∣ g.mmDescTotal
  array : g.mmDescAddr + g.mmDescTotal ≤ 2 ^ 48
  aligned : ∀ d ∈ g.descriptors m, d.physicalStart % 4096 = 0
  below : ∀ d ∈ g.descriptors m, d.stop ≤ directLimit
  image : g.imageBase < 2 ^ 30 ∧ g.imageSize < 2 ^ 30

/-- The last descriptor ends behind all others that have pages. -/
structure LastHighest : Prop where
  image : g.imageBase % 4096 = 0
  last : ∀ d ∈ g.descriptors m, 0 < d.numberOfPages →
    ∀ l, (g.descriptors m).getLast? = some l → d.stop ≤ l.stop
  /-- Before an empty array there is something that is no descriptor. -/
  empty : g.descriptors m = [] → g.phyPages m * 4096 ≤ directLimit

end BootGlobals

variable {g : BootGlobals} {m : Mem} {s s' : BootState} {root virt phy flag n v : Nat}
  {c : ChunkRequest} {cs : List ChunkRequest}

/-! ## The chunks, one after another -/

/-- The validation passes when every page has its translation. -/
theorem validateMapping_of (hc : MappableChunk phy n flag)
    (h : ∀ i < n, ∀ v, pageNumber v = (pageNumber virt + i) % 2 ^ 36 →
      __queryMapping m root v = some (phy + i * 4096, flag)) :
    __validateMapping m root flag n virt phy = true := by
  induction n generalizing virt phy with
  | zero => rfl
  | succ n ih =>
    obtain ⟨hphy, hc'⟩ := hc.tail
    have hlt := pageNumber_lt virt
    have hnext : pageNumber (add64 virt 0x1000) = (pageNumber virt + 1) % 2 ^ 36 :=
      pageNumber_add64 virt 1
    have h0 := h 0 (Nat.succ_pos n) virt (by omega)
    rw [Nat.zero_mul, Nat.add_zero] at h0
    rw [__validateMapping, decide_eq_true h0, Bool.true_and, hphy]
    refine ih hc' fun i hi v hv => ?_
    rw [h (i + 1) (Nat.succ_lt_succ hi) v (by rw [hnext] at hv; omega), chunk_succ]

/-- A chunk that can be mapped is found by the validation. -/
theorem mapChunk_some (h : BootTree s root) (hc : c.Mappable) (hflag : c.flag < 2 ^ 64)
    (hlow : AllLow (__mapByPages root c.flag c.pages c.virt c.phy s).2.pages) :
    ∃ s', __mapByPages root c.flag c.pages c.virt c.phy s = ((), s') ∧
      mapChunk root s c = some s' ∧ BootTree s' root := by
  obtain ⟨s', hrun, htree, htrans⟩ := mapByPages_entries hflag h hlow
  refine ⟨s', hrun, ?_, htree⟩
  have hval : __validateMapping s'.mem root c.flag c.pages c.virt c.phy = true := by
    refine validateMapping_of hc fun i hi v hv => ?_
    have hcount := hc.count
    have hvirt := pageNumber_lt c.virt
    have hoff : pageOffset c.virt v = i := by
      unfold pageOffset
      rw [hv]
      omega
    rw [queryMapping_eq htree.tree, htrans, mapPages_inside hc (by rwa [hoff]), hoff]
  rw [mapChunk, hrun, if_pos hval]

theorem mapChunks_some (h : BootTree s root) (hmap : ∀ c ∈ cs, c.Mappable)
    (hflag : ∀ c ∈ cs, c.flag < 2 ^ 64) (hlow : AllLow (mapRequests root cs s).2.pages) :
    cs.foldlM (mapChunk root) s = some (mapRequests root cs s).2 := by
  induction cs generalizing s with
  | nil => rfl
  | cons c cs ih =>
    rw [mapRequests] at hlow ⊢
    obtain ⟨s', hrun, hsome, htree⟩ := mapChunk_some h (hmap c List.mem_cons_self)
      (hflag c List.mem_cons_self) (hlow.ofPrefix (grows_mapRequests cs _))
    rw [bind_eq hrun] at hlow ⊢
    rw [List.foldlM_cons, hsome]
    exact ih htree (fun c' hc' => hmap c' (List.mem_cons_of_mem _ hc'))
      (fun c' hc' => hflag c' (List.mem_cons_of_mem _ hc')) hlow

/-- The validation changes nothing. -/
theorem mapChunks_ok (h : cs.foldlM (mapChunk root) s = some s') :
    s' = (mapRequests root cs s).2 := by
  induction cs generalizing s with
  | nil => exact (Option.some.inj h).symm
  | cons c cs ih =>
    rw [List.foldlM_cons] at h
    obtain ⟨s₁, hc, hrest⟩ := Option.bind_eq_some_iff.mp h
    obtain ⟨-, hc⟩ := Option.ite_none_right_eq_some.mp hc
    obtain rfl := Option.some.inj hc
    exact ih hrest

/-- Four steps that carry a state along are a fold. -/
theorem fourSteps_eq {σ α β : Type} (f : σ → α → Option σ) (a b c d : α) (x : β) (s : σ) :
    (do
      let s ← f s a
      let s ← f s b
      let s ← f s c
      let s ← f s d
      return (x, s)) = ([a, b, c, d].foldlM f s).map fun s => (x, s) := by
  simp only [List.foldlM_cons, List.foldlM_nil, Option.bind_eq_bind, Option.map_bind,
    Function.comp_def, Option.pure_def, Option.map_some]

theorem initMmMap_eq (g : BootGlobals) (m : Mem) : initMmMap g m
    = ((g.chunks m).foldlM (mapChunk (newPlm4e (g.start m)).1) (newPlm4e (g.start m)).2).map
      fun s => (g.relocated, s) :=
  fourSteps_eq (mapChunk (newPlm4e (g.start m)).1) g.image (g.direct m) (g.flat m) g.stack
    g.relocated (newPlm4e (g.start m)).2

/-! ## Where the chunks are -/

/-- The top table is at `page_table_base`. -/
theorem newPlm4e_fst (g : BootGlobals) (m : Mem) : (newPlm4e (g.start m)).1 = g.pageTableBase := by
  have hword : g.pageTableBase < 2 ^ 64 := add64_lt _ _
  show sub64 (add64 g.pageTableBase (add64 0 0x1000)) 0x1000 = g.pageTableBase
  unfold sub64 add64
  omega

/-- The tables of the chunks, from the top table on, lie in physical memory. -/
def RoomForTables (g : BootGlobals) (m : Mem) : Prop :=
  AllLow (buildTables (g.chunks m) (g.start m)).2.pages

theorem RoomForTables.top (h : RoomForTables g m) : g.pageTableBase + 4096 ≤ 2 ^ 48 := by
  have hpages : (newPlm4e (g.start m)).2.pages
      <+: (buildTables (g.chunks m) (g.start m)).2.pages :=
    pages_bind (fun _ => grows_bind (grows_mapRequests _) fun _ _ => List.prefix_rfl) _
  have hmem : g.pageTableBase ∈ (newPlm4e (g.start m)).2.pages := by
    rw [← newPlm4e_fst]
    exact List.mem_singleton.mpr rfl
  exact h _ (hpages.subset hmem)

/-- The addresses behind the image, when nothing wraps round. -/
structure BootLayout (g : BootGlobals) : Prop where
  positive : 0 < g.kernelImagePages
  pages : g.kernelImagePages ≤ 2 ^ 18
  stack : ∃ k, g.relocated.stackPageBase = g.imageBase + k * 4096 ∧
    (g.mmDescTotal = 0 → k ≤ 2 ^ 18 + 1)
  tables : g.pageTableBase = g.relocated.stackPageBase + 0x10000

theorem BootGlobals.Booted.layout (h : g.Booted m) : BootLayout g := by
  obtain ⟨hbase, hsize⟩ := h.image
  have harray := h.array
  have himage : g.kernelImagePages = g.imageSize / 4096 + 1 := by
    rw [BootGlobals.kernelImagePages, Nat.shiftRight_eq_div_pow, add64_eq (by omega)]
  have hdesc : g.mmDescPages = g.mmDescTotal / 4096 + 1 := by
    rw [BootGlobals.mmDescPages, Nat.shiftRight_eq_div_pow, add64_eq (by omega)]
  have haddr : g.relocated.mmDescAddr = g.imageBase + g.kernelImagePages * 4096 := by
    show add64 g.imageBase (shl64 g.kernelImagePages 12) = _
    rw [shl64_eq (by omega), add64_eq (by omega)]
    norm_num
  have hstack : g.relocated.stackPageBase
      = g.imageBase + (g.kernelImagePages + g.mmDescPages) * 4096 := by
    show add64 g.relocated.mmDescAddr (shl64 g.mmDescPages 12) = _
    rw [haddr, shl64_eq (by omega), add64_eq (by omega), Nat.add_mul, Nat.add_assoc]
    norm_num
  refine ⟨by omega, by omega, ⟨_, hstack, fun hnone => by rw [hdesc, hnone]; omega⟩, ?_⟩
  show add64 g.relocated.stackPageBase (shl64 stackPages 12) = _
  rw [hstack, show shl64 stackPages 12 = 0x10000 from rfl, add64_eq (by omega)]

/-- `phy_pages` is where the last descriptor ends. -/
theorem BootGlobals.Booted.phyPages_eq (h : g.Booted m) {l : EfiMemoryDescriptor}
    (hl : (g.descriptors m).getLast? = some l) : g.phyPages m * 4096 = l.stop := by
  have hmem : l ∈ g.descriptors m := List.mem_of_getLast? hl
  have hal := h.aligned l hmem
  have hbelow : l.physicalStart + l.numberOfPages * 4096 ≤ 0x710000000000 - 0x10000 :=
    h.below l hmem
  have hsize : 0 < g.mmDescSize := Nat.lt_of_lt_of_le (by decide) h.stride
  have harray := h.array
  obtain ⟨k, hk⟩ := h.whole
  have hcount : g.mmDescTotal / g.mmDescSize = k := by rw [hk, Nat.mul_div_cancel_left _ hsize]
  have hread : l = EfiMemoryDescriptor.read m
      (sub64 (add64 g.mmDescAddr g.mmDescTotal) g.mmDescSize) := by
    rw [BootGlobals.descriptors, Raincloud.descriptors, hcount] at hl
    cases k with
    | zero => cases hl
    | succ j =>
      rw [List.range_succ, List.map_append, List.map_singleton, List.getLast?_concat] at hl
      rw [← Option.some.inj hl]
      have htotal : g.mmDescTotal = j * g.mmDescSize + g.mmDescSize := by
        rw [hk, Nat.mul_comm, Nat.add_mul, Nat.one_mul]
      rw [htotal] at harray ⊢
      rw [add64_eq (by omega), sub64_eq (by omega) (by omega)]
      congr 1
      omega
  show add64 ((EfiMemoryDescriptor.read m _).physicalStart >>> 12)
    (EfiMemoryDescriptor.read m _).numberOfPages * 4096 = _
  rw [← hread, Nat.shiftRight_eq_div_pow, EfiMemoryDescriptor.stop, add64_eq (by omega)]
  omega

section Covers

variable (hlim : g.phyPages m * 4096 ≤ BootGlobals.directLimit)
include hlim

theorem direct_covers : (g.direct m).Covers v ↔
    2 ^ 35 ≤ pageNumber v ∧ pageNumber v < 2 ^ 35 + g.phyPages m := by
  have hfirst : pageNumber phyMapBase = 2 ^ 35 := rfl
  simp only [BootGlobals.directLimit] at hlim
  refine (pageOffset_lt_iff ?_).trans ?_
  · show pageNumber phyMapBase + g.phyPages m ≤ 2 ^ 36
    omega
  · show pageNumber phyMapBase ≤ _ ∧ _ < pageNumber phyMapBase + g.phyPages m ↔ _
    rw [hfirst]

theorem flat_covers : (g.flat m).Covers v ↔ pageNumber v < g.phyPages m := by
  have hfirst : pageNumber 0 = 0 := rfl
  simp only [BootGlobals.directLimit] at hlim
  refine (pageOffset_lt_iff ?_).trans ?_
  · show pageNumber 0 + g.phyPages m ≤ 2 ^ 36
    omega
  · show pageNumber 0 ≤ _ ∧ _ < pageNumber 0 + g.phyPages m ↔ _
    omega

end Covers

theorem image_covers (hl : BootLayout g) : g.image.Covers v ↔
    0xffff80000 ≤ pageNumber v ∧ pageNumber v < 0xffff80000 + g.kernelImagePages := by
  have hfirst : pageNumber kernelImageBase = 0xffff80000 := rfl
  have hpages := hl.pages
  refine (pageOffset_lt_iff ?_).trans ?_
  · show pageNumber kernelImageBase + g.kernelImagePages ≤ 2 ^ 36
    omega
  · show pageNumber kernelImageBase ≤ _ ∧ _ < pageNumber kernelImageBase + g.kernelImagePages ↔ _
    rw [hfirst]

theorem stack_covers : g.stack.Covers v ↔
    0xf0ffffff0 ≤ pageNumber v ∧ pageNumber v < 0xf10000000 := by
  have hfirst : pageNumber (sub64 kernelStackTop (shl64 stackPages 12)) = 0xf0ffffff0 := rfl
  refine (pageOffset_lt_iff (n := stackPages) ?_).trans ?_
  · show pageNumber (sub64 kernelStackTop (shl64 stackPages 12)) + 0x10 ≤ 2 ^ 36
    omega
  · show pageNumber (sub64 kernelStackTop (shl64 stackPages 12)) ≤ _ ∧
      _ < pageNumber (sub64 kernelStackTop (shl64 stackPages 12)) + 0x10 ↔ _
    rw [hfirst]

/-- The chunks do not overlap. -/
theorem chunks_apart (hl : BootLayout g)
    (hlim : g.phyPages m * 4096 ≤ BootGlobals.directLimit) :
    (g.chunks m).Pairwise ChunkRequest.Apart := by
  have hpages := hl.pages
  have hlim' : g.phyPages m * 4096 ≤ 0x710000000000 - 0x10000 := hlim
  simp only [BootGlobals.chunks, List.pairwise_cons, List.mem_cons, List.not_mem_nil, or_false,
    forall_eq_or_imp, forall_eq, IsEmpty.forall_iff, implies_true, List.Pairwise.nil, and_true,
    ChunkRequest.Apart,
    image_covers hl, direct_covers hlim, flat_covers hlim, stack_covers]
  refine ⟨⟨?_, ?_, ?_⟩, ⟨?_, ?_⟩, ?_⟩ <;> (intro v hv; omega)

/-! ## The tables of an aligned image -/

/-- What comes out of an entry is the address of a page. -/
theorem queryMapping_aligned {a f : Nat} (h : __queryMapping m root v = some (a, f)) :
    a % 4096 = 0 := by
  have hmask : ∀ e, __getAddr e % 4096 = 0 := fun e => by
    rw [__getAddr, show (4096 : Nat) = 2 ^ 12 from rfl, Nat.and_mod_two_pow,
      show pagingMaskAddr % 2 ^ 12 = 0 from rfl, Nat.and_zero]
  obtain ⟨pdpte, -, h⟩ := Option.bind_eq_some_iff.mp h
  obtain ⟨pde, -, h⟩ := Option.bind_eq_some_iff.mp h
  obtain ⟨pte, -, h⟩ := Option.bind_eq_some_iff.mp h
  dsimp only at h
  split at h
  · cases h
  · rw [← (Prod.mk.inj (Option.some.inj h)).1]
    exact hmask _

/-- The state in which the chunks are mapped, and the pages that the tables take. -/
structure TopTable (g : BootGlobals) (m : Mem) (s : BootState) : Prop where
  top : newPlm4e (g.start m) = (g.pageTableBase, s)
  tree : BootTree s g.pageTableBase
  empty : ∀ v, translate s.mem g.pageTableBase v = none
  low : AllLow (mapRequests g.pageTableBase (g.chunks m) s).2.pages

theorem exists_topTable (hl : BootLayout g) (hroom : RoomForTables g m)
    (hal : g.imageBase % 4096 = 0) : ∃ s, TopTable g m s := by
  obtain ⟨k, hstack, -⟩ := hl.stack
  have htop := hroom.top
  have htables := hl.tables
  have hstart : BootStart (g.start m) := by
    refine ⟨?_, ?_⟩
    · show (g.pageTableBase + 0) % 4096 = 0
      omega
    · show g.pageTableBase + 0 ≤ 2 ^ 48
      omega
  have hgrows : ∀ root, Grows (do mapRequests root (g.chunks m); pure root : Boot Nat) :=
    fun root => grows_bind (grows_mapRequests _) fun _ _ => List.prefix_rfl
  obtain ⟨root, s, hrun, htree, hnone⟩ := newPlm4e_spec hstart
    (hroom.ofPrefix (pages_bind hgrows _))
  have hroot : root = g.pageTableBase := by
    rw [← newPlm4e_fst g m, hrun]
  rw [hroot] at hrun htree hnone
  refine ⟨s, hrun, htree, hnone, hroom.ofPrefix ?_⟩
  rw [buildTables, bind_eq hrun]
  exact List.prefix_rfl

theorem TopTable.initMmMap_eq (h : TopTable g m s) : initMmMap g m
    = ((g.chunks m).foldlM (mapChunk g.pageTableBase) s).map fun s => (g.relocated, s) := by
  rw [InitMmMap.initMmMap_eq, h.top]

theorem chunks_flag (hc : c ∈ g.chunks m) : c.flag = defaultPteFlag := by
  simp only [BootGlobals.chunks, List.mem_cons, List.not_mem_nil, or_false] at hc
  rcases hc with rfl | rfl | rfl | rfl <;> rfl

/-- What the tables say when the chunks are mapped. -/
theorem TopTable.query (h : TopTable g m s) (v : Nat) :
    __queryMapping (mapRequests g.pageTableBase (g.chunks m) s).2.mem g.pageTableBase v
      = mapChunks (g.chunks m) (fun _ => none) v := by
  obtain ⟨s', hrun, htree, htrans⟩ := mapRequests_spec (g.chunks m) s
    (fun c hc => by rw [chunks_flag hc]; decide) h.tree h.low
  rw [hrun, queryMapping_eq htree.tree, htrans, funext h.empty]

/-- Entries can say what the chunks ask for. -/
theorem chunks_mappable (h : g.Booted m) (hroom : RoomForTables g m)
    (hal : g.imageBase % 4096 = 0) (hlim : g.phyPages m * 4096 ≤ BootGlobals.directLimit) :
    ∀ c ∈ g.chunks m, c.Mappable := by
  have hl := h.layout
  have hpages := hl.pages
  obtain ⟨k, hstack, -⟩ := hl.stack
  have htop := hroom.top
  have htables := hl.tables
  have hbase := h.image.1
  have hpresent : defaultPteFlag &&& pagingMaskP ≠ 0 := by decide
  have hflags : defaultPteFlag &&& pagingMaskFlag = defaultPteFlag := by decide
  have hlim' : g.phyPages m * 4096 ≤ 0x710000000000 - 0x10000 := hlim
  have hphys : MappableChunk 0 (g.phyPages m) defaultPteFlag :=
    ⟨rfl, by omega, by omega, hpresent, hflags⟩
  simp only [BootGlobals.chunks, List.mem_cons, List.not_mem_nil, or_false]
  rintro c (rfl | rfl | rfl | rfl)
  · exact ⟨hal, show g.imageBase + g.kernelImagePages * 4096 ≤ 2 ^ 48 by omega,
      show g.kernelImagePages ≤ 2 ^ 36 by omega, hpresent, hflags⟩
  · exact hphys
  · exact hphys
  · exact ⟨show g.relocated.stackPageBase % 4096 = 0 by omega,
      show g.relocated.stackPageBase + 0x10 * 4096 ≤ 2 ^ 48 by omega,
      show stackPages ≤ 2 ^ 36 by decide, hpresent, hflags⟩

/-- How far a page of a chunk is behind its first page. -/
theorem pageOffset_add64 {virt i : Nat} (hi : i < 2 ^ 36) :
    pageOffset virt (add64 virt (i * 4096)) = i := by
  have hpage := pageNumber_add64 virt i
  have hvirt := pageNumber_lt virt
  unfold pageOffset
  omega

/-- A chunk is there when each of its pages is. -/
theorem translates_of (hc : c.Mappable)
    (h : ∀ v, c.Covers v → __queryMapping m root v = some (c.target v)) : Translates m root c := by
  intro i hi
  have hlow := hc.low
  have hoff : pageOffset c.virt (add64 c.virt (i * 4096)) = i :=
    pageOffset_add64 (Nat.lt_of_lt_of_le hi hc.count)
  rw [h _ (show pageOffset c.virt _ < c.pages by rwa [hoff]), ChunkRequest.target, hoff,
    add64_eq (by omega)]

/-- The number of a page of the direct map. -/
theorem pageNumber_direct {p : Nat} (hp : p < 2 ^ 47) :
    pageNumber (phyMapBase + p) = 2 ^ 35 + p / 4096 := by
  unfold pageNumber phyMapBase
  omega

/-! ## When all memory is mapped -/

/-- How many pages the direct map has when the last descriptor is the highest. -/
theorem BootGlobals.LastHighest.limit (hlast : g.LastHighest m) (h : g.Booted m) :
    g.phyPages m * 4096 ≤ BootGlobals.directLimit := by
  cases hl : (g.descriptors m).getLast? with
  | none => exact hlast.empty (List.getLast?_eq_none_iff.mp hl)
  | some l =>
    rw [h.phyPages_eq hl]
    exact h.below l (List.mem_of_getLast? hl)

theorem BootGlobals.LastHighest.mapped (hlast : g.LastHighest m) (h : g.Booted m)
    (hroom : RoomForTables g m) : ∃ g' s, initMmMap g m = some (g', s) ∧ g.Mapped m s := by
  have hlim := hlast.limit h
  have hmap := chunks_mappable h hroom hlast.image hlim
  obtain ⟨s, htop⟩ := exists_topTable h.layout hroom hlast.image
  have hrun := mapChunks_some htop.tree hmap (fun c hc => by rw [chunks_flag hc]; decide) htop.low
  have hinside : ∀ c ∈ g.chunks m, ∀ v, c.Covers v →
      __queryMapping (mapRequests g.pageTableBase (g.chunks m) s).2.mem g.pageTableBase v
        = some (c.target v) := fun c hc v hv =>
    (htop.query v).trans (mapChunks_inside hmap (chunks_apart h.layout hlim) hc hv)
  refine ⟨g.relocated, _, by rw [htop.initMmMap_eq, hrun]; rfl,
    ⟨fun c hc => translates_of (hmap c hc) (hinside c hc), fun d hd i hi => ?_⟩⟩
  have hal := h.aligned d hd
  have hbelow : d.physicalStart + d.numberOfPages * 4096 ≤ g.phyPages m * 4096 := by
    obtain ⟨l, hl⟩ : ∃ l, (g.descriptors m).getLast? = some l :=
      Option.isSome_iff_exists.mp (List.getLast?_isSome.mpr (List.ne_nil_of_mem hd))
    rw [h.phyPages_eq hl]
    exact hlast.last d hd (Nat.zero_lt_of_lt hi) l hl
  have hlim' : g.phyPages m * 4096 ≤ 0x710000000000 - 0x10000 := hlim
  have hpage := pageNumber_direct (show d.physicalStart + i * 4096 < 2 ^ 47 by omega)
  have hcovers : (g.direct m).Covers (phyMapBase + (d.physicalStart + i * 4096)) := by
    rw [direct_covers hlim, hpage]
    omega
  have hoff : pageOffset phyMapBase (phyMapBase + (d.physicalStart + i * 4096))
      = (d.physicalStart + i * 4096) / 4096 := by
    rw [pageOffset, hpage, show pageNumber phyMapBase = 2 ^ 35 from rfl]
    omega
  rw [hinside _ (List.mem_cons_of_mem _ List.mem_cons_self) _ hcovers]
  show some (0 + pageOffset phyMapBase _ * 4096, defaultPteFlag) = _
  rw [hoff, Nat.zero_add, Nat.div_mul_cancel (by omega)]

/-- The image can be mapped only where a page begins. -/
theorem BootGlobals.Mapped.image_aligned (hmapped : g.Mapped m s) (h : g.Booted m) :
    g.imageBase % 4096 = 0 := by
  have hfirst := hmapped.chunk g.image List.mem_cons_self 0 h.layout.positive
  have hbase := h.image.1
  have hal : add64 g.imageBase (0 * 4096) % 4096 = 0 := queryMapping_aligned hfirst
  rw [add64_eq (by omega)] at hal
  omega

/-- Behind the last descriptor there is nothing in the direct map. -/
theorem TopTable.query_behind {d : EfiMemoryDescriptor} (htop : TopTable g m s) (h : g.Booted m)
    (hd : d ∈ g.descriptors m) (hpos : 0 < d.numberOfPages)
    (hlim : g.phyPages m * 4096 ≤ BootGlobals.directLimit)
    (hend : g.phyPages m * 4096 < d.physicalStart + d.numberOfPages * 4096) :
    __queryMapping (mapRequests g.pageTableBase (g.chunks m) s).2.mem g.pageTableBase
      (phyMapBase + (d.physicalStart + (d.numberOfPages - 1) * 4096)) = none := by
  have hl := h.layout
  have hal := h.aligned d hd
  have hbelow : d.physicalStart + d.numberOfPages * 4096 ≤ 0x710000000000 - 0x10000 :=
    h.below d hd
  have hpage := pageNumber_direct
    (show d.physicalStart + (d.numberOfPages - 1) * 4096 < 2 ^ 47 by omega)
  have hmiss : ∀ c ∈ g.chunks m,
      ¬c.Covers (phyMapBase + (d.physicalStart + (d.numberOfPages - 1) * 4096)) := by
    simp only [BootGlobals.chunks, List.mem_cons, List.not_mem_nil, or_false]
    rintro c (rfl | rfl | rfl | rfl)
    · rw [image_covers hl, hpage]
      omega
    · rw [direct_covers hlim, hpage]
      omega
    · rw [flat_covers hlim, hpage]
      omega
    · rw [stack_covers, hpage]
      omega
  rw [htop.query, mapChunks_outside hmiss]

/-- Without descriptors the direct map does not reach the stack, which is mapped elsewhere. -/
theorem BootGlobals.Mapped.limit_empty (hmapped : g.Mapped m s) (h : g.Booted m)
    (hnone : g.descriptors m = []) : g.phyPages m * 4096 ≤ BootGlobals.directLimit := by
  by_contra hfar
  -- the first page of the stack is also one of the direct map
  have hfar' : 0x710000000000 - 0x10000 < g.phyPages m * 4096 := Nat.not_le.mp hfar
  have hdirect := hmapped.chunk (g.direct m) (List.mem_cons_of_mem _ List.mem_cons_self)
    0x70ffffff0 (show 0x70ffffff0 < g.phyPages m by omega)
  have hstack := hmapped.chunk g.stack
    (List.mem_cons_of_mem _ (List.mem_cons_of_mem _ (List.mem_cons_of_mem _ List.mem_cons_self)))
    0 (show 0 < stackPages by decide)
  have hsame : add64 (g.direct m).virt (0x70ffffff0 * 4096) = add64 g.stack.virt (0 * 4096) := by
    show add64 phyMapBase (0x70ffffff0 * 4096)
      = add64 (sub64 kernelStackTop (shl64 stackPages 12)) (0 * 4096)
    decide
  rw [hsame, hstack] at hdirect
  have hphy : add64 g.relocated.stackPageBase (0 * 4096) = add64 0 (0x70ffffff0 * 4096) :=
    (Prod.mk.inj (Option.some.inj hdirect)).1
  have htotal : g.mmDescTotal = 0 := by
    have hsize : 0 < g.mmDescSize := Nat.lt_of_lt_of_le (by decide) h.stride
    have hcount : g.mmDescTotal / g.mmDescSize = 0 := by
      rw [BootGlobals.descriptors, Raincloud.descriptors, List.map_eq_nil_iff,
        List.range_eq_nil] at hnone
      exact hnone
    rw [← Nat.div_mul_cancel h.whole, hcount, Nat.zero_mul]
  obtain ⟨k, hk, hbound⟩ := h.layout.stack
  have hbase := h.image.1
  have hk' := hbound htotal
  rw [hk, add64_eq (by omega), add64_eq (by omega)] at hphy
  omega

theorem lastHighest_of_mapped (h : g.Booted m) (hroom : RoomForTables g m) {g' : BootGlobals}
    (hrun : initMmMap g m = some (g', s)) (hmapped : g.Mapped m s) : g.LastHighest m := by
  have himage := hmapped.image_aligned h
  obtain ⟨s₀, htop⟩ := exists_topTable h.layout hroom himage
  have hs : s = (mapRequests g.pageTableBase (g.chunks m) s₀).2 := by
    rw [htop.initMmMap_eq] at hrun
    obtain ⟨s₁, hfold, heq⟩ := Option.map_eq_some_iff.mp hrun
    rw [← (Prod.mk.inj heq).2]
    exact mapChunks_ok hfold
  refine ⟨himage, fun d hd hpos l hl => ?_, fun hnone => hmapped.limit_empty h hnone⟩
  by_contra hbehind
  have hlim : g.phyPages m * 4096 ≤ BootGlobals.directLimit := by
    rw [h.phyPages_eq hl]
    exact h.below l (List.mem_of_getLast? hl)
  have hend : g.phyPages m * 4096 < d.physicalStart + d.numberOfPages * 4096 := by
    rw [h.phyPages_eq hl]
    exact Nat.not_le.mp hbehind
  -- the last page of the descriptor
  have hcovers := hmapped.covers d hd (d.numberOfPages - 1) (by omega)
  rw [hs, htop.query_behind h hd hpos hlim hend] at hcovers
  cases hcovers

/--
`init_mm_map` maps all memory exactly when the image starts at a page and the last descriptor ends
behind all others: `phy_pages` is where the last one ends.
-/
theorem initMmMap_maps_iff (h : g.Booted m) (hroom : RoomForTables g m) :
    (∃ g' s, initMmMap g m = some (g', s) ∧ g.Mapped m s) ↔ g.LastHighest m :=
  ⟨fun ⟨_, _, hrun, hmapped⟩ => lastHighest_of_mapped h hroom hrun hmapped,
    fun hlast => hlast.mapped h hroom⟩

/-! ## Two descriptors -/

/-- The memory with a descriptor. -/
def storeDescriptor (m : Mem) (ptr : Nat) (d : EfiMemoryDescriptor) : Mem :=
  ((m.store64 ptr d.type).store64 (ptr + 8) d.physicalStart).store64 (ptr + 24) d.numberOfPages

def lowMemory : EfiMemoryDescriptor := ⟨efiConventionalMemory, 0, 0x9f⟩

def highMemory : EfiMemoryDescriptor := ⟨efiConventionalMemory, 0x100000, 0x400⟩

/-- An array of two descriptors at page 0x50. -/
def twoDescriptors (d d' : EfiMemoryDescriptor) : Mem :=
  storeDescriptor (storeDescriptor (fun _ => 0) 0x50000 d) 0x50028 d'

/-- What the loader says about it, with an image of two pages. -/
def twoDescriptorGlobals : BootGlobals := ⟨0x100000, 0x1000, 0x50000, 40, 80, 0⟩

section TwoDescriptors

variable {d d' : EfiMemoryDescriptor}

theorem twoDescriptors_booted
    (hds : twoDescriptorGlobals.descriptors (twoDescriptors d d') = [d, d'])
    (hd : ∀ e ∈ [d, d'], e.physicalStart % 4096 = 0 ∧ e.stop ≤ BootGlobals.directLimit) :
    twoDescriptorGlobals.Booted (twoDescriptors d d') where
  stride := by decide
  whole := ⟨2, rfl⟩
  array := by decide
  aligned e he := (hd e (hds ▸ he)).1
  below e he := (hd e (hds ▸ he)).2
  image := by decide

theorem twoDescriptors_room
    (h : totalPages (twoDescriptorGlobals.chunks (twoDescriptors d d')) ≤ 2 ^ 20) :
    RoomForTables twoDescriptorGlobals (twoDescriptors d d') := by
  refine buildTables_low _ ?_
  have hbase : twoDescriptorGlobals.pageTableBase = 0x113000 := by decide
  omega

end TwoDescriptors

theorem ascending_descriptors :
    twoDescriptorGlobals.descriptors (twoDescriptors lowMemory highMemory)
      = [lowMemory, highMemory] := by
  decide +kernel

theorem descending_descriptors :
    twoDescriptorGlobals.descriptors (twoDescriptors highMemory lowMemory)
      = [highMemory, lowMemory] := by
  decide +kernel

/-- In ascending order, all memory is mapped. -/
theorem initMmMap_maps_ascending : ∃ g' s,
    initMmMap twoDescriptorGlobals (twoDescriptors lowMemory highMemory) = some (g', s) ∧
      twoDescriptorGlobals.Mapped (twoDescriptors lowMemory highMemory) s := by
  refine (initMmMap_maps_iff (twoDescriptors_booted ascending_descriptors (by decide))
    (twoDescriptors_room (by decide +kernel))).mpr ⟨by decide, ?_, ?_⟩
  · rw [ascending_descriptors]
    decide
  · rw [ascending_descriptors]
    exact fun hnone => absurd hnone (List.cons_ne_nil _ _)

/-- In descending order, the memory behind the last descriptor is not mapped. -/
theorem initMmMap_descending :
    twoDescriptorGlobals.descriptors (twoDescriptors highMemory lowMemory)
      = [highMemory, lowMemory] ∧
    twoDescriptorGlobals.Booted (twoDescriptors highMemory lowMemory) ∧
    RoomForTables twoDescriptorGlobals (twoDescriptors highMemory lowMemory) ∧
    ¬∃ g' s, initMmMap twoDescriptorGlobals (twoDescriptors highMemory lowMemory) = some (g', s) ∧
      twoDescriptorGlobals.Mapped (twoDescriptors highMemory lowMemory) s := by
  have hbooted := twoDescriptors_booted descending_descriptors (by decide)
  have hroom : RoomForTables twoDescriptorGlobals (twoDescriptors highMemory lowMemory) :=
    twoDescriptors_room (by decide +kernel)
  refine ⟨descending_descriptors, hbooted, hroom, fun ⟨g', s, hrun, hmapped⟩ => ?_⟩
  have hlast := (lastHighest_of_mapped hbooted hroom hrun hmapped).last
  rw [descending_descriptors] at hlast
  exact absurd (hlast highMemory (by decide) (by decide) lowMemory rfl) (by decide)

end Raincloud.InitMmMap
