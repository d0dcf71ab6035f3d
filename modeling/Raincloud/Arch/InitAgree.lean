import Raincloud.Arch.ChunkMapping
import Raincloud.Arch.InitMmMap

/-!
# The page tables before and after the kernel runs

`init_mm_map.c` has copies of the functions of `paging.c` that find tables at their physical
addresses. On the same tables both copies answer the same, and the tables that both build
translate the same.
-/

set_option linter.style.nameCheck false

namespace Raincloud

open Infra Paging

/-! ## The same tables -/

/-- The words of a table can be read at both addresses. -/
def SameTable (m : Mem) (t t' : Nat) : Prop :=
  ∀ i < 512, m.load64 (add64 t (8 * i)) = m.load64 (add64 t' (8 * i))

/-- The tables at a depth below the root, by the addresses that are stored. -/
inductive StoredTable (m : Mem) (root : Nat) : Nat → Nat → Prop
  | root : StoredTable m root 0 root
  | next {depth t i : Nat} (h : StoredTable m root depth t) (hi : i < 512)
      (hp : m.load64 (add64 t (8 * i)) &&& pagingMaskP ≠ 0) :
      StoredTable m root (depth + 1) (m.load64 (add64 t (8 * i)) &&& pagingMaskAddr)

/-- Every table is found at its physical address and in the direct map. -/
structure Mirrored (m : Mem) (root root' : Nat) : Prop where
  top : SameTable m root root'
  stored : ∀ depth t, depth < 3 → StoredTable m root (depth + 1) t →
    SameTable m t (add64 t phyMapBase)

section Query

variable {m : Mem} {root root' depth t t' : Nat}

/-- The entry that an address selects. -/
theorem SameTable.load_eq (h : SameTable m t t') (v shift : Nat) :
    m.load64 (entryAddr t v shift) = m.load64 (entryAddr t' v shift) :=
  h _ (Nat.lt_of_le_of_lt Nat.and_le_right (by decide))

/-- Both find the next table, each in its own way. -/
theorem queryTable_agree (hdepth : depth < 3) (h : Mirrored m root root')
    (ht : StoredTable m root depth t) (hsame : SameTable m t t') (v shift : Nat)
    (calls : List PageAllocCall) :
    (InitMmMap.__queryTable m (entryAddr t v shift) = none ∧
      __queryTable (entryAddr t' v shift) ⟨m, calls⟩ = (some none, ⟨m, calls⟩)) ∨
    ∃ u, StoredTable m root (depth + 1) u ∧ SameTable m u (add64 u phyMapBase) ∧
      InitMmMap.__queryTable m (entryAddr t v shift) = some u ∧
      __queryTable (entryAddr t' v shift) ⟨m, calls⟩
        = (some (some (add64 u phyMapBase)), ⟨m, calls⟩) := by
  have hload := hsame.load_eq v shift
  have hlt : v >>> shift &&& pagingMaskEntryOffset < 512 :=
    Nat.lt_of_le_of_lt Nat.and_le_right (by decide)
  rw [queryTable_eq, ← hload]
  by_cases hp : m.load64 (entryAddr t v shift) &&& pagingMaskP = 0
  · left
    rw [childTable, if_pos hp]
    exact ⟨if_pos hp, rfl⟩
  · right
    rw [childTable, if_neg hp]
    have hu : StoredTable m root (depth + 1) (m.load64 (entryAddr t v shift) &&& pagingMaskAddr) :=
      .next ht hlt hp
    exact ⟨_, hu, h.stored depth _ hdepth hu, if_neg hp, rfl⟩

/-- Both copies of `__query_mapping` answer the same. -/
theorem queryMapping_agree (h : Mirrored m root root') (v : Nat) (calls : List PageAllocCall) :
    queryMapping root' v ⟨m, calls⟩
      = (some (InitMmMap.__queryMapping m root v), ⟨m, calls⟩) := by
  unfold queryMapping __queryMapping InitMmMap.__queryMapping
  rcases queryTable_agree (by decide) h .root h.top v 39 calls with
    ⟨hb, hr⟩ | ⟨pdpte, hpdpte, hsame, hb, hr⟩
  · rw [bind_eq hr, hb]
    rfl
  rw [bind_eq hr, hb]
  simp only [Option.bind_eq_bind, Option.bind_some]
  rcases queryTable_agree (by decide) h hpdpte hsame v 30 calls with
    ⟨hb, hr⟩ | ⟨pde, hpde, hsame, hb, hr⟩
  · rw [bind_eq hr, hb]
    rfl
  rw [bind_eq hr, hb]
  simp only [Option.bind_some]
  rcases queryTable_agree (by decide) h hpde hsame v 21 calls with
    ⟨hb, hr⟩ | ⟨pte, -, hsame, hb, hr⟩
  · rw [bind_eq hr, hb]
    rfl
  rw [bind_eq hr, hb]
  simp only [Option.bind_some]
  rw [bind_eq (read_eq _ _), ← hsame.load_eq v 12]
  split <;> rfl

end Query

/-! ## Requests -/

/-- The arguments of a call of `__map_by_pages`. -/
structure ChunkRequest where
  virt : Nat
  phy : Nat
  pages : Nat
  flag : Nat

/-- What the pages of a chunk do to a translation. -/
def mapPages (flag : Nat) : Nat → Nat → Nat → (Nat → Option (Nat × Nat)) →
    Nat → Option (Nat × Nat)
  | 0, _, _, tr => tr
  | n + 1, virt, phy, tr =>
    mapPages flag n (add64 virt 0x1000) (add64 phy 0x1000) fun v =>
      if pageNumber v = pageNumber virt then leafEntry (__mkEntry phy flag) else tr v

/-- What the chunks do to a translation, one after another. -/
def mapChunks (rs : List ChunkRequest) (tr : Nat → Option (Nat × Nat)) :
    Nat → Option (Nat × Nat) :=
  rs.foldl (fun tr r => mapPages r.flag r.pages r.virt r.phy tr) tr

/-- The requests in `paging.c`. -/
def mapRequests (pageAlloc : Mem → Nat × Mem) (root : Nat) : List ChunkRequest → Paging Unit
  | [] => pure ()
  | r :: rs => do
    __mapByPages pageAlloc root r.flag r.pages r.virt r.phy
    mapRequests pageAlloc root rs

/-- The requests in `init_mm_map.c`. -/
def InitMmMap.mapRequests (root : Nat) : List ChunkRequest → Boot Unit
  | [] => pure ()
  | r :: rs => do
    __mapByPages root r.flag r.pages r.virt r.phy
    mapRequests root rs

/-- The requests in `init_mm_map.c`, from a new top table on. -/
def InitMmMap.buildTables (rs : List ChunkRequest) : Boot Nat := do
  let plm4e ← newPlm4e
  mapRequests plm4e rs
  pure plm4e

theorem mkEntry_lt {flag : Nat} (phy : Nat) (h : flag < 2 ^ 64) : __mkEntry phy flag < 2 ^ 64 :=
  Nat.or_lt_two_pow (Nat.lt_of_le_of_lt Nat.and_le_right (by decide)) h

section Runtime

variable {pageAlloc : Mem → Nat × Mem} {root flag : Nat}

/-- The loop of `__map_by_pages` in `paging.c`, whatever the physical addresses. -/
theorem mapByPages_entries {n virt phy : Nat} {s : PagingState} (hflag : flag < 2 ^ 64)
    (h : PageTree s.mem root)
    (hfresh : AllFresh root (__mapByPages pageAlloc root flag n virt phy s).2.calls) :
    ∃ s', __mapByPages pageAlloc root flag n virt phy s = (some (), s') ∧ PageTree s'.mem root ∧
      translate s'.mem root = mapPages flag n virt phy (translate s.mem root) := by
  induction n generalizing virt phy s with
  | zero => exact ⟨s, rfl, h, rfl⟩
  | succ n ih =>
    rw [__mapByPages] at hfresh ⊢
    obtain ⟨s1, h1, htree1, htrans1⟩ := doMapping_entry h (mkEntry_lt phy hflag)
      (hfresh.ofAppend (calls_bind (fun _ => grows_mapByPages root flag n _ _) s))
    rw [bind_eq h1] at hfresh ⊢
    obtain ⟨s', h', htree', htrans'⟩ := ih htree1 hfresh
    refine ⟨s', h', htree', ?_⟩
    rw [htrans', mapPages, funext htrans1]

theorem grows_mapRequests : ∀ rs, Grows (mapRequests pageAlloc root rs)
  | [] => fun _ => List.prefix_rfl
  | _ :: rs => grows_bind (grows_mapByPages _ _ _ _ _) fun _ => grows_mapRequests rs

/-- What the requests do to the translation, in `paging.c`. -/
theorem mapRequests_spec : ∀ (rs : List ChunkRequest) (s : PagingState),
    (∀ r ∈ rs, r.flag < 2 ^ 64) → PageTree s.mem root →
    AllFresh root (mapRequests pageAlloc root rs s).2.calls →
    ∃ s', mapRequests pageAlloc root rs s = (some (), s') ∧ PageTree s'.mem root ∧
      translate s'.mem root = mapChunks rs (translate s.mem root)
  | [], s, _, h, _ => ⟨s, rfl, h, rfl⟩
  | r :: rs, s, hflag, h, hfresh => by
    rw [mapRequests] at hfresh ⊢
    obtain ⟨s1, h1, htree1, htrans1⟩ := mapByPages_entries (hflag r List.mem_cons_self) h
      (hfresh.ofAppend (calls_bind (fun _ => grows_mapRequests rs) s))
    rw [bind_eq h1] at hfresh ⊢
    obtain ⟨s', h', htree', htrans'⟩ := mapRequests_spec rs s1
      (fun r' hr' => hflag r' (List.mem_cons_of_mem _ hr')) htree1 hfresh
    refine ⟨s', h', htree', ?_⟩
    rw [htrans', htrans1]
    rfl

end Runtime

namespace InitMmMap

variable {root flag : Nat}

/-- The loop of `__map_by_pages` in `init_mm_map.c`. -/
theorem mapByPages_entries {n virt phy : Nat} {s : BootState} (hflag : flag < 2 ^ 64)
    (h : BootTree s root) (hlow : AllLow (__mapByPages root flag n virt phy s).2.pages) :
    ∃ s', __mapByPages root flag n virt phy s = ((), s') ∧ BootTree s' root ∧
      translate s'.mem root = mapPages flag n virt phy (translate s.mem root) := by
  induction n generalizing virt phy s with
  | zero => exact ⟨s, rfl, h, rfl⟩
  | succ n ih =>
    rw [__mapByPages] at hlow ⊢
    obtain ⟨s1, h1, htree1, htrans1⟩ := doMapping_entry h (mkEntry_lt phy hflag)
      (hlow.ofPrefix (grows_mapByPages root flag n _ _ _))
    rw [bind_eq h1] at hlow ⊢
    obtain ⟨s', h', htree', htrans'⟩ := ih htree1 hlow
    refine ⟨s', h', htree', ?_⟩
    rw [htrans', mapPages, funext htrans1]

theorem grows_mapRequests : ∀ rs, Grows (mapRequests root rs)
  | [] => fun _ => List.prefix_rfl
  | _ :: rs => grows_bind (grows_mapByPages _ _ _ _ _) fun _ => grows_mapRequests rs

/-- What the requests do to the translation, in `init_mm_map.c`. -/
theorem mapRequests_spec : ∀ (rs : List ChunkRequest) (s : BootState),
    (∀ r ∈ rs, r.flag < 2 ^ 64) → BootTree s root → AllLow (mapRequests root rs s).2.pages →
    ∃ s', mapRequests root rs s = ((), s') ∧ BootTree s' root ∧
      translate s'.mem root = mapChunks rs (translate s.mem root)
  | [], s, _, h, _ => ⟨s, rfl, h, rfl⟩
  | r :: rs, s, hflag, h, hlow => by
    rw [mapRequests] at hlow ⊢
    obtain ⟨s1, h1, htree1, htrans1⟩ := mapByPages_entries (hflag r List.mem_cons_self) h
      (hlow.ofPrefix (grows_mapRequests rs _))
    rw [bind_eq h1] at hlow ⊢
    obtain ⟨s', h', htree', htrans'⟩ := mapRequests_spec rs s1
      (fun r' hr' => hflag r' (List.mem_cons_of_mem _ hr')) htree1 hlow
    refine ⟨s', h', htree', ?_⟩
    rw [htrans', htrans1]
    rfl

/-- Where the tables begin: a page of the physical memory. -/
structure BootStart (s : BootState) : Prop where
  aligned : (s.pageTableBase + s.pageTableSize) % tableSize = 0
  low : s.pageTableBase + s.pageTableSize ≤ 2 ^ 48

/-- A new top table has no entries. -/
theorem newPlm4e_spec {s : BootState} (h : BootStart s) (hlow : AllLow (newPlm4e s).2.pages) :
    ∃ root s', newPlm4e s = (root, s') ∧ BootTree s' root ∧ ∀ v, translate s'.mem root v = none := by
  have halloc := continousAlloc_eq h.low
  have hrun : newPlm4e s = (s.pageTableBase + s.pageTableSize,
      { s with
        mem := __initTableTo s.mem (s.pageTableBase + s.pageTableSize) 0x18 512
        pageTableSize := s.pageTableSize + tableSize
        pages := s.pages ++ [s.pageTableBase + s.pageTableSize] }) := by
    rw [newPlm4e, bind_eq halloc]
    rfl
  rw [hrun] at hlow
  have hpage : s.pageTableBase + s.pageTableSize + tableSize ≤ 2 ^ 48 := hlow _ (by simp)
  have hfit : s.pageTableBase + s.pageTableSize + tableSize ≤ 2 ^ 64 := by omega
  have hslot : ∀ i, i < 512 → slot (__initTableTo s.mem (s.pageTableBase + s.pageTableSize) 0x18
      512) (s.pageTableBase + s.pageTableSize) i = 0x18 :=
    (initTableTo_apply s.mem le_rfl hfit).2 (by decide)
  obtain ⟨htree, honly⟩ : PageTree (__initTableTo s.mem (s.pageTableBase + s.pageTableSize) 0x18 512)
      (s.pageTableBase + s.pageTableSize) ∧ _ :=
    tableTree_single ⟨h.aligned, hfit⟩ fun i hi => by
      rw [hslot i hi]
      rfl
  refine ⟨_, _, hrun, ⟨htree, fun t ht => ?_, ?_, ?_⟩, fun v => ?_⟩
  · rw [honly t ht]
    exact (Nat.add_assoc _ _ _).le
  · change (s.pageTableBase + (s.pageTableSize + tableSize)) % tableSize = 0
    rw [← Nat.add_assoc, Nat.add_mod_right, h.aligned]
  · change s.pageTableBase + (s.pageTableSize + tableSize) ≤ 2 ^ 48
    omega
  · have hroot : childTable (slot (__initTableTo s.mem (s.pageTableBase + s.pageTableSize) 0x18 512)
        (s.pageTableBase + s.pageTableSize) (v / 2 ^ 39 % 512)) = none := by
      rw [hslot _ (Nat.mod_lt _ (by decide))]
      rfl
    simp only [translate, entryAt, tablePath, walk, hroot, Option.bind_none]

end InitMmMap

/-! ## Both copies -/

/-- A top table without entries. -/
structure EmptyTop (m : Mem) (root : Nat) : Prop where
  aligned : root % tableSize = 0
  fits : root + tableSize ≤ 2 ^ 64
  empty : ∀ i < 512, slot m root i &&& pagingMaskP = 0

theorem EmptyTop.tree {m : Mem} {root : Nat} (h : EmptyTop m root) :
    PageTree m root ∧ ∀ v, translate m root v = none := by
  have hnone : ∀ i, i < 512 → childTable (slot m root i) = none := fun i hi => if_pos (h.empty i hi)
  refine ⟨(tableTree_single ⟨h.aligned, h.fits⟩ hnone).1, fun v => ?_⟩
  have hroot : childTable (slot m root (v / 2 ^ 39 % 512)) = none := hnone _ (Nat.mod_lt _ (by decide))
  simp only [translate, lookup, tablePath, walk, hroot, Option.bind_none]

/--
For every virtual address: both copies of `__query_mapping` answer the same on tables that are
found at both addresses; and the tables that `init_mm_map.c` builds from a new top table answer
the same as those that `paging.c` builds from an empty one for the same requests.
-/
theorem initMmMap_agrees (v : Nat) :
    (∀ m root root' calls, Mirrored m root root' → queryMapping root' v ⟨m, calls⟩
      = (some (InitMmMap.__queryMapping m root v), ⟨m, calls⟩)) ∧
    ∀ (rs : List ChunkRequest) (b : InitMmMap.BootState) (pageAlloc : Mem → Nat × Mem) (m : Mem)
      (root : Nat), (∀ r ∈ rs, r.flag < 2 ^ 64) → InitMmMap.BootStart b →
      InitMmMap.AllLow (InitMmMap.buildTables rs b).2.pages → EmptyTop m root →
      AllFresh root (mapRequests pageAlloc root rs ⟨m, []⟩).2.calls →
      ∃ s, mapRequests pageAlloc root rs ⟨m, []⟩ = (some (), s) ∧ queryMapping root v s
        = (some (InitMmMap.__queryMapping (InitMmMap.buildTables rs b).2.mem
          (InitMmMap.buildTables rs b).1 v), s) := by
  refine ⟨fun m root root' calls h => queryMapping_agree h v calls, ?_⟩
  intro rs b pageAlloc m root hflag hb hlow htop hfresh
  obtain ⟨htree, hnone⟩ := htop.tree
  obtain ⟨s, hrun, htree', htrans⟩ := mapRequests_spec rs ⟨m, []⟩ hflag htree hfresh
  unfold InitMmMap.buildTables at hlow ⊢
  obtain ⟨top, b1, hnew, htop1, hnone1⟩ := InitMmMap.newPlm4e_spec hb
    (hlow.ofPrefix (InitMmMap.pages_bind (fun _ =>
      InitMmMap.grows_bind (InitMmMap.grows_mapRequests rs) fun _ _ => List.prefix_rfl) b))
  rw [InitMmMap.bind_eq hnew] at hlow ⊢
  obtain ⟨b2, hboot, htop2, htrans2⟩ := InitMmMap.mapRequests_spec rs b1 hflag htop1
    (hlow.ofPrefix List.prefix_rfl)
  rw [InitMmMap.bind_eq hboot]
  refine ⟨s, hrun, ?_⟩
  have hstart : translate m root = InitMmMap.translate b1.mem top :=
    funext fun w => by rw [hnone, hnone1]
  change _ = (some (InitMmMap.__queryMapping b2.mem top v), s)
  rw [queryMapping_eq htree', htrans, InitMmMap.queryMapping_eq htop2.tree, htrans2, hstart]

/--
Memory whose bytes are all 1 has one and the same table everywhere; and page 0 is mapped to
physical page 0x5000 with three pages from `page_alloc` and with four from 0x100000 on.
-/
theorem initMmMap_agrees_page :
    queryMapping (phyMapBase + 0x1000) 0 ⟨fun _ => 1, []⟩
      = (some (InitMmMap.__queryMapping (fun _ => 1) 0x1000 0), ⟨fun _ => 1, []⟩) ∧
    ∃ s, mapRequests threePages emptyRoot [⟨0, 0x5000, 1, 0x7⟩] ⟨fun _ => 0, []⟩ = (some (), s) ∧
      queryMapping emptyRoot 0 s = (some (InitMmMap.__queryMapping
        (InitMmMap.buildTables [⟨0, 0x5000, 1, 0x7⟩] ⟨fun _ => 0, 0x100000, 0, []⟩).2.mem
        (InitMmMap.buildTables [⟨0, 0x5000, 1, 0x7⟩] ⟨fun _ => 0, 0x100000, 0, []⟩).1 0), s) := by
  obtain ⟨hquery, hbuild⟩ := initMmMap_agrees 0
  have hsame : ∀ t t', SameTable (fun _ => 1) t t' := by
    intro t t' i _
    unfold Mem.load64
    exact Mem.load_shift fun _ _ => rfl
  refine ⟨hquery _ _ _ _ ⟨hsame _ _, fun _ _ _ _ => hsame _ _⟩, ?_⟩
  have hlow : InitMmMap.AllLow (InitMmMap.buildTables [⟨0, 0x5000, 1, 0x7⟩]
      ⟨fun _ => 0, 0x100000, 0, []⟩).2.pages := by
    unfold InitMmMap.AllLow
    decide +kernel
  refine hbuild _ _ _ _ _ (by decide) ⟨by decide, by decide⟩ hlow
    ⟨by decide, by decide, fun i _ => ?_⟩ ?_
  · have hz : slot (fun _ => 0) emptyRoot i = 0 := by
      unfold slot Mem.load64
      simp [Mem.load]
    rw [hz]
    rfl
  · rw [mapRequests, calls_bind_silent fun _ _ => rfl]
    exact threePages_fresh

end Raincloud
