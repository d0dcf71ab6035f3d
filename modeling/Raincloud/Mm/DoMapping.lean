import Raincloud.Arch.ChunkEffect
import Raincloud.Mm.MapRing

/-!
# `vm_map_do_mapping`

The loop maps the chunks of a map one after another. A page that several entries have gets its
translation from the last of them, and a page that none has keeps its own. The assertion on the
end of a chunk is about a 64-bit sum: a chunk that wraps round passes it and reaches the pages
of the kernel.
-/

set_option linter.style.nameCheck false

namespace Raincloud

open Infra Infra.LinkStore Kernel

variable {e : Env} {s s' : KernelState} {map : Ptr} {ns : List Ptr} {u : Unit} {v : Nat}
  {x : VmMapEntry} {xs : List VmMapEntry} {tr : Nat → Option (Nat × Nat)}

/-! ## The pages of entries -/

/-- The entry has the page of `v`: it is among the `page_nums` pages from `virt_addr` on. -/
def VmMapEntry.Covers (x : VmMapEntry) (v : Nat) : Prop := pageOffset x.virtAddr v < x.pageNums

instance (x : VmMapEntry) (v : Nat) : Decidable (x.Covers v) :=
  Nat.decLt _ _

/-- The physical page and the flags that an entry asks for. -/
def VmMapEntry.target (x : VmMapEntry) (v : Nat) : Nat × Nat :=
  (add64 x.phyAddr (pageOffset x.virtAddr v * 4096), x.flags)

/-- The last entry that has the page of `v`. -/
def lastEntry? (xs : List VmMapEntry) (v : Nat) : Option VmMapEntry :=
  xs.reverse.find? fun x => x.Covers v

/-- The translation after the entries are mapped. -/
def mapEntries (xs : List VmMapEntry) (tr : Nat → Option (Nat × Nat)) (v : Nat) :
    Option (Nat × Nat) :=
  match lastEntry? xs v with
  | some x => some (x.target v)
  | none => tr v

theorem lastEntry?_concat (xs : List VmMapEntry) (x : VmMapEntry) (v : Nat) :
    lastEntry? (xs ++ [x]) v = if x.Covers v then some x else lastEntry? xs v := by
  unfold lastEntry?
  rw [List.reverse_append, List.reverse_singleton, List.singleton_append]
  by_cases h : x.Covers v
  · rw [if_pos h]
    exact List.find?_cons_of_pos (decide_eq_true h)
  · rw [if_neg h]
    exact List.find?_cons_of_neg fun hc => h (of_decide_eq_true hc)

theorem mapEntries_concat (xs : List VmMapEntry) (x : VmMapEntry) (v : Nat) :
    mapEntries (xs ++ [x]) tr v
      = if x.Covers v then some (x.target v) else mapEntries xs tr v := by
  unfold mapEntries
  rw [lastEntry?_concat]
  by_cases h : x.Covers v
  · rw [if_pos h, if_pos h]
  · rw [if_neg h, if_neg h]

/-! ## The loop -/

/-- A round of the loop. -/
def vmMapDoMappingRound (it : ListRef) : Kernel Unit := do
  let vmMap ← listEntry it.vmMap?
  let entry ← Program.gets fun s => s.entries (s.mapEntry vmMap)
  Program.check (vmMap ≠ NULL) .halted
  Program.check (entry.flags &&& pagingMaskAddr = 0) .halted
  Program.check (add64 entry.virtAddr (shl64 entry.pageNums 12) ≤ 0x0000800000000000) .halted
  let _ ← mapChunk entry

theorem vmMapDoMapping_eq (map : Ptr) :
    vmMapDoMapping map = listForEach (.vmMapNode map) vmMapDoMappingRound := rfl

/-- A round that returns has passed the assertions and mapped the chunk. -/
theorem vmMapDoMappingRound_ok {n : Ptr}
    (hrun : vmMapDoMappingRound (.vmMapNode n) e s = .ok (u, s')) :
    ∃ r p, modifyChunkMapping (e.pageAlloc 1) s.plm4e (entryOf s n).virtAddr (entryOf s n).phyAddr
        (entryOf s n).pageNums (entryOf s n).flags s.paging = (some r, p) ∧
      s' = { s with paging := p } := by
  rw [vmMapDoMappingRound, show listEntry (ListRef.vmMapNode n).vmMap? = pure n from rfl,
    Program.bind_of_ok Program.pure_apply, Program.bind_of_ok Program.gets_apply] at hrun
  obtain ⟨w, s₁, hcheck, hrun⟩ := Program.bind_ok.mp hrun
  obtain ⟨-, rfl⟩ := Program.check_ok.mp hcheck
  obtain ⟨w, s₁, hcheck, hrun⟩ := Program.bind_ok.mp hrun
  obtain ⟨-, rfl⟩ := Program.check_ok.mp hcheck
  obtain ⟨w, s₁, hcheck, hrun⟩ := Program.bind_ok.mp hrun
  obtain ⟨-, rfl⟩ := Program.check_ok.mp hcheck
  obtain ⟨r, s₂, hmap, hrun⟩ := Program.bind_ok.mp hrun
  cases hrun
  unfold mapChunk onPaging at hmap
  split at hmap
  · rename_i r p hchunk
    cases hmap
    exact ⟨r, p, hchunk, rfl⟩
  · cases hmap

/-- What the rounds leave: page tables in which the entries so far are mapped. -/
structure EntriesMapped (s : KernelState) (xs : List VmMapEntry) (p : PagingState) : Prop where
  tree : PageTree p.mem s.plm4e
  translate : ∀ v, translate p.mem s.plm4e v = mapEntries xs (translate s.paging.mem s.plm4e) v

/-- Only the page tables have changed; if all tables were fresh, the entries are mapped. -/
def DoMappingInv (s₀ : KernelState) (ns : List Ptr) (done : List ListRef) (s : KernelState) :
    Prop :=
  ∃ ks rest p, done = ks.map ListRef.vmMapNode ∧ ns = ks ++ rest ∧ s = { s₀ with paging := p } ∧
    s₀.paging.calls <+: p.calls ∧
    (PageTree s₀.paging.mem s₀.plm4e → AllFresh s₀.plm4e p.calls →
      EntriesMapped s₀ (ks.map (entryOf s₀)) p)

theorem doMapping_loopInv (h : Ring s (.vmMapNode map) (ns.map .vmMapNode))
    (hflags : ∀ n ∈ ns, (entryOf s n).flags < 2 ^ 64) :
    LoopInv e (.vmMapNode map) (ns.map .vmMapNode) vmMapDoMappingRound (DoMappingInv s ns) where
  ring := by
    rintro _ _ ⟨ks, rest, p, -, -, rfl, -⟩
    exact h.congr fun _ _ => ⟨rfl, rfl⟩
  step := by
    rintro _ r tail _ s' heq ⟨ks, rest, p, rfl, hns, rfl, hcalls, hmapped⟩ hrun
    obtain ⟨k, rest', rfl, rfl⟩ := exists_node rfl hns heq
    obtain ⟨r, p', hchunk, rfl⟩ := vmMapDoMappingRound_ok hrun
    have hgrows := modifyChunkMapping_grows hchunk
    refine ⟨ks ++ [k], rest', p', by simp, by simp [hns], rfl, hcalls.trans hgrows,
      fun htree hfresh => ?_⟩
    have hm := hmapped htree (hfresh.ofAppend hgrows)
    have hk : k ∈ ns := by simp [hns]
    obtain ⟨htree', htrans⟩ := modifyChunkMapping_ok (hflags k hk) hm.tree hchunk hfresh
    refine ⟨htree', fun v => ?_⟩
    rw [htrans, hm.translate, List.map_append, List.map_singleton, mapEntries_concat]
    rfl

/-- `vm_map_do_mapping`, when it returns: only the page tables have changed. -/
theorem vmMapDoMapping_ok (h : Ring s (.vmMapNode map) (ns.map .vmMapNode))
    (hflags : ∀ n ∈ ns, (entryOf s n).flags < 2 ^ 64)
    (hrun : vmMapDoMapping map e s = .ok (u, s')) :
    ∃ p, s' = { s with paging := p } ∧ s.paging.calls <+: p.calls ∧
      (PageTree s.paging.mem s.plm4e → AllFresh s.plm4e p.calls →
        EntriesMapped s (ns.map (entryOf s)) p) := by
  rw [vmMapDoMapping_eq] at hrun
  have hinit : DoMappingInv s ns [] s :=
    ⟨[], ns, s.paging, rfl, rfl, rfl, List.prefix_rfl, fun htree _ => ⟨htree, fun _ => rfl⟩⟩
  obtain ⟨ks, rest, p, hks, -, rfl, hcalls, hmapped⟩ :=
    (doMapping_loopInv h hflags).ok hinit hrun
  obtain rfl : ns = ks := List.map_injective_iff.mpr (fun _ _ => ListRef.vmMapNode.inj) hks
  exact ⟨p, rfl, hcalls, hmapped⟩

/-! ## The pages of the kernel -/

/-- A page at or above 0x0000800000000000, of the 2^36 pages that the tables tell apart. -/
def KernelPage (v : Nat) : Prop := 0x0000800000000000 ≤ v % 2 ^ 48

/-- What `query_mapping` returns for a page in a state of the kernel. -/
def queryOf (s : KernelState) (v : Nat) : Option (Option (Nat × Nat)) :=
  (queryMapping s.plm4e v s.paging).1

/-- Every kernel page that entries have is translated already as the last of them asks. -/
def KernelPagesKept (s : KernelState) (xs : List VmMapEntry) : Prop :=
  ∀ v, KernelPage v → ∀ x, lastEntry? xs v = some x → queryOf s v = some (some (x.target v))

theorem queryOf_eq (h : PageTree s.paging.mem s.plm4e) (v : Nat) :
    queryOf s v = some (translate s.paging.mem s.plm4e v) := by
  rw [queryOf, queryMapping_eq h]

/--
Mapping a map leaves the translation of every kernel page as it was if and only if each of those
pages that an entry has is translated already as the last entry that has it asks.
-/
theorem vmMapDoMapping_kernel_iff (h : MapOf s map ns)
    (hflags : ∀ n ∈ ns, (entryOf s n).flags < 2 ^ 64) (htree : PageTree s.paging.mem s.plm4e)
    (hrun : vmMapDoMapping map e s = .ok (u, s')) (hfresh : AllFresh s.plm4e s'.paging.calls) :
    (∀ v, KernelPage v → queryOf s' v = queryOf s v) ↔
      KernelPagesKept s (ns.map (entryOf s)) := by
  obtain ⟨p, rfl, -, hmapped⟩ := vmMapDoMapping_ok h.ring hflags hrun
  have hm := hmapped htree hfresh
  have hafter : ∀ v, queryOf { s with paging := p } v
      = some (mapEntries (ns.map (entryOf s)) (translate s.paging.mem s.plm4e) v) := fun v => by
    rw [queryOf_eq (s := { s with paging := p }) hm.tree]
    exact congrArg some (hm.translate v)
  constructor
  · intro hsame v hv x hx
    rw [← hsame v hv, hafter, mapEntries, hx]
  · intro hkept v hv
    rw [hafter, mapEntries]
    cases hx : lastEntry? (ns.map (entryOf s)) v with
    | none => exact (queryOf_eq htree v).symm
    | some x => exact (hkept v hv x hx).symm

/-! ## Entries that do not wrap round -/

theorem kernelPage_iff (v : Nat) : KernelPage v ↔ 2 ^ 35 ≤ pageNumber v := by
  unfold KernelPage pageNumber
  omega

/-- The end of the entry, not taken round 2^64, is not above the pages of processes. -/
def VmMapEntry.Low (x : VmMapEntry) : Prop := x.virtAddr + x.pageNums * 4096 ≤ 0x0000800000000000

theorem VmMapEntry.Low.not_covers (h : x.Low) (hv : KernelPage v) : ¬x.Covers v := by
  rw [kernelPage_iff] at hv
  intro hc
  have hpage := pageNumber_add_pageOffset x.virtAddr v
  have hvirt : pageNumber x.virtAddr = x.virtAddr / 4096 % 2 ^ 36 := rfl
  unfold VmMapEntry.Low at h
  unfold VmMapEntry.Covers at hc
  omega

theorem lastEntry?_mem (h : lastEntry? xs v = some x) : x ∈ xs ∧ x.Covers v := by
  obtain ⟨hc, hmem⟩ := And.intro (List.find?_some h) (List.mem_of_find?_eq_some h)
  exact ⟨List.mem_reverse.mp hmem, of_decide_eq_true hc⟩

/-- Entries that do not wrap round leave the pages of the kernel alone. -/
theorem kernelPagesKept_of_low (h : ∀ x ∈ xs, x.Low) : KernelPagesKept s xs := by
  intro v hv x hx
  obtain ⟨hmem, hc⟩ := lastEntry?_mem hx
  exact absurd hc ((h x hmem).not_covers hv)

/-! ## One page -/

/-- No page is ever given out. -/
def noPagesEnv : Env where
  malloc _ := NULL
  pageAlloc _ m := (0, m)
  readFile _ _ m := m

/-- Blocks for a map, a node and the entry `x`, and tables for one path of indices. -/
def entryState (i : Nat) (x : VmMapEntry) : KernelState :=
  { bootState with
    entries := fun _ => x
    paging := ⟨tablesAt i, []⟩
    live := [1, 2, 3] }

/-- The map at 1, with the entry at 3 behind the node at 2. -/
def entryMapped (i : Nat) (x : VmMapEntry) : KernelState :=
  vmMapLink 1 2 3 (vmMapInit 1 (entryState i x))

theorem mapOf_entryMapped (i : Nat) (x : VmMapEntry) : MapOf (entryMapped i x) 1 [2] := by
  have hlive : ∀ p ∈ [1, 2, 3], p ∈ (vmMapInit 1 (entryState i x)).live := fun _ hp => hp
  have hmap : MapOf (vmMapInit 1 (entryState i x)) 1 [] := vmMapInit_mapOf (hlive 1 (by decide))
  exact vmMapLink_mapOf hmap (by decide) (hlive 2 (by decide)) (hlive 3 (by decide))

/-- The first page there is, and the last one. -/
def firstPage : VmMapEntry := ⟨0, 0x5000, 1, 0x7, 1⟩

def lastPage : VmMapEntry := ⟨0xfffffffffffff000, 0x5000, 1, 0x7, 1⟩

theorem vmMapDoMapping_firstPage :
    ∃ s', vmMapDoMapping 1 noPagesEnv (entryMapped 0 firstPage) = .ok ((), s') ∧
      ∀ v, KernelPage v → queryOf s' v = queryOf (entryMapped 0 firstPage) v := by
  have hok : (match vmMapDoMapping 1 noPagesEnv (entryMapped 0 firstPage) with
      | .ok (_, s') => s'.paging.calls.isEmpty
      | .error _ => false) = true := by decide +kernel
  cases hrun : vmMapDoMapping 1 noPagesEnv (entryMapped 0 firstPage) with
  | error err =>
    rw [hrun] at hok
    cases hok
  | ok r =>
    rw [hrun] at hok
    have hcalls : r.2.paging.calls = [] := List.isEmpty_iff.mp hok
    have hflags : ∀ n ∈ [2], (entryOf (entryMapped 0 firstPage) n).flags < 2 ^ 64 :=
      fun _ _ => show 0x7 < 2 ^ 64 by decide
    have hfresh : AllFresh (entryMapped 0 firstPage).plm4e r.2.paging.calls := by
      rw [hcalls]
      exact fun c hc => absurd hc List.not_mem_nil
    have hlow : ∀ x ∈ [2].map (entryOf (entryMapped 0 firstPage)), x.Low := fun x hx => by
      obtain rfl := List.mem_singleton.mp hx
      exact show 0 + 1 * 4096 ≤ 0x0000800000000000 by decide
    exact ⟨r.2, rfl, (vmMapDoMapping_kernel_iff (mapOf_entryMapped 0 firstPage) hflags
      (tablesAt_tree (by decide)).1 hrun hfresh).mpr (kernelPagesKept_of_low hlow)⟩

/-- The last page of the kernel: 0xfffffffffffff000 + 0x1000 is 0, so the assertion passes. -/
theorem vmMapDoMapping_lastPage :
    ∃ s', vmMapDoMapping 1 noPagesEnv (entryMapped 511 lastPage) = .ok ((), s') ∧
      s'.paging.calls = [] ∧ KernelPage lastPage.virtAddr ∧
      queryOf (entryMapped 511 lastPage) lastPage.virtAddr = some none ∧
      queryOf s' lastPage.virtAddr = some (some (0x5000, 0x7)) := by
  have hok : (match vmMapDoMapping 1 noPagesEnv (entryMapped 511 lastPage) with
      | .ok (_, s') => s'.paging.calls.isEmpty &&
        queryOf s' lastPage.virtAddr == some (some (0x5000, 0x7))
      | .error _ => false) = true := by decide +kernel
  cases hrun : vmMapDoMapping 1 noPagesEnv (entryMapped 511 lastPage) with
  | error err =>
    rw [hrun] at hok
    cases hok
  | ok r =>
    rw [hrun, Bool.and_eq_true] at hok
    obtain ⟨hcalls, hquery⟩ := hok
    exact ⟨r.2, rfl, List.isEmpty_iff.mp hcalls, by unfold KernelPage; decide,
      by decide +kernel, eq_of_beq hquery⟩

end Raincloud
