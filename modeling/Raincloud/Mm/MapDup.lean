import Raincloud.Arch.PageExact
import Raincloud.Arch.PageSource
import Raincloud.Mm.MapRing

/-!
# `vm_map_dup`

Each round takes an entry block, pages and a node, copies the pages of one entry and adds the
copy to the new map. All that it takes is fresh, so the copies do not overlap each other or
anything of the old map.
-/

set_option linter.style.nameCheck false

namespace Raincloud

open Infra Infra.LinkStore Kernel

variable {e : Env} {s s' s₀ : KernelState} {new old k : Ptr} {ns cs done : List Ptr} {u : Unit}

/-- A round of the loop. -/
def vmMapDupRound (newVmMap : Ptr) (it : ListRef) : Kernel Unit := do
  let oldVmMap ← listEntry it.vmMap?
  let oldEntry ← Program.gets fun s => s.mapEntry oldVmMap
  Program.check (oldEntry ≠ NULL) .halted
  let newEntry ← Kernel.malloc
  vmMapEntryDup newEntry oldEntry
  let _ ← vmMapAdd newVmMap newEntry

theorem vmMapDup_eq (new old : Ptr) : vmMapDup new old = (do
    Program.modify (vmMapInit new)
    listForEach (.vmMapNode old) (vmMapDupRound new)) := rfl

/-! ## One round -/

/-- A round up to `vm_map_add`: the new entry `y`, its pages copied, and the block `n`. -/
def dupCopied (e : Env) (s : KernelState) (k y n dest src : Ptr) : KernelState :=
  let o := entryOf s k
  let r := e.pageAlloc o.pageNums s.paging.mem
  { s with
    live := n :: y :: s.live
    entries := Function.update s.entries y ⟨o.virtAddr, r.1, o.pageNums, o.flags, 1⟩
    paging := { s.paging with mem := memcpy r.2 dest src (shl64 o.pageNums 12) } }

/-- The state after a round: `n` is the new node. -/
def dupState (e : Env) (s : KernelState) (new k y n dest src : Ptr) : KernelState :=
  vmMapLink new n y (dupCopied e s k y n dest src)

/-- What a round takes. -/
structure DupTakes (e : Env) (s : KernelState) (k y n dest src : Ptr) : Prop where
  entry : y ∉ s.live ∧ 0 < y ∧ y < 2 ^ 64
  node : n ∉ s.live ∧ 0 < n ∧ n < 2 ^ 64
  apart : n ≠ y
  dest : convertPhyToVirt (e.pageAlloc (entryOf s k).pageNums s.paging.mem).1 = some dest
  src : convertPhyToVirt (entryOf s k).phyAddr = some src

/-- `memcpy` between two physical addresses of the direct map. -/
theorem copyPages_ok {a b n : Nat} (hrun : copyPages a b n e s = .ok (u, s')) :
    ∃ dest src, convertPhyToVirt a = some dest ∧ convertPhyToVirt b = some src ∧
      s' = { s with paging :=
        { s.paging with mem := memcpy s.paging.mem dest src (shl64 n 12) } } := by
  unfold copyPages at hrun
  cases ha : convertPhyToVirt a with
  | none =>
    simp only [ha] at hrun
    cases hrun
  | some dest =>
    cases hb : convertPhyToVirt b with
    | none =>
      simp only [ha, hb] at hrun
      cases hrun
    | some src =>
      simp only [ha, hb] at hrun
      cases hrun
      exact ⟨dest, src, rfl, rfl, rfl⟩

/-- A round that returns. -/
theorem vmMapDupRound_ok (he : e.MallocSucceeds)
    (hrun : vmMapDupRound new (.vmMapNode k) e s = .ok (u, s')) :
    ∃ y n dest src, DupTakes e s k y n dest src ∧ s' = dupState e s new k y n dest src := by
  rw [vmMapDupRound, show listEntry (ListRef.vmMapNode k).vmMap? = pure k from rfl,
    Program.bind_of_ok Program.pure_apply, Program.bind_of_ok Program.gets_apply] at hrun
  obtain ⟨v, s₁, hcheck, hrun⟩ := Program.bind_ok.mp hrun
  obtain ⟨-, rfl⟩ := Program.check_ok.mp hcheck
  obtain ⟨y, s₂, hm, hrun⟩ := Program.bind_ok.mp hrun
  obtain ⟨hy, hypos, hylt, rfl⟩ := malloc_ok he hm
  obtain ⟨v, s₃, hdup, hrun⟩ := Program.bind_ok.mp hrun
  rw [vmMapEntryDup, Program.bind_of_ok Program.gets_apply] at hdup
  obtain ⟨a, s₄, halloc, hdup⟩ := Program.bind_ok.mp hdup
  cases halloc
  obtain ⟨v, s₅, hcopy, hdup⟩ := Program.bind_ok.mp hdup
  obtain ⟨dest, src, hdest, hsrc, rfl⟩ := copyPages_ok hcopy
  cases hdup
  obtain ⟨r, s₆, hadd, hrun⟩ := Program.bind_ok.mp hrun
  cases hrun
  obtain ⟨n, -, hn, hnpos, hnlt, rfl⟩ := vmMapAdd_ok he hadd
  have hn' : n ∉ y :: s₁.live := hn
  rw [List.mem_cons, not_or] at hn'
  exact ⟨y, n, dest, src, ⟨⟨hy, hypos, hylt⟩, ⟨hn'.2, hnpos, hnlt⟩, hn'.1, hdest, hsrc⟩, rfl⟩

/-! ## The lists -/

/-- An entry like another one, but for its pages. -/
structure VmMapEntry.Copies (x y : VmMapEntry) : Prop where
  virtAddr : y.virtAddr = x.virtAddr
  pageNums : y.pageNums = x.pageNums
  flags : y.flags = x.flags
  refs : y.refs = 1

/-- The lists when the nodes `done` of `ns` are copied to `cs`. -/
structure DupShape (s₀ : KernelState) (new old : Ptr) (ns done : List Ptr) (s : KernelState)
    (cs : List Ptr) : Prop where
  heap : s.HeapOk
  old : MapOf s old ns
  new : MapOf s new cs
  live : ∀ p ∈ s₀.live, p ∈ s.live
  entries : ∀ p ∈ s₀.live, s.entries p = s₀.entries p
  mapEntry : ∀ n ∈ ns, s.mapEntry n = s₀.mapEntry n
  nodes : ∀ c ∈ cs, c ∉ s₀.live
  copies : List.Forall₂ (fun n c => (entryOf s₀ n).Copies (entryOf s c)) done cs
  blocks : ∀ c ∈ cs, s.mapEntry c ∉ s₀.live ∧ s.mapEntry c ∉ cs

theorem forall₂_imp_mem {α β : Type} {R S : α → β → Prop} {l : List α} {l' : List β}
    (h : List.Forall₂ R l l') (hRS : ∀ a b, a ∈ l → b ∈ l' → R a b → S a b) :
    List.Forall₂ S l l' := by
  induction h with
  | nil => exact .nil
  | cons hab _ ih =>
    exact .cons (hRS _ _ List.mem_cons_self List.mem_cons_self hab) (ih fun a b ha hb =>
      hRS a b (List.mem_cons_of_mem _ ha) (List.mem_cons_of_mem _ hb))

theorem forall₂_and {α β : Type} {R S T : α → β → Prop} {l : List α} {l' : List β}
    (h : List.Forall₂ R l l') (h' : List.Forall₂ S l l') (hT : ∀ a b, R a b → S a b → T a b) :
    List.Forall₂ T l l' := by
  induction h with
  | nil => exact .nil
  | cons hab _ ih =>
    cases h' with
    | cons hab' h' => exact .cons (hT _ _ hab hab') (ih h')

theorem DupShape.init (h : MapOf s old ns) (hheap : s.HeapOk) (hnew : new ∈ s.live)
    (hne : new ∉ old :: ns) : DupShape s new old ns [] (vmMapInit new s) [] where
  heap := ⟨hheap.nodup, hheap.range⟩
  old := h.keep (vmMapInit_sameMap h hne)
  new := vmMapInit_mapOf hnew
  live _ := id
  entries _ _ := rfl
  mapEntry := (vmMapInit_sameMap h hne).mapEntry
  nodes _ hc := absurd hc List.not_mem_nil
  copies := .nil
  blocks _ hc := absurd hc List.not_mem_nil

/-- The nodes of the two maps are different ones. -/
theorem DupShape.apart (h : DupShape s₀ new old ns done s cs) (h₀ : MapOf s₀ old ns)
    (hne : new ∉ old :: ns) : ∀ c ∈ new :: cs, c ∉ old :: ns := fun c hc hin => by
  rcases List.mem_cons.mp hc with rfl | hc
  · exact hne hin
  · exact h.nodes c hc (h₀.live c hin)

/-- The entry behind a node, after a round. -/
theorem dupState_entryOf {y n dest src c : Ptr} (hy : s.mapEntry c ≠ y) (hn : c ≠ n) :
    entryOf (dupState e s new k y n dest src) c = entryOf s c := by
  show Function.update s.entries y _ (Function.update s.mapEntry n y c) = _
  rw [Function.update_of_ne hn, Function.update_of_ne hy]
  rfl

theorem dupState_entryOf_new {y n dest src : Ptr} :
    entryOf (dupState e s new k y n dest src) n = ⟨(entryOf s k).virtAddr,
      (e.pageAlloc (entryOf s k).pageNums s.paging.mem).1, (entryOf s k).pageNums,
      (entryOf s k).flags, 1⟩ := by
  show Function.update s.entries y _ (Function.update s.mapEntry n y n) = _
  rw [Function.update_self, Function.update_self]

theorem DupShape.entryOf_old (h : DupShape s₀ new old ns done s cs) (h₀ : MapOf s₀ old ns)
    {n : Ptr} (hn : n ∈ ns) : entryOf s n = entryOf s₀ n := by
  rw [entryOf, h.mapEntry n hn]
  exact h.entries _ (h₀.entries n hn)

theorem DupShape.round {y n dest src : Ptr} (h : DupShape s₀ new old ns done s cs)
    (h₀ : MapOf s₀ old ns) (hne : new ∉ old :: ns) (hk : k ∈ ns)
    (ht : DupTakes e s k y n dest src) :
    DupShape s₀ new old ns (done ++ [k]) (dupState e s new k y n dest src) (cs ++ [n]) := by
  obtain ⟨hy, hypos, hylt⟩ := ht.entry
  obtain ⟨hn, hnpos, hnlt⟩ := ht.node
  have hlive : (dupState e s new k y n dest src).live = n :: y :: s.live := rfl
  -- up to the link nothing of the two lists changes
  have hkeep : ∀ {m : Ptr} {ms : List Ptr}, MapOf s m ms →
      MapOf (dupCopied e s k y n dest src) m ms := fun hm =>
    hm.keep ⟨fun _ _ => ⟨rfl, rfl⟩, fun _ _ => rfl, fun _ hp =>
      List.mem_cons_of_mem _ (List.mem_cons_of_mem _ (hm.alive hp))⟩
  have hnnew : n ∉ new :: cs := fun hin => hn (h.new.live n hin)
  have hnold : n ∉ old :: ns := fun hin => hn (h.old.live n hin)
  have hmapNew : MapOf (dupState e s new k y n dest src) new (cs ++ [n]) :=
    vmMapLink_mapOf (hkeep h.new) hnnew (by simp [dupCopied]) (by simp [dupCopied])
  have hmapOld : MapOf (dupState e s new k y n dest src) old ns :=
    (hkeep h.old).keep (vmMapLink_sameMap (hkeep h.new) (hkeep h.old) hnold (h.apart h₀ hne))
  have hentry : ∀ c ∈ cs, s.mapEntry c ≠ y ∧ c ≠ n := fun c hc =>
    ⟨fun he => hy (he ▸ h.new.entries c hc), fun he => hnnew (he ▸ List.mem_cons_of_mem _ hc)⟩
  have hmap : ∀ c ∈ cs, (dupState e s new k y n dest src).mapEntry c = s.mapEntry c :=
    fun c hc => Function.update_of_ne (hentry c hc).2 _ _
  have hmapn : (dupState e s new k y n dest src).mapEntry n = y := Function.update_self ..
  refine ⟨?_, hmapOld, hmapNew, fun p hp => ?_, fun p hp => ?_, fun c hc => ?_, fun c hc => ?_,
    ?_, fun c hc => ?_⟩
  · have h₁ : ({ s with live := y :: s.live } : KernelState).HeapOk :=
      h.heap.cons hy hypos hylt rfl
    refine h₁.cons (p := n) ?_ hnpos hnlt hlive
    show n ∉ y :: s.live
    rw [List.mem_cons, not_or]
    exact ⟨ht.apart, hn⟩
  · rw [hlive]
    exact List.mem_cons_of_mem _ (List.mem_cons_of_mem _ (h.live p hp))
  · show Function.update s.entries y _ p = _
    have hpy : p ≠ y := fun he => hy (he ▸ h.live p hp)
    rw [Function.update_of_ne hpy, h.entries p hp]
  · show Function.update s.mapEntry n y c = _
    have hcn : c ≠ n := fun he => hnold (he ▸ List.mem_cons_of_mem _ hc)
    rw [Function.update_of_ne hcn, h.mapEntry c hc]
  · rcases List.mem_append.mp hc with hc | hc
    · exact h.nodes c hc
    · rw [List.mem_singleton.mp hc]
      exact fun hin => hn (h.live n hin)
  · refine List.rel_append ?_ ?_
    · refine forall₂_imp_mem h.copies fun n' c _ hc hcopy => ?_
      rwa [dupState_entryOf (hentry c hc).1 (hentry c hc).2]
    · refine .cons ?_ .nil
      rw [dupState_entryOf_new, ← h.entryOf_old h₀ hk]
      exact ⟨rfl, rfl, rfl, rfl⟩
  · rcases List.mem_append.mp hc with hc | hc
    · rw [hmap c hc, List.mem_append, List.mem_singleton, not_or]
      have hb := h.blocks c hc
      exact ⟨hb.1, hb.2, fun he => hn (he ▸ h.new.entries c hc)⟩
    · rw [List.mem_singleton.mp hc, hmapn, List.mem_append, List.mem_singleton, not_or]
      exact ⟨fun hin => hy (h.live y hin), fun hin => hy (h.new.live y (List.mem_cons_of_mem _ hin)),
        Ne.symm ht.apart⟩

/-! ## The pages -/

/-- The physical bytes of an entry. -/
def VmMapEntry.bytes (x : VmMapEntry) : Set Nat := rangeArea (x.phyAddr, x.pageNums * 4096)

/-- The pages of an entry are physical memory that the allocator does not have. -/
structure VmMapEntry.Held (F : Set Nat) (x : VmMapEntry) : Prop where
  fits : x.phyAddr + x.pageNums * 4096 ≤ phyMapSize
  held : Disjoint x.bytes F

variable {Owns : Mem → Set Nat → Prop} {F G : Set Nat}

/-- The pages when the nodes `done` are copied to `cs`; the allocator began with `F`. -/
structure DupPages (Owns : Mem → Set Nat → Prop) (F : Set Nat) (s₀ : KernelState)
    (done : List Ptr) (s : KernelState) (cs : List Ptr) : Prop where
  owns : ∃ G ⊆ F, Owns s.paging.mem G ∧ ∀ c ∈ cs, (entryOf s c).bytes ⊆ F \ G
  apart : cs.Pairwise fun c c' => Disjoint (entryOf s c).bytes (entryOf s c').bytes
  outside : ∀ x ∈ mappedOutside F, s.paging.mem x = s₀.paging.mem x
  bytes : List.Forall₂ (fun n c => ∀ i < (entryOf s c).pageNums * 4096,
    s.paging.mem ((entryOf s c).phyAddr + i + phyMapBase)
      = s₀.paging.mem ((entryOf s₀ n).phyAddr + i + phyMapBase)) done cs

/-- Ranges that do not meet are one behind the other. -/
theorem disjoint_ranges {a b n : Nat} (hn : 0 < n)
    (h : Disjoint (rangeArea (a, n)) (rangeArea (b, n))) : a + n ≤ b ∨ b + n ≤ a := by
  rw [Set.disjoint_left] at h
  by_contra hcon
  rcases le_total a b with hle | hle
  · exact h (a := b) ⟨hle, show b < a + n by omega⟩ ⟨le_rfl, show b < b + n by omega⟩
  · exact h (a := a) ⟨le_rfl, show a < a + n by omega⟩ ⟨hle, show a < b + n by omega⟩

/-- The pages that `page_alloc` gives and the bytes copied to them. -/
structure PageCopy (Owns : Mem → Set Nat → Prop) (G : Set Nat) (m m' : Mem) (a b n : Nat) :
    Prop where
  sub : rangeArea (a, n * 4096) ⊆ G
  owns : Owns m' (G \ rangeArea (a, n * 4096))
  frame : ∀ y < phyMapSize, y ∉ G → m' (y + phyMapBase) = m (y + phyMapBase)
  bytes : ∀ i < n * 4096, m' (a + i + phyMapBase) = m (b + i + phyMapBase)

/-- `page_alloc` and `memcpy`, from pages that the allocator does not have. -/
theorem PageSource.copy {pageAlloc : Nat → Mem → Nat × Mem} (h : PageSource pageAlloc Owns)
    {m : Mem} (ho : Owns m G) {b n dest src : Nat}
    (hdest : convertPhyToVirt (pageAlloc n m).1 = some dest)
    (hsrc : convertPhyToVirt b = some src) (hfits : b + n * 4096 ≤ phyMapSize)
    (hheld : Disjoint (rangeArea (b, n * 4096)) G) :
    PageCopy Owns G m (memcpy (pageAlloc n m).2 dest src (shl64 n 12)) (pageAlloc n m).1 b n := by
  have hne : (pageAlloc n m).1 ≠ invalidAddr := fun he => by
    rw [he] at hdest
    simp [convertPhyToVirt, invalidAddr, phyMapBase] at hdest
  obtain ⟨hpos, hafits⟩ := h.range_fits ho hne
  obtain ⟨hsub, howns⟩ := h.fresh n ho hne
  obtain ⟨a, ha⟩ : ∃ a, a = (pageAlloc n m).1 := ⟨_, rfl⟩
  obtain ⟨m₁, hm₁⟩ : ∃ m₁, m₁ = (pageAlloc n m).2 := ⟨_, rfl⟩
  rw [← ha] at hdest hafits hsub howns ⊢
  rw [← hm₁] at howns ⊢
  have hdest' : dest = a + phyMapBase := by
    rw [convertPhyToVirt_eq (by omega)] at hdest
    exact (Option.some.inj hdest).symm
  have hsrc' : src = b + phyMapBase := by
    rw [convertPhyToVirt_eq (by omega)] at hsrc
    exact (Option.some.inj hsrc).symm
  have hlen : shl64 n 12 = n * 4096 := by
    simp only [phyMapSize] at hafits
    rw [shl64_eq (by omega)]
    norm_num
  have hframe : ∀ y < phyMapSize, y ∉ G → m₁ (y + phyMapBase) = m (y + phyMapBase) :=
    fun y hy hG => by
      rw [hm₁]
      exact h.frame n ho _ ⟨y, hy, hG, rfl⟩
  have hout := Mem.copy_sameOutside (n * 4096) m₁ dest src
  rw [hlen, memcpy]
  refine ⟨hsub, h.keep howns (hout.mono fun x hx => ?_), fun y hy hG => ?_, fun i hi => ?_⟩
  · -- what is copied to is taken from the allocator
    have h1 := hx.1
    have h2 := hx.2
    refine ⟨x - phyMapBase, by omega, fun hin => hin.2 ⟨?_, ?_⟩, by omega⟩
    · show a ≤ x - phyMapBase
      omega
    · show x - phyMapBase < a + n * 4096
      omega
  · rw [hout _ fun hx => hG (hsub ⟨?_, ?_⟩), hframe y hy hG]
    · have := hx.1
      show a ≤ y
      omega
    · have := hx.2
      show y < a + n * 4096
      omega
  · have hbi : b + i ∉ G := fun hG => Set.disjoint_left.mp hheld
      (show b + i ∈ rangeArea (b, n * 4096) from ⟨Nat.le_add_right _ _, by
        show b + i < b + n * 4096
        omega⟩) hG
    have hapart := disjoint_ranges (Nat.mul_pos hpos (by decide : 0 < 4096))
      (hheld.symm.mono_left hsub)
    rw [Mem.copy_apply _ _ _ _ _ (by omega), if_pos (by omega), ← hframe (b + i) (by omega) hbi]
    congr 1
    omega

/-- The supply after the pages of a call are written. -/
theorem PageSource.supplies {pageAlloc : Nat → Mem → Nat × Mem} (h : PageSource pageAlloc Owns)
    {m : Mem} (ho : Owns m G) {n dest : Nat} {ks : List Nat} (hs : Supplies pageAlloc m (n :: ks))
    (hdest : convertPhyToVirt (pageAlloc n m).1 = some dest) (src : Nat) :
    Supplies pageAlloc (memcpy (pageAlloc n m).2 dest src (shl64 n 12)) ks := by
  obtain ⟨hne, hnext⟩ := hs
  have hfits := (h.range_fits ho hne).2
  have hpos := (h.range_fits ho hne).1
  rw [convertPhyToVirt_eq (by omega)] at hdest
  obtain rfl := Option.some.inj hdest
  have hlen : shl64 n 12 = n * 4096 := by
    simp only [phyMapSize] at hfits
    rw [shl64_eq (by omega)]
    norm_num
  rw [hlen]
  exact hnext _ (Mem.copy_sameOutside _ _ _ _)

theorem DupPages.init (h : Owns s.paging.mem F) : DupPages Owns F s [] (vmMapInit new s) [] where
  owns := ⟨F, subset_rfl, h, fun _ hc => absurd hc List.not_mem_nil⟩
  apart := .nil
  outside _ _ := rfl
  bytes := .nil

theorem DupPages.round {y n dest src : Ptr} (h : DupPages Owns F s₀ done s cs)
    (hshape : DupShape s₀ new old ns done s cs) (h₀ : MapOf s₀ old ns) (hk : k ∈ ns)
    (hsource : PageSource e.pageAlloc Owns) (hfits : ∀ y ∈ F, y < phyMapSize)
    (hheld : (entryOf s₀ k).Held F) (ht : DupTakes e s k y n dest src) :
    DupPages Owns F s₀ (done ++ [k]) (dupState e s new k y n dest src) (cs ++ [n]) := by
  obtain ⟨G, hG, howns, hin⟩ := h.owns
  have hold := hshape.entryOf_old h₀ hk
  rw [← hold] at hheld
  have hcopy : PageCopy Owns G s.paging.mem (dupState e s new k y n dest src).paging.mem _ _ _ :=
    hsource.copy howns ht.dest ht.src hheld.fits (hheld.held.mono_right hG)
  obtain ⟨m', hm'⟩ : ∃ m', m' = (dupState e s new k y n dest src).paging.mem := ⟨_, rfl⟩
  rw [← hm'] at hcopy
  -- the entries copied before
  have hentry : ∀ c ∈ cs, entryOf (dupState e s new k y n dest src) c = entryOf s c :=
    fun c hc => dupState_entryOf (fun he => ht.entry.1 (he ▸ hshape.new.entries c hc))
      fun he => ht.node.1 (he ▸ hshape.new.live c (List.mem_cons_of_mem _ hc))
  have hnew : entryOf (dupState e s new k y n dest src) n = ⟨(entryOf s k).virtAddr,
      (e.pageAlloc (entryOf s k).pageNums s.paging.mem).1, (entryOf s k).pageNums,
      (entryOf s k).flags, 1⟩ := dupState_entryOf_new
  have hnewBytes : (entryOf (dupState e s new k y n dest src) n).bytes
      = rangeArea ((e.pageAlloc (entryOf s k).pageNums s.paging.mem).1,
        (entryOf s k).pageNums * 4096) := by
    rw [hnew]
    rfl
  refine ⟨⟨G \ rangeArea ((e.pageAlloc (entryOf s k).pageNums s.paging.mem).1,
    (entryOf s k).pageNums * 4096), Set.sdiff_subset.trans hG, ?_, fun c hc => ?_⟩, ?_,
    fun x hx => ?_, ?_⟩
  · rw [← hm']
    exact hcopy.owns
  · rcases List.mem_append.mp hc with hc | hc
    · rw [hentry c hc]
      exact fun x hx => ⟨(hin c hc hx).1, fun hx' => (hin c hc hx).2 hx'.1⟩
    · rw [List.mem_singleton.mp hc, hnewBytes]
      exact fun x hx => ⟨hG (hcopy.sub hx), fun hx' => hx'.2 hx⟩
  · refine List.pairwise_append.mpr ⟨?_, List.pairwise_singleton _ _, fun c hc c' hc' => ?_⟩
    · refine h.apart.imp_of_mem fun hc hc' hdisj => ?_
      rwa [hentry _ hc, hentry _ hc']
    · rw [List.mem_singleton.mp hc', hentry c hc, hnewBytes]
      exact Set.disjoint_left.mpr fun x hx hx' => (hin c hc hx).2 (hcopy.sub hx')
  · obtain ⟨z, hz, hzF, rfl⟩ := hx
    rw [← hm', hcopy.frame z hz fun hzG => hzF (hG hzG)]
    exact h.outside _ ⟨z, hz, hzF, rfl⟩
  · rw [← hm']
    refine List.rel_append (forall₂_imp_mem h.bytes fun n' c _ hc hbytes i hi => ?_)
      (.cons (fun i hi => ?_) .nil)
    · rw [hentry c hc] at hi ⊢
      have hmem : (entryOf s c).phyAddr + i ∈ (entryOf s c).bytes :=
        ⟨Nat.le_add_right _ _, Nat.add_lt_add_left hi _⟩
      obtain ⟨hzF, hzG⟩ := hin c hc hmem
      rw [hcopy.frame _ (hfits _ hzF) hzG]
      exact hbytes i hi
    · rw [hnew] at hi ⊢
      rw [hcopy.bytes i hi, ← hold]
      have hmem : (entryOf s k).phyAddr + i ∈ (entryOf s k).bytes :=
        ⟨Nat.le_add_right _ _, Nat.add_lt_add_left hi _⟩
      have hlt : (entryOf s k).phyAddr + i < (entryOf s k).phyAddr + (entryOf s k).pageNums * 4096 :=
        Nat.add_lt_add_left hi _
      exact h.outside _ ⟨_, lt_of_lt_of_le hlt hheld.fits,
        fun hzF => Set.disjoint_left.mp hheld.held hmem hzF, rfl⟩

/-! ## The loop -/

/-- The allocator has `F` when the map is duplicated, and nothing of the old map. -/
structure DupReady (e : Env) (Owns : Mem → Set Nat → Prop) (F : Set Nat) (s₀ : KernelState)
    (ns : List Ptr) : Prop where
  source : PageSource e.pageAlloc Owns
  owns : Owns s₀.paging.mem F
  held : ∀ n ∈ ns, (entryOf s₀ n).Held F

/-- The numbers of pages of the entries. -/
def pageNumsOf (s : KernelState) (ns : List Ptr) : List Nat := ns.map fun n => (entryOf s n).pageNums

/-- What holds before each round, in terms of the list nodes that are done. -/
def DupInv (e : Env) (Owns : Mem → Set Nat → Prop) (F : Set Nat) (s₀ : KernelState)
    (new old : Ptr) (ns : List Ptr) (rs : List ListRef) (s : KernelState) : Prop :=
  ∃ done rest cs, rs = done.map .vmMapNode ∧ ns = done ++ rest ∧
    DupShape s₀ new old ns done s cs ∧ (DupReady e Owns F s₀ ns → DupPages Owns F s₀ done s cs ∧
      (Supplies e.pageAlloc s₀.paging.mem (pageNumsOf s₀ ns) →
        Supplies e.pageAlloc s.paging.mem (pageNumsOf s₀ rest)))

theorem dup_loopInv (he : e.MallocSucceeds) (h₀ : MapOf s₀ old ns) (hne : new ∉ old :: ns) :
    LoopInv e (.vmMapNode old) (ns.map .vmMapNode) (vmMapDupRound new)
      (DupInv e Owns F s₀ new old ns) where
  ring := by
    rintro _ s ⟨done, rest, cs, -, -, hshape, -⟩
    exact hshape.old.ring
  step := by
    rintro _ r tail s s' heq ⟨done, rest, cs, rfl, hns, hshape, hpages⟩ hrun
    obtain ⟨k, rest', rfl, rfl⟩ := exists_node rfl hns heq
    have hk : k ∈ ns := by simp [hns]
    obtain ⟨y, n, dest, src, ht, rfl⟩ := vmMapDupRound_ok he hrun
    refine ⟨done ++ [k], rest', cs ++ [n], by simp, by simp [hns],
      hshape.round h₀ hne hk ht, fun hready => ?_⟩
    obtain ⟨hp, hsup⟩ := hpages hready
    have hsource := hready.source
    refine ⟨hp.round hshape h₀ hk hsource (hsource.fits hready.owns) (hready.held k hk) ht,
      fun hall => ?_⟩
    obtain ⟨G, -, howns, -⟩ := hp.owns
    have hfirst := hsup hall
    rw [pageNumsOf, List.map_cons, ← hshape.entryOf_old h₀ hk] at hfirst
    exact hsource.supplies howns hfirst ht.dest src

theorem avoids_vmMapAdd {x : Ptr} {err : Fault} (herr : .environment ≠ err) :
    Program.Avoids err (vmMapAdd new x) := by
  refine Program.avoids_bind (avoids_malloc herr) fun p => ?_
  split
  · exact Program.avoids_pure _
  · exact Program.avoids_bind (Program.avoids_modify _) fun _ => Program.avoids_pure _

/-- With pages to copy to and from, an entry is duplicated. -/
theorem vmMapEntryDup_returns {y x : Ptr}
    (hdest : (e.pageAlloc (s.entries x).pageNums s.paging.mem).1 < phyMapSize)
    (hsrc : (s.entries x).phyAddr < phyMapSize) : ∃ s', vmMapEntryDup y x e s = .ok ((), s') := by
  rw [vmMapEntryDup, Program.bind_of_ok Program.gets_apply, Program.bind_of_ok (by rfl)]
  simp only [copyPages, convertPhyToVirt_eq hdest, convertPhyToVirt_eq hsrc]
  exact ⟨_, rfl⟩

/-- A round that has pages to copy to fails only when `malloc` gives a block in use. -/
theorem vmMapDupRound_error {err : Fault} (hx : s.mapEntry k ≠ NULL)
    (hdest : (e.pageAlloc (entryOf s k).pageNums s.paging.mem).1 < phyMapSize)
    (hsrc : (entryOf s k).phyAddr < phyMapSize)
    (hrun : vmMapDupRound new (.vmMapNode k) e s = .error err) : err = .environment := by
  rw [vmMapDupRound, show listEntry (ListRef.vmMapNode k).vmMap? = pure k from rfl,
    Program.bind_of_ok Program.pure_apply, Program.bind_of_ok Program.gets_apply,
    Program.bind_of_ok (Program.check_of hx)] at hrun
  rcases Program.bind_error.mp hrun with h | ⟨y, s₁, hm, hrun⟩
  · exact malloc_error h
  rcases Program.bind_error.mp hrun with h | ⟨v, s₂, -, hrun⟩
  · have hreturns : ∃ s', vmMapEntryDup y (s.mapEntry k) e s₁ = .ok ((), s') := by
      obtain ⟨-, ⟨-, rfl⟩ | ⟨-, -, -, rfl⟩⟩ := malloc_cases hm
      · exact vmMapEntryDup_returns hdest hsrc
      · exact vmMapEntryDup_returns hdest hsrc
    obtain ⟨s', hok⟩ := hreturns
    rw [hok] at h
    cases h
  · rcases Program.bind_error.mp hrun with h | ⟨r, s₃, -, h⟩
    · exact Program.eq_of_avoids (fun _ herr => avoids_vmMapAdd herr) h
    · cases h

/-! ## `vm_map_dup` -/

/-- What `vm_map_dup` makes: the nodes `cs` of the new map, in the order of the old nodes. -/
structure Duplicate (s s' : KernelState) (new old : Ptr) (ns cs : List Ptr) : Prop where
  newMap : MapOf s' new cs
  copies : List.Forall₂ (fun n c => (entryOf s n).Copies (entryOf s' c)) ns cs
  /-- The pages are equal, byte for byte, to those of the old map at the time of the call. -/
  bytes : List.Forall₂ (fun n c => ∀ i < (entryOf s n).pageNums * 4096,
    s'.paging.mem ((entryOf s' c).phyAddr + i + phyMapBase)
      = s.paging.mem ((entryOf s n).phyAddr + i + phyMapBase)) ns cs
  apart : cs.Pairwise fun c c' => Disjoint (entryOf s' c).bytes (entryOf s' c').bytes
  clear : ∀ n ∈ ns, ∀ c ∈ cs, Disjoint (entryOf s n).bytes (entryOf s' c).bytes
  oldMap : MapOf s' old ns
  oldEntries : ∀ n ∈ ns, s'.mapEntry n = s.mapEntry n ∧ entryOf s' n = entryOf s n
  oldPages : ∀ n ∈ ns, ∀ y ∈ (entryOf s n).bytes,
    s'.paging.mem (y + phyMapBase) = s.paging.mem (y + phyMapBase)

/-- The pages of a map, where they are in the direct map. -/
def pagesOfMap (s : KernelState) (ns : List Ptr) : Set Nat :=
  {x | ∃ n ∈ ns, ∃ y ∈ (entryOf s n).bytes, x = y + phyMapBase}

theorem dupInv_init (h : MapOf s old ns) (hheap : s.HeapOk) (hnew : new ∈ s.live)
    (hne : new ∉ old :: ns) : DupInv e Owns F s new old ns [] (vmMapInit new s) :=
  ⟨[], ns, [], rfl, rfl, DupShape.init h hheap hnew hne, fun hready =>
    ⟨DupPages.init hready.owns, id⟩⟩

/-- What holds when the loop is through. -/
theorem vmMapDup_shape (Owns : Mem → Set Nat → Prop) (F : Set Nat) (he : e.MallocSucceeds)
    (h : MapOf s old ns) (hheap : s.HeapOk) (hnew : new ∈ s.live) (hne : new ∉ old :: ns)
    (hrun : vmMapDup new old e s = .ok (u, s')) : ∃ cs, DupShape s new old ns ns s' cs ∧
      (DupReady e Owns F s ns → DupPages Owns F s ns s' cs) := by
  rw [vmMapDup_eq, Program.bind_of_ok Program.modify_apply] at hrun
  have hinv : DupInv e Owns F s new old ns (ns.map .vmMapNode) s' :=
    (dup_loopInv he h hne).ok (dupInv_init h hheap hnew hne) hrun
  obtain ⟨done, rest, cs, hdone, -, hshape, hpages⟩ := hinv
  have hinj : Function.Injective ListRef.vmMapNode := fun _ _ => ListRef.vmMapNode.inj
  obtain rfl : ns = done := List.map_injective_iff.mpr hinj hdone
  exact ⟨cs, hshape, fun hready => (hpages hready).1⟩

theorem vmMapDup_duplicate (he : e.MallocSucceeds) (h : MapOf s old ns) (hheap : s.HeapOk)
    (hnew : new ∈ s.live) (hne : new ∉ old :: ns) (hready : DupReady e Owns F s ns)
    (hrun : vmMapDup new old e s = .ok (u, s')) : ∃ cs, Duplicate s s' new old ns cs := by
  obtain ⟨cs, hshape, hpages⟩ := vmMapDup_shape Owns F he h hheap hnew hne hrun
  have hp : DupPages Owns F s ns s' cs := hpages hready
  obtain ⟨G, -, -, hin⟩ := hp.owns
  refine ⟨cs, hshape.new, hshape.copies, ?_, hp.apart, fun n hn c hc => ?_, hshape.old,
    fun n hn => ⟨hshape.mapEntry n hn, hshape.entryOf_old h hn⟩, fun n hn y hy => ?_⟩
  · refine forall₂_and hshape.copies hp.bytes fun n c hcopy hbytes i hi => ?_
    rw [← hcopy.pageNums] at hi
    exact hbytes i hi
  · exact (hready.held n hn).held.mono_right fun x hx => (hin c hc hx).1
  · have hheld := hready.held n hn
    refine hp.outside _ ⟨y, ?_, Set.disjoint_left.mp hheld.held hy, rfl⟩
    exact lt_of_lt_of_le hy.2 hheld.fits

/-- With pages to be had, the call returns, if `malloc` gives no block that is in use. -/
theorem vmMapDup_returns (he : e.MallocSucceeds) (h : MapOf s old ns) (hheap : s.HeapOk)
    (hnew : new ∈ s.live) (hne : new ∉ old :: ns) (hready : DupReady e Owns F s ns)
    (hsup : Supplies e.pageAlloc s.paging.mem (pageNumsOf s ns)) :
    (∃ s', vmMapDup new old e s = .ok ((), s')) ∨ vmMapDup new old e s = .error .environment := by
  cases hrun : vmMapDup new old e s with
  | ok r => exact .inl ⟨r.2, rfl⟩
  | error err =>
    refine .inr (congrArg _ ?_)
    rw [vmMapDup_eq, Program.bind_of_ok Program.modify_apply] at hrun
    have hlen : (ns.map ListRef.vmMapNode).length < walkFuel := by
      rw [List.length_map]
      exact h.length_lt hheap
    have hinv : LoopInv e (.vmMapNode old) (ns.map .vmMapNode) (vmMapDupRound new)
      (DupInv e Owns F s new old ns) := dup_loopInv he h hne
    obtain ⟨_, r, tail, t, heq, ⟨done, rest, cs, rfl, hns, hshape, hpages⟩, hfail⟩ :=
      hinv.error hlen (dupInv_init h hheap hnew hne) hrun
    obtain ⟨k, rest', rfl, rfl⟩ := exists_node rfl hns heq
    have hk : k ∈ ns := by simp [hns]
    obtain ⟨hp, hsupplies⟩ := hpages hready
    obtain ⟨G, -, howns, -⟩ := hp.owns
    have hfirst := hsupplies hsup
    have hold := hshape.entryOf_old h hk
    rw [pageNumsOf, List.map_cons, ← hold] at hfirst
    obtain ⟨hpos, hfits⟩ := hready.source.range_fits howns hfirst.1
    have hheld := hready.held k hk
    rw [← hold] at hheld
    refine vmMapDupRound_error (fun hnull => ?_) (by omega) ?_ hfail
    · have hx := hshape.old.entries k hk
      rw [hnull] at hx
      exact hshape.heap.not_null hx
    · have := hheld.fits
      omega

/-- The pages come from a pool of two pages, the blocks are numbered. -/
def twoPagesEnv : Env where
  malloc s := s.live.foldr max 0 + 1
  pageAlloc := poolAlloc mmPoolAtImageBase
  readFile _ _ m := m

/-- Blocks for two maps, and for an entry with one page at 0x5000. -/
def oneEntryState : KernelState :=
  { bootState with
    entries := fun _ => ⟨0x400000, 0x5000, 1, 0x1f, 1⟩
    paging := ⟨twoPagesMem, []⟩
    live := [1, 2, 3] }

theorem twoPagesEnv_malloc : twoPagesEnv.MallocSucceeds := fun _ => Nat.succ_ne_zero _

/-- The map at 1, with the entry at 3 behind the node at 4. -/
def oneEntryMap : KernelState :=
  vmMapLink 1 4 3 { vmMapInit 1 oneEntryState with live := [4, 1, 2, 3] }

theorem builtMap_oneEntry : BuiltMap 1 oneEntryMap [4] := by
  have hinit : BuiltMap 1 (vmMapInit 1 oneEntryState) [] :=
    .init ⟨by decide, by decide⟩ (by decide)
  have hadd : vmMapAdd 1 3 twoPagesEnv (vmMapInit 1 oneEntryState) = .ok (0, oneEntryMap) := rfl
  exact .add hinit twoPagesEnv_malloc (by decide) hadd

theorem dupReady_oneEntry : DupReady twoPagesEnv (PoolOwns mmPoolAtImageBase)
    (blockBytes twoPages) oneEntryMap [4] where
  source := poolAlloc_pageSource mmPoolAtImageBase
  owns := ⟨2, twoPages, poolAt_twoPages, by decide, rfl⟩
  held := by
    intro n hn
    obtain rfl := List.mem_singleton.mp hn
    refine ⟨by decide, Set.disjoint_left.mpr ?_⟩
    rintro y ⟨hlo, -⟩ ⟨b, hb, -, hhi⟩
    have hlo : 0x5000 ≤ y := hlo
    have hb' : b.addr - phyMapBase + b.length * 4096 ≤ 0x3000 := by
      rcases List.mem_cons.mp hb with rfl | hb
      · decide
      · rw [List.mem_singleton.mp hb]
        decide
    have hhi : y < b.addr - phyMapBase + b.length * 4096 := hhi
    omega

end Raincloud
