import Raincloud.Proc.Destroy

/-!
# Runs of the id allocator

Process ids and thread ids are handed out and given back, each from a table of its own. The ids
that are out are those that the table marks. `tid_alloc` looks at the first `MAX_PID` entries of a
table of `MAX_TID`, so it runs out of ids before the table is full.
-/

set_option linter.style.nameCheck false

namespace Raincloud

open Infra Kernel

/-! ## The calls -/

def freedTid (id : Int) (s : KernelState) : KernelState :=
  { s with tidTable := Function.update s.tidTable id.toNat 0 }

/-- `tid_free`; the table has an entry for each id below `MAX_TID`. -/
def tidFree (id : Int) : Kernel Unit := do
  Program.check (0 ≤ id ∧ id < maxTid) .wildPointer
  Program.modify (freedTid id)

inductive IdCall where
  | pidAlloc
  | pidFree (id : Int)
  | tidAlloc
  | tidFree (id : Int)

/-- The kernel, with the ids that have been handed out and not given back. -/
structure IdState where
  kernel : KernelState
  pids : List Int
  tids : List Int

/-- The ids that are out after an allocation that returns `id`. -/
def handOut (id : Int) (ids : List Int) : List Int := if id = -1 then ids else id :: ids

/-- An id is given back only while it is out. -/
def IdStep (s : IdState) (call : IdCall) (s' : IdState) : Prop :=
  match call with
  | .pidAlloc => s' = { s with
      kernel := (pidAlloc s.kernel).2, pids := handOut (pidAlloc s.kernel).1 s.pids }
  | .pidFree id => id ∈ s.pids ∧ ∃ e k, pidFree id e s.kernel = .ok ((), k) ∧
      s' = { s with kernel := k, pids := s.pids.erase id }
  | .tidAlloc => s' = { s with
      kernel := (tidAlloc s.kernel).2, tids := handOut (tidAlloc s.kernel).1 s.tids }
  | .tidFree id => id ∈ s.tids ∧ ∃ e k, tidFree id e s.kernel = .ok ((), k) ∧
      s' = { s with kernel := k, tids := s.tids.erase id }

/-- The tables are cleared by `id_init`. -/
def idAllocator : Machine IdState IdCall where
  start s := s.kernel.pidTable = (fun _ => 0) ∧ s.kernel.tidTable = (fun _ => 0) ∧
    s.pids = [] ∧ s.tids = []
  step := IdStep

/-! ## What is asked for -/

/-- The ids that are out are distinct entries of a table of `size`. -/
structure IdsOut (size : Nat) (ids : List Int) : Prop where
  nodup : ids.Nodup
  range : ∀ id ∈ ids, 0 ≤ id ∧ id < size

/-- What an allocation returns: -1 if all entries are out, and else the least that is not. -/
structure Allocates (size : Nat) (ids : List Int) (id : Int) : Prop where
  full : id = -1 ↔ ids.length = size
  least : id ≠ -1 → 0 ≤ id ∧ id < size ∧ id ∉ ids ∧ ∀ j, 0 ≤ j → j < id → j ∈ ids

/-- The call does what an id allocator is for. -/
def IdLawful (s : IdState) : IdCall → Prop
  | .pidAlloc => Allocates maxPid s.pids (pidAlloc s.kernel).1
  | .tidAlloc => Allocates maxTid s.tids (tidAlloc s.kernel).1
  | .pidFree id => id ∈ s.pids → ∀ e, ∃ k, pidFree id e s.kernel = .ok ((), k)
  | .tidFree id => id ∈ s.tids → ∀ e, ∃ k, tidFree id e s.kernel = .ok ((), k)

/-- Fewer than `MAX_PID` thread ids are out when one more is asked for. -/
def TidsLeft (s : IdState) : IdCall → Prop
  | .tidAlloc => s.tids.length < maxPid
  | _ => True

/-! ## One table -/

variable {bound size : Nat} {table : Nat → Nat} {ids : List Int} {id : Int}

/-- The ids that are out are the marked entries below `bound`. -/
structure TableOf (bound : Nat) (table : Nat → Nat) (ids : List Int) : Prop where
  out : IdsOut bound ids
  marked : ∀ i < bound, table i ≠ 0 ↔ (i : Int) ∈ ids

theorem IdsOut.mono (h : IdsOut bound ids) (hle : bound ≤ size) : IdsOut size ids :=
  ⟨h.nodup, fun id hid => ⟨(h.range id hid).1, by have := (h.range id hid).2; omega⟩⟩

/-- The ids that are out, as entries of the table. -/
theorem IdsOut.entries (h : IdsOut bound ids) :
    (ids.map Int.toNat).Nodup ∧ ids.map Int.toNat ⊆ List.range bound := by
  constructor
  · refine h.nodup.map_on fun a ha b hb he => ?_
    have ha0 := (h.range a ha).1
    have hb0 := (h.range b hb).1
    omega
  · intro i hi
    obtain ⟨id, hid, rfl⟩ := List.mem_map.mp hi
    obtain ⟨h0, hlt⟩ := h.range id hid
    exact List.mem_range.mpr (by omega)

theorem IdsOut.length_le (h : IdsOut bound ids) : ids.length ≤ bound := by
  have hle := (h.entries.1.subperm h.entries.2).length_le
  rwa [List.length_map, List.length_range] at hle

/-- All entries are out as soon as there are as many as entries. -/
theorem IdsOut.full_iff (h : IdsOut bound ids) :
    ids.length = bound ↔ ∀ i < bound, (i : Int) ∈ ids := by
  constructor
  · intro hlen i hi
    have hperm : (ids.map Int.toNat).Perm (List.range bound) := by
      refine (h.entries.1.subperm h.entries.2).perm_of_length_le ?_
      rw [List.length_map, List.length_range, hlen]
    obtain ⟨id, hid, rfl⟩ := List.mem_map.mp (hperm.mem_iff.mpr (List.mem_range.mpr hi))
    rwa [Int.toNat_of_nonneg (h.range id hid).1]
  · intro hall
    refine Nat.le_antisymm h.length_le ?_
    have hsub : List.range bound ⊆ ids.map Int.toNat := fun i hi =>
      List.mem_map.mpr ⟨i, hall i (List.mem_range.mp hi), Int.toNat_natCast i⟩
    have hle := (List.nodup_range.subperm hsub).length_le
    rwa [List.length_map, List.length_range] at hle

/-- What the loop of an allocation finds. -/
theorem TableOf.idAlloc (h : TableOf bound table ids) :
    Allocates bound ids (__idAlloc bound table).1 ∧
      TableOf bound (__idAlloc bound table).2 (handOut (__idAlloc bound table).1 ids) := by
  unfold __idAlloc
  cases hfind : (List.range bound).find? fun i => table i = 0 with
  | none =>
    have hall : ∀ i < bound, (i : Int) ∈ ids := fun i hi => by
      refine (h.marked i hi).mp fun hzero => ?_
      exact List.find?_eq_none.mp hfind i (List.mem_range.mpr hi) (decide_eq_true hzero)
    exact ⟨⟨iff_of_true rfl (h.out.full_iff.mpr hall), fun hne => absurd rfl hne⟩, h⟩
  | some i =>
    obtain ⟨hzero, hi, hbelow⟩ := List.find?_range_eq_some.mp hfind
    have hzero : table i = 0 := of_decide_eq_true hzero
    have hi : i < bound := List.mem_range.mp hi
    have hnot : (i : Int) ∉ ids := fun hmem => (h.marked i hi).mpr hmem hzero
    have hne : (i : Int) ≠ -1 := by omega
    dsimp only
    refine ⟨⟨iff_of_false hne fun hlen => ?_, fun _ => ⟨by omega, by omega, hnot, ?_⟩⟩, ?_⟩
    · exact hnot (h.out.full_iff.mp hlen i hi)
    · intro j h0 hj
      obtain ⟨k, rfl⟩ := Int.eq_ofNat_of_zero_le h0
      have hk : k < i := by omega
      refine (h.marked k (by omega)).mp ?_
      simpa using hbelow k hk
    · rw [handOut, if_neg hne]
      refine ⟨⟨List.nodup_cons.mpr ⟨hnot, h.out.nodup⟩, fun id hid => ?_⟩, fun k hk => ?_⟩
      · rcases List.mem_cons.mp hid with rfl | hid
        · omega
        · exact h.out.range id hid
      · rw [List.mem_cons, Function.update_apply]
        by_cases hki : k = i
        · simp [hki]
        · rw [if_neg hki, h.marked k hk]
          simp [hki]

/-- An id that is given back is free again. -/
theorem TableOf.erase (h : TableOf bound table ids) (hid : id ∈ ids) :
    TableOf bound (Function.update table id.toNat 0) (ids.erase id) := by
  have h0 := (h.out.range id hid).1
  refine ⟨⟨h.out.nodup.erase id, fun j hj => h.out.range j (List.mem_of_mem_erase hj)⟩,
    fun k hk => ?_⟩
  rw [h.out.nodup.mem_erase_iff, Function.update_apply]
  by_cases hki : k = id.toNat
  · have hkid : (k : Int) = id := by omega
    rw [if_pos hki]
    exact iff_of_false (fun hne => hne rfl) fun hmem => hmem.1 hkid
  · have hkid : (k : Int) ≠ id := by omega
    rw [if_neg hki, h.marked k hk, and_iff_right hkid]

/-! ## Runs -/

variable {s s' : IdState} {call : IdCall}

structure IdInv (s : IdState) : Prop where
  pids : TableOf maxPid s.kernel.pidTable s.pids
  tids : TableOf maxPid s.kernel.tidTable s.tids

theorem tableOf_empty : TableOf bound (fun _ => 0) [] :=
  ⟨⟨List.nodup_nil, fun _ h => absurd h List.not_mem_nil⟩, fun _ _ => by simp⟩

theorem IdInv.step (h : IdInv s) (hstep : IdStep s call s') : IdInv s' := by
  cases call with
  | pidAlloc =>
    obtain rfl := hstep
    exact ⟨h.pids.idAlloc.2, h.tids⟩
  | pidFree id =>
    obtain ⟨hid, e, k, hrun, rfl⟩ := hstep
    obtain ⟨-, hmod⟩ := Program.check_bind_ok.mp hrun
    cases hmod
    exact ⟨h.pids.erase hid, h.tids⟩
  | tidAlloc =>
    obtain rfl := hstep
    exact ⟨h.pids, h.tids.idAlloc.2⟩
  | tidFree id =>
    obtain ⟨hid, e, k, hrun, rfl⟩ := hstep
    obtain ⟨-, hmod⟩ := Program.check_bind_ok.mp hrun
    cases hmod
    exact ⟨h.pids, h.tids.erase hid⟩

theorem idInv_of_reachable (h : idAllocator.Reachable s) : IdInv s := by
  refine h.invariant IdInv ?_ fun s a s' hs hstep => hs.step hstep
  rintro s ⟨hpid, htid, hpids, htids⟩
  refine ⟨?_, ?_⟩
  · rw [hpid, hpids]
    exact tableOf_empty
  · rw [htid, htids]
    exact tableOf_empty

/-- A thread id is allocated as it should be as long as the entries that are looked at last. -/
theorem allocates_tid_iff (h : TableOf maxPid s.kernel.tidTable s.tids) :
    Allocates maxTid s.tids (tidAlloc s.kernel).1 ↔ s.tids.length < maxPid := by
  have hle := h.out.length_le
  have hsizes : maxPid < maxTid := by decide
  obtain ⟨hfull, hleast⟩ : Allocates maxPid s.tids (tidAlloc s.kernel).1 := h.idAlloc.1
  constructor
  · intro hlaw
    by_contra hnot
    have hneg : (tidAlloc s.kernel).1 = -1 := hfull.mpr (by omega)
    have hlen := hlaw.full.mp hneg
    omega
  · intro hlt
    have hne : (tidAlloc s.kernel).1 ≠ -1 := fun he => by
      have hlen := hfull.mp he
      omega
    obtain ⟨h0, hbound, hnot, hbelow⟩ := hleast hne
    exact ⟨iff_of_false hne (by omega), fun _ => ⟨h0, by omega, hnot, hbelow⟩⟩

/--
In every run the ids that are out are distinct entries of their tables, and a call does what it
should if and only if it does not ask for a thread id beyond the first `MAX_PID`.
-/
theorem idAllocator_lawful (h : idAllocator.Reachable s) :
    IdsOut maxPid s.pids ∧ IdsOut maxTid s.tids ∧ ∀ call, IdLawful s call ↔ TidsLeft s call := by
  obtain ⟨hpids, htids⟩ := idInv_of_reachable h
  refine ⟨hpids.out, htids.out.mono (by decide), fun call => ?_⟩
  cases call with
  | pidAlloc => exact iff_of_true hpids.idAlloc.1 trivial
  | pidFree id =>
    refine iff_of_true (fun hid e => ⟨freedPid id s.kernel, ?_⟩) trivial
    exact Program.check_bind_ok.mpr ⟨hpids.out.range id hid, rfl⟩
  | tidAlloc => exact allocates_tid_iff htids
  | tidFree id =>
    refine iff_of_true (fun hid e => ⟨freedTid id s.kernel, ?_⟩) trivial
    exact Program.check_bind_ok.mpr ⟨(htids.out.mono (by decide)).range id hid, rfl⟩

/-! ## The last thread id -/

def idStart : IdState := ⟨bootState, [], []⟩

theorem idStart_reachable : idAllocator.Reachable idStart := .start ⟨rfl, rfl, rfl, rfl⟩

/-- At the start each call does what it should. -/
theorem idAllocator_lawful_start : IdsOut maxPid idStart.pids ∧ IdsOut maxTid idStart.tids ∧
    ∀ call, IdLawful idStart call ↔ TidsLeft idStart call :=
  idAllocator_lawful idStart_reachable

/-- As many thread ids can be out as `tid_alloc` looks at. -/
theorem tids_reachable : ∀ n ≤ maxPid, ∃ s, idAllocator.Reachable s ∧ s.tids.length = n
  | 0, _ => ⟨idStart, idStart_reachable, rfl⟩
  | n + 1, hn => by
    obtain ⟨s, hreach, hlen⟩ := tids_reachable n (Nat.le_of_succ_le hn)
    have halloc := (idInv_of_reachable hreach).tids.idAlloc.1
    have hne : (tidAlloc s.kernel).1 ≠ -1 := fun he => by
      have hfull := halloc.full.mp he
      omega
    refine ⟨_, hreach.step (a := .tidAlloc) rfl, ?_⟩
    rw [handOut, if_neg hne, List.length_cons, hlen]

/-- With 256 thread ids out, `tid_alloc` returns -1 and 768 entries stay free. -/
theorem tids_run_out : ∃ s, idAllocator.Reachable s ∧ (tidAlloc s.kernel).1 = -1 ∧
    s.tids.length = 256 ∧ ¬IdLawful s .tidAlloc := by
  obtain ⟨s, hreach, hlen⟩ := tids_reachable maxPid (Nat.le_refl _)
  have htids := (idInv_of_reachable hreach).tids
  refine ⟨s, hreach, htids.idAlloc.1.full.mpr hlen, hlen, fun hlaw => ?_⟩
  exact absurd ((allocates_tid_iff htids).mp hlaw) (by omega)

end Raincloud
