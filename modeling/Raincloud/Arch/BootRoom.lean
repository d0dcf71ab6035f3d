import Raincloud.Arch.InitAgree

/-!
# How far the first page tables reach

`__continous_alloc` takes one page after another. A program that takes at most `n` of them needs
no memory behind the first `n` pages from `page_table_base` on.
-/

set_option linter.style.nameCheck false

namespace Raincloud.InitMmMap

open Infra

/-- At most `n` pages are taken. -/
structure Reach (first n : Nat) (s : BootState) : Prop where
  base : s.pageTableBase = first
  size : s.pageTableSize ≤ n * 4096
  pages : ∀ page ∈ s.pages, page + 4096 ≤ first + n * 4096

/-- A program takes at most `k` pages when there are as many. -/
def Takes {α : Type} (k : Nat) (x : Boot α) : Prop :=
  ∀ base n s, base + (n + k) * 4096 ≤ 2 ^ 48 → Reach base n s → Reach base (n + k) (x s).2

variable {α β : Type} {x : Boot α} {f : α → Boot β} {s : BootState} {base j k l n : Nat}

theorem room_mono (hle : n ≤ k) : base + n * 4096 ≤ base + k * 4096 :=
  Nat.add_le_add_left (Nat.mul_le_mul_right 4096 hle) base

theorem Reach.mono (h : Reach base n s) (hle : n ≤ k) : Reach base k s where
  base := h.base
  size := h.size.trans (Nat.mul_le_mul_right 4096 hle)
  pages page hpage := (h.pages page hpage).trans (room_mono hle)

theorem Takes.mono (h : Takes k x) (hle : k ≤ l) : Takes l x := by
  intro base n s hroom hs
  have hle' : n + k ≤ n + l := Nat.add_le_add_left hle n
  exact (h base n s ((room_mono hle').trans hroom) hs).mono hle'

theorem Takes.bind (hx : Takes k x) (hf : ∀ a, Takes l (f a)) (hle : k + l ≤ j) :
    Takes j (x >>= f) := by
  intro base n s hroom hs
  have hk : n + k ≤ n + j := by omega
  have hkl : n + k + l ≤ n + j := by omega
  have hfirst := hx base n s ((room_mono hk).trans hroom) hs
  exact (hf _ base (n + k) _ ((room_mono hkl).trans hroom) hfirst).mono hkl

/-! ## The programs -/

theorem takes_pure (a : α) : Takes 0 (pure a : Boot α) := fun _ _ _ _ hs => hs

theorem takes_read (a : Nat) : Takes 0 (read a) := fun _ _ _ _ hs => hs

theorem takes_write (a v : Nat) : Takes 0 (write a v) :=
  fun _ _ _ _ hs => ⟨hs.base, hs.size, hs.pages⟩

theorem takes_initTable (table initEntry : Nat) : Takes 0 (__initTable table initEntry) :=
  fun _ _ _ _ hs => ⟨hs.base, hs.size, hs.pages⟩

theorem takes_continousAlloc : Takes 1 __continousAlloc := by
  intro base n s hroom hs
  have hbase := hs.base
  have hsize := hs.size
  rw [continousAlloc_eq (by omega)]
  refine ⟨hbase, ?_, fun page hpage => ?_⟩
  · rw [Nat.add_mul]
    exact Nat.add_le_add_right hsize 4096
  · rcases List.mem_append.mp hpage with hold | hnew
    · exact (hs.pages page hold).trans (room_mono (Nat.le_succ n))
    · rw [List.mem_singleton.mp hnew]
      omega

/-- A new table is one page, and one that is there costs nothing. -/
theorem takes_nextTable (entry : Nat) : Takes 1 (__nextTable entry) := by
  refine (takes_read entry).bind (l := 1) (fun e => ?_) le_rfl
  split
  · exact takes_continousAlloc.bind (fun table => (takes_initTable table _).bind
      (fun _ => (takes_write entry _).bind (fun _ => takes_pure table) le_rfl) le_rfl) le_rfl
  · exact (takes_pure _).mono (Nat.zero_le 1)

theorem takes_doMapping (plm4e virt phy flag : Nat) : Takes 3 (__doMapping plm4e virt phy flag) :=
  (takes_nextTable _).bind (fun _ => (takes_nextTable _).bind (fun _ => (takes_nextTable _).bind
    (fun _ => takes_write _ _) le_rfl) le_rfl) le_rfl

theorem takes_mapByPages (plm4e flag : Nat) :
    ∀ n virt phy, Takes (3 * n) (__mapByPages plm4e flag n virt phy)
  | 0, _, _ => takes_pure ()
  | n + 1, _, _ =>
    (takes_doMapping _ _ _ _).bind (fun _ => takes_mapByPages plm4e flag n _ _) (by omega)

/-- All pages that are asked for. -/
def totalPages (rs : List ChunkRequest) : Nat := (rs.map ChunkRequest.pages).sum

theorem takes_mapRequests (root : Nat) : ∀ rs, Takes (3 * totalPages rs) (mapRequests root rs)
  | [] => takes_pure ()
  | r :: rs => by
    refine (takes_mapByPages _ _ _ _ _).bind (fun _ => takes_mapRequests root rs) ?_
    rw [totalPages, totalPages, List.map_cons, List.sum_cons]
    omega

theorem takes_buildTables (rs : List ChunkRequest) :
    Takes (1 + 3 * totalPages rs) (buildTables rs) := by
  have hnew : Takes 1 newPlm4e := takes_continousAlloc.bind
    (fun table => (takes_initTable table _).bind (fun _ => takes_pure table) le_rfl) le_rfl
  exact hnew.bind (fun root =>
    (takes_mapRequests root rs).bind (fun _ => takes_pure root) le_rfl) le_rfl

/-- Three tables for each page, and the top table, are enough. -/
theorem buildTables_low {m : Mem} (rs : List ChunkRequest)
    (hroom : base + (1 + 3 * totalPages rs) * 4096 ≤ 2 ^ 48) :
    AllLow (buildTables rs ⟨m, base, 0, []⟩).2.pages := by
  have hstart : Reach base 0 ⟨m, base, 0, []⟩ :=
    ⟨rfl, Nat.zero_le _, fun page hpage => absurd hpage List.not_mem_nil⟩
  have hall : base + (0 + (1 + 3 * totalPages rs)) * 4096 ≤ 2 ^ 48 := by
    rwa [Nat.zero_add]
  exact fun page hpage => ((takes_buildTables rs base 0 _ hall hstart).pages page hpage).trans hall

end Raincloud.InitMmMap
