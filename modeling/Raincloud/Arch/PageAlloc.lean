import Raincloud.Arch.DirectMap
import Raincloud.Infra.MergeRuns
import Raincloud.Klibc.ListHead

/-!
# The page allocator of `paging.c`

The free pages are blocks in the direct map. Each block starts with a header of three words,
`next`, `prev` and `length` in pages, and hangs on the list head of `mm_pool`, which lives in
the kernel image with two counters behind it.

A call gives the memory it leaves, its return value and what it reported through `bug`. It
gives `none` when an assertion halts the machine or a loop over the list would not end.
-/

set_option linter.style.nameCheck false

namespace Raincloud

open Infra Infra.LinkStore

/-! ## `struct mm_block` and `mm_pool` -/

def mmBlockSize : Nat := 24

def pageLength (m : Mem) (entry : Nat) : Nat := m.load64 (entry + 16)

def setPageLength (m : Mem) (entry v : Nat) : Mem := m.store64 (entry + 16) v

/-- Where `mm_pool` is: a list head and two counters. -/
abbrev MmPool := KernelObject 32

namespace MmPool

def available (mmPool : MmPool) (m : Mem) : Nat := m.load64 (mmPool.addr + 16)

def total (mmPool : MmPool) (m : Mem) : Nat := m.load64 (mmPool.addr + 24)

def setAvailable (mmPool : MmPool) (m : Mem) (v : Nat) : Mem := m.store64 (mmPool.addr + 16) v

end MmPool

/-- What the allocator reports through `bug`. -/
inductive PageBug where
  | corrupted
  | leakage (available found : Nat)
  deriving DecidableEq

def __initBlock (m : Mem) (base numberOfPages : Nat) : Mem :=
  setPageLength (listInit m base) base numberOfPages

variable (mmPool : MmPool)

/-! ## Allocation -/

/-- The loop of `__page_alloc`, from the list node `it` on. -/
def __pageAllocFrom (size : Nat) : Nat → Nat → Mem → Option (Nat × Mem)
  | 0, _, _ => none
  | fuel + 1, it, m =>
    if it = mmPool.addr then some (invalidAddr, m)
    else if pageLength m it = size then
      let m := listDel m it
      let m := mmPool.setAvailable m (sub64 (mmPool.available m) size)
      (convertVirtToPhy it).map fun ret => (ret, m)
    else if pageLength m it > size then
      let m := setPageLength m it (sub64 (pageLength m it) size)
      let m := mmPool.setAvailable m (sub64 (mmPool.available m) size)
      (convertVirtToPhy (add64 it (shl64 (pageLength m it) 12))).map fun ret => (ret, m)
    else __pageAllocFrom size fuel (next m it) m

def __pageAlloc (size : Nat) (m : Mem) : Option (Nat × Mem) :=
  if listEmpty m mmPool.addr then some (invalidAddr, m)
  else __pageAllocFrom mmPool size walkFuel (next m mmPool.addr) m

/-! ## Release -/

/-- The search of `__page_free` for the first list node behind `addr`. -/
def __pageFreeFrom (m : Mem) (addr : Nat) : Nat → Nat → Option Nat
  | 0, _ => none
  | fuel + 1, it =>
    if it = mmPool.addr then some it
    else if it > addr then some it
    else __pageFreeFrom m addr fuel (next m it)

/-- The address of the block comes from `size`, not from the parameter `addr`. -/
def __pageFree (_addr size : Nat) (m : Mem) : Option Mem :=
  (convertPhyToVirt size).bind fun addr =>
    let m := __initBlock m addr size
    (__pageFreeFrom mmPool m addr walkFuel (next m mmPool.addr)).map fun it =>
      let m := listAddBefore m it addr
      mmPool.setAvailable m (add64 (mmPool.available m) size)

/-! ## Merging -/

/-- The condition of the inner loop of `__page_merge`. -/
def __pageMergeCond (m : Mem) (entry nextEntry : Nat) : Bool :=
  add64 entry (shl64 (pageLength m entry) 12) = nextEntry

/-- Its body: `entry` swallows `nextEntry`. -/
def __pageMergeBody (m : Mem) (entry nextEntry : Nat) : Mem :=
  let m := setPageLength m entry (add64 (pageLength m entry) (pageLength m nextEntry))
  let m := listDel m nextEntry
  memset m nextEntry 0 mmBlockSize

def __pageMerge (m : Mem) : Option Mem :=
  mergeWalk __pageMergeCond __pageMergeBody mmPool.addr walkFuel walkFuel (next m mmPool.addr) m

/-! ## The consistency check -/

/-- The loop of `__page_consistency_check`: the sum of the lengths, and the reports. -/
def __pageCheckFrom (m : Mem) : Nat → Nat → Nat → Option (Nat × List PageBug)
  | 0, _, _ => none
  | fuel + 1, it, sum =>
    if it = mmPool.addr then some (sum, [])
    else
      (__pageCheckFrom m fuel (next m it) (add64 sum (pageLength m it))).map fun r =>
        if next m it ≠ mmPool.addr
            ∧ add64 it (shl64 (pageLength m it) 12)
              > add64 (next m it) (shl64 (pageLength m (next m it)) 12) then
          (r.1, .corrupted :: r.2)
        else r

def __pageConsistencyCheck (m : Mem) : Option (List PageBug) :=
  if mmPool.available m ≤ mmPool.total m then
    (__pageCheckFrom mmPool m walkFuel (next m mmPool.addr) 0).map fun r =>
      if r.1 ≠ mmPool.available m then r.2 ++ [.leakage (mmPool.available m) r.1] else r.2
  else none

/-! ## `page_alloc` and `page_free` -/

/-- What a call to the page allocator leaves and returns. -/
structure PageCall where
  mem : Mem
  ret : Nat
  bugs : List PageBug

/-- Two attempts, with a merge in between when the first one fails. -/
def pageAllocBlock (size : Nat) (m : Mem) : Option (Nat × Mem) :=
  (__pageAlloc mmPool size m).bind fun r =>
    if r.1 = invalidAddr then (__pageMerge mmPool r.2).bind (__pageAlloc mmPool size) else some r

def pageAlloc (size : Nat) (m : Mem) : Option PageCall :=
  if size = 0 then some ⟨m, invalidAddr, []⟩
  else
    (pageAllocBlock mmPool size m).bind fun r =>
      (__pageConsistencyCheck mmPool r.2).map fun bugs => ⟨r.2, r.1, bugs⟩

/-- `page_free`, which returns nothing. -/
def pageFree (addr size : Nat) (m : Mem) : Option PageCall :=
  (__pageFree mmPool addr size m).bind fun m =>
    (__pageConsistencyCheck mmPool m).map fun bugs => ⟨m, NULL, bugs⟩

end Raincloud
