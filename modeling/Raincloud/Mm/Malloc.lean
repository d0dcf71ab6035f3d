import Raincloud.Infra.MergeRuns
import Raincloud.Infra.Word
import Raincloud.Klibc.ListHead
import Raincloud.Mm.Layout

/-!
# `malloc.c`

The kernel heap. A block is a header of four words, `next`, `prev`, `length` and `used`,
followed by `length` bytes of payload; all blocks, free or not, hang in address order on the
list head of `vm_heap`, which lives outside the heap with three counters behind it.

A call gives the memory it leaves, its return value and what it reported through `bug`.
A loop over the list that would not end gives `none`.
-/

set_option linter.style.nameCheck false

namespace Raincloud

open Infra Infra.LinkStore

/-! ## `struct mm_block` -/

def blockStructSize : Nat := 32

def blockLength (m : Mem) (entry : Nat) : Nat := m.load64 (entry + 16)

def blockUsed (m : Mem) (entry : Nat) : Nat := m.load64 (entry + 24)

def setBlockLength (m : Mem) (entry v : Nat) : Mem := m.store64 (entry + 16) v

def setBlockUsed (m : Mem) (entry v : Nat) : Mem := m.store64 (entry + 24) v

/-! ## `vm_heap` -/

/-- Where `vm_heap` is: a list head and three counters. -/
abbrev VmHeap := KernelObject 40

namespace VmHeap

def available (vmHeap : VmHeap) (m : Mem) : Nat := m.load64 (vmHeap.addr + 16)

def total (vmHeap : VmHeap) (m : Mem) : Nat := m.load64 (vmHeap.addr + 24)

def blockCount (vmHeap : VmHeap) (m : Mem) : Nat := m.load64 (vmHeap.addr + 32)

def setAvailable (vmHeap : VmHeap) (m : Mem) (v : Nat) : Mem := m.store64 (vmHeap.addr + 16) v

def setTotal (vmHeap : VmHeap) (m : Mem) (v : Nat) : Mem := m.store64 (vmHeap.addr + 24) v

def setBlockCount (vmHeap : VmHeap) (m : Mem) (v : Nat) : Mem := m.store64 (vmHeap.addr + 32) v

end VmHeap

/-- What the heap reports through `bug`. -/
inductive HeapBug where
  | freed (ptr : Nat)
  | corrupted
  | leakage (total found : Nat)
  deriving DecidableEq

variable (vmHeap : VmHeap)

/-! ## Allocation -/

/-- Round size to a multiple of 16. -/
def roundsize (size : Nat) : Nat :=
  if size &&& 0xf ≠ 0 then add64 (size &&& 0xfffffffffffffff0) 0x10 else size

/-- The loop of `__malloc`, from the list node `it` on. -/
def __mallocFrom (size : Nat) : Nat → Nat → Mem → Option (Nat × Mem)
  | 0, _, _ => none
  | fuel + 1, it, m =>
    if it = vmHeap.addr then some (NULL, m)
    else if blockUsed m it ≠ 0 ∨ blockLength m it < size then
      __mallocFrom size fuel (next m it) m
    else if blockLength m it < add64 (add64 size blockStructSize) 16 then
      let m := setBlockUsed m it 1
      let m := vmHeap.setAvailable m (sub64 (vmHeap.available m) (blockLength m it))
      some (add64 it blockStructSize, m)
    else
      let m := setBlockLength m it (sub64 (blockLength m it) (add64 size blockStructSize))
      let newEntry := add64 (add64 it blockStructSize) (blockLength m it)
      let m := listInit m newEntry
      let m := setBlockLength m newEntry size
      let m := setBlockUsed m newEntry 1
      let m := listAddAfter m it newEntry
      let m := vmHeap.setAvailable m
        (sub64 (vmHeap.available m) (add64 (blockLength m newEntry) blockStructSize))
      let m := vmHeap.setBlockCount m (add64 (vmHeap.blockCount m) 1)
      some (add64 newEntry blockStructSize, m)

def __malloc (size : Nat) (m : Mem) : Option (Nat × Mem) :=
  if listEmpty m vmHeap.addr then some (NULL, m)
  else __mallocFrom vmHeap size walkFuel (next m vmHeap.addr) m

/-! ## Release -/

def __free (ptr : Nat) (m : Mem) : Mem × List HeapBug :=
  let entry := sub64 ptr blockStructSize
  if blockUsed m entry = 1 then
    let m := setBlockUsed m entry 0
    (vmHeap.setAvailable m (add64 (vmHeap.available m) (blockLength m entry)), [])
  else (m, [.freed ptr])

/-! ## Merging -/

/-- The condition of the inner loop of `__merge_block`. -/
def __mergeCond (m : Mem) (entry nextEntry : Nat) : Bool :=
  blockUsed m entry = 0 ∧ blockUsed m nextEntry = 0

/-- Its body: `entry` swallows `nextEntry`. -/
def __mergeBody (m : Mem) (entry nextEntry : Nat) : Mem :=
  let m := setBlockLength m entry
    (add64 (blockLength m entry) (add64 (blockLength m nextEntry) blockStructSize))
  let m := listDel m nextEntry
  let m := memset m nextEntry 0 blockStructSize
  let m := vmHeap.setBlockCount m (sub64 (vmHeap.blockCount m) 1)
  vmHeap.setAvailable m (add64 (vmHeap.available m) blockStructSize)

def __mergeBlock (m : Mem) : Option Mem :=
  mergeWalk __mergeCond (__mergeBody vmHeap) vmHeap.addr walkFuel walkFuel
    (next m vmHeap.addr) m

/-! ## The consistency check -/

/-- The loop of `__mm_list_consistency_check`: the sum of the lengths, and the reports. -/
def __mmListCheckFrom (m : Mem) : Nat → Nat → Nat → Option (Nat × List HeapBug)
  | 0, _, _ => none
  | fuel + 1, it, sum =>
    if it = vmHeap.addr then some (sum, [])
    else
      (__mmListCheckFrom m fuel (next m it) (add64 sum (blockLength m it))).map fun r =>
        if next m it ≠ vmHeap.addr
            ∧ add64 (add64 it (blockLength m it)) blockStructSize ≠ next m it then
          (r.1, .corrupted :: r.2)
        else r

def __mmListConsistencyCheck (m : Mem) : Option (List HeapBug) :=
  (__mmListCheckFrom vmHeap m walkFuel (next m vmHeap.addr) 0).map fun r =>
    if add64 r.1 (vmHeap.blockCount m * blockStructSize % 2 ^ 64) ≠ vmHeap.total m then
      r.2 ++ [.leakage (vmHeap.total m) r.1]
    else r.2

/-! ## `malloc` and `free` -/

/-- What a call to the heap leaves and returns. -/
structure HeapCall where
  mem : Mem
  ret : Nat
  bugs : List HeapBug

/-- Two attempts, with a merge in between when the first one fails. -/
def mallocBlock (size : Nat) (m : Mem) : Option (Nat × Mem) :=
  (__malloc vmHeap size m).bind fun r =>
    if r.1 = NULL then (__mergeBlock vmHeap r.2).bind (__malloc vmHeap size) else some r

def malloc (size : Nat) (m : Mem) : Option HeapCall :=
  if size = 0 then some ⟨m, NULL, []⟩
  else
    let size := roundsize size
    (mallocBlock vmHeap size m).bind fun r =>
      let m := memset r.2 r.1 0 size
      (__mmListConsistencyCheck vmHeap m).map fun bugs => ⟨m, r.1, bugs⟩

def free (ptr : Nat) (m : Mem) : Option HeapCall :=
  let r := __free vmHeap ptr m
  (__mmListConsistencyCheck vmHeap r.1).map fun bugs => ⟨r.1, NULL, r.2 ++ bugs⟩

/-! ## Start -/

/-- `INITIAL_HEAP_SIZE`, in pages. -/
def initialHeapSize : Nat := 0x10000

/-- `malloc_init` up to its self-test, with the heap window backed by pages already. -/
def mallocInit (m : Mem) : Mem :=
  let m := listInit m vmHeap.addr
  let m := vmHeap.setTotal m (shl64 initialHeapSize 12)
  let m := vmHeap.setBlockCount m 1
  let m := vmHeap.setAvailable m
    (sub64 (vmHeap.total m) (vmHeap.blockCount m * blockStructSize % 2 ^ 64))
  let m := listInit m kernelHeapBase
  let m := listAddAfter m vmHeap.addr kernelHeapBase
  let m := setBlockLength m kernelHeapBase (vmHeap.available m)
  setBlockUsed m kernelHeapBase 0

end Raincloud
