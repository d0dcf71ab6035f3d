import Raincloud.Arch.DirectMap

/-!
# The page tables of `paging.c`

Mapping and query of pages in a 4-level table tree. The functions run on the memory and may
halt the machine, at an `assert` or when the validation fails. `page_alloc(1)` is a parameter
`pageAlloc`: what it returns and the memory it leaves. Its calls are recorded, for the
assumptions on the pages it hands out.
-/

set_option linter.style.nameCheck false

namespace Raincloud

open Infra

/-! ## Constants -/

def pagingMaskP : Nat := 0x0000000000000001

def pagingMaskUS : Nat := 0x0000000000000004

def pagingMaskAddr : Nat := 0x0000fffffffff000

/-- `PAGING_MASK_P | R_W | U_S | PWT | PCD | A | D | PAT | G | XD`: what `__get_flag` keeps. -/
def pagingMaskFlag : Nat := 0x80000000000001ff

def pagingMaskEntryOffset : Nat := 0x1ff

/-- `PAGING_MASK_PWT | PAGING_MASK_PCD | PAGING_MASK_U_S`. -/
def defaultEmptyFlag : Nat := 0x1c

/-- `PAGING_MASK_P | PAGING_MASK_R_W | PAGING_MASK_PWT | PAGING_MASK_PCD | PAGING_MASK_U_S`. -/
def defaultPtFlag : Nat := 0x1f

/-! ## Programs on page tables -/

/-- A call of `page_alloc(1)`: the memory before it, the page returned, the memory after it. -/
structure PageAllocCall where
  before : Mem
  page : Nat
  after : Mem

structure PagingState where
  mem : Mem
  calls : List PageAllocCall

/-- A program: its result, `none` when it halts the machine, and the state it leaves. -/
def Paging (α : Type) := PagingState → Option α × PagingState

instance : Monad Paging where
  pure a := fun s => (some a, s)
  bind x f := fun s =>
    match x s with
    | (some a, s') => f a s'
    | (none, s') => (none, s')

namespace Paging

theorem bind_apply {α β : Type} (x : Paging α) (f : α → Paging β) (s : PagingState) :
    (x >>= f) s = match x s with
      | (some a, s') => f a s'
      | (none, s') => (none, s') := rfl

def halt {α : Type} : Paging α := fun s => (none, s)

/-- A value, or a failed assertion. -/
def check {α : Type} (o : Option α) : Paging α := fun s => (o, s)

def read (a : Nat) : Paging Nat := fun s => (some (s.mem.load64 a), s)

def write (a v : Nat) : Paging Unit := fun s => (some (), { s with mem := s.mem.store64 a v })

def alloc (pageAlloc : Mem → Nat × Mem) : Paging Nat := fun s =>
  let r := pageAlloc s.mem
  (some r.1, ⟨r.2, s.calls ++ [⟨s.mem, r.1, r.2⟩]⟩)

end Paging

open Paging

/-! ## Entries -/

def __getPhyAddr (entry : Nat) : Nat := entry &&& pagingMaskAddr

def __getFlag (entry : Nat) : Nat := entry &&& pagingMaskFlag

def __getVirtAddr (entry : Nat) : Option Nat := convertPhyToVirt (entry &&& pagingMaskAddr)

def __mkEntry (addr flag : Nat) : Nat := addr &&& pagingMaskAddr ||| flag

/-- The address of the entry of a table that `virt >> shift` selects. -/
def entryAddr (table virt shift : Nat) : Nat :=
  add64 table (8 * (virt >>> shift &&& pagingMaskEntryOffset))

/-- The loop of `__init_table`, for the first entries. -/
def __initTableTo (m : Mem) (table initEntry : Nat) : Nat → Mem
  | 0 => m
  | n + 1 => (__initTableTo m table initEntry n).store64 (add64 table (8 * n)) initEntry

def __initTable (table initEntry : Nat) : Paging Unit := fun s =>
  (some (), { s with mem := __initTableTo s.mem table initEntry 512 })

variable (pageAlloc : Mem → Nat × Mem)

/-! ## Mapping -/

def __allocNewPageTable : Paging Nat := do
  let page ← alloc pageAlloc
  check (convertPhyToVirt page)

/-- One level of `__do_mapping`: the table behind an entry, a new one when there is none. -/
def __nextTable (entry : Nat) : Paging Nat := do
  let e ← read entry
  if e &&& pagingMaskP = 0 then
    let table ← __allocNewPageTable pageAlloc
    __initTable table defaultEmptyFlag
    let phy ← check (convertVirtToPhy table)
    write entry (__mkEntry phy defaultPtFlag)
    pure table
  else
    check (__getVirtAddr e)

def __doMapping (plm4e virtAddr phyAddr flag : Nat) : Paging Unit := do
  let pdpte ← __nextTable pageAlloc (entryAddr plm4e virtAddr 39)
  let pde ← __nextTable pageAlloc (entryAddr pdpte virtAddr 30)
  let pte ← __nextTable pageAlloc (entryAddr pde virtAddr 21)
  write (entryAddr pte virtAddr 12) (__mkEntry phyAddr flag)

def __mapByPages (plm4e flag : Nat) : Nat → Nat → Nat → Paging Unit
  | 0, _, _ => pure ()
  | n + 1, virt, phy => do
    __doMapping pageAlloc plm4e virt phy flag
    __mapByPages plm4e flag n (add64 virt 0x1000) (add64 phy 0x1000)

/-! ## Query -/

/-- One level of `__query_mapping`: the table behind an entry, if it is present. -/
def __queryTable (entry : Nat) : Paging (Option Nat) := do
  let e ← read entry
  if e &&& pagingMaskP = 0 then pure none
  else return some (← check (__getVirtAddr e))

/-- The physical address and the flags of a page, or nothing when the status is -1. -/
def __queryMapping (plm4e virtAddr : Nat) : Paging (Option (Nat × Nat)) := do
  let some pdpte ← __queryTable (entryAddr plm4e virtAddr 39) | pure none
  let some pde ← __queryTable (entryAddr pdpte virtAddr 30) | pure none
  let some pte ← __queryTable (entryAddr pde virtAddr 21) | pure none
  let e ← read (entryAddr pte virtAddr 12)
  if e &&& pagingMaskP = 0 then pure none
  else pure (some (__getPhyAddr e, __getFlag e))

def __validateMapping (plm4e flag : Nat) : Nat → Nat → Nat → Paging Unit
  | 0, _, _ => pure ()
  | n + 1, virt, phy => do
    let r ← __queryMapping plm4e virt
    if r = some (phy, flag) then
      __validateMapping plm4e flag n (add64 virt 0x1000) (add64 phy 0x1000)
    else halt

/-! ## Entry points -/

def modifyChunkMapping (plm4e virtStartAddr phyStartAddr numberOfPages flag : Nat) :
    Paging Nat := do
  __mapByPages pageAlloc plm4e flag numberOfPages virtStartAddr phyStartAddr
  __validateMapping plm4e flag numberOfPages virtStartAddr phyStartAddr
  return 0

def queryMapping (plm4e virtAddr : Nat) : Paging (Option (Nat × Nat)) :=
  __queryMapping plm4e virtAddr

end Raincloud
