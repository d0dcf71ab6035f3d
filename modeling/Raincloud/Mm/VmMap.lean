import Raincloud.Arch.PageAlloc
import Raincloud.Kernel.Objects

/-!
# `vm_map.c`

The memory map of a process: a list of entries, each a range of virtual pages with the
physical pages behind it. The head of the list is a `vm_map_t` as well; its own entry is not
used.
-/

set_option linter.style.nameCheck false

namespace Raincloud

open Infra Infra.LinkStore Kernel

def vmMapInit (vmMap : Ptr) (s : KernelState) : KernelState :=
  let s := listInit s (.vmMapNode vmMap)
  { s with mapEntry := Function.update s.mapEntry vmMap NULL }

/-- The writes of `vm_map_add`, with its node allocated. -/
def vmMapLink (vmMap newMap entry : Ptr) (s : KernelState) : KernelState :=
  let s := listInit s (.vmMapNode newMap)
  let s := listAddBefore s (.vmMapNode vmMap) (.vmMapNode newMap)
  { s with mapEntry := Function.update s.mapEntry newMap entry }

def vmMapAdd (vmMap entry : Ptr) : Kernel Int := do
  let newMap ← Kernel.malloc
  if newMap = NULL then return -1
  Program.modify (vmMapLink vmMap newMap entry)
  return 0

/-- `page_free(addr, n)`. -/
def Kernel.pageFree (mmPool : MmPool) (addr n : Nat) : Kernel Unit := fun _ s =>
  match Raincloud.pageFree mmPool addr n s.paging.mem with
  | some r => .ok ((), { s with paging := { s.paging with mem := r.mem } })
  | none => .error .halted

/-- The loop of `vm_map_clear`: while the list is not empty, its first node goes. -/
def vmMapClearLoop (mmPool : MmPool) (vmMap : Ptr) : Nat → Kernel Unit
  | 0 => Program.fault .endless
  | fuel + 1 => do
    if ← Program.gets fun s => listEmpty s (.vmMapNode vmMap) then pure ()
    else
      let it ← Program.gets fun s => s.next (.vmMapNode vmMap)
      let node ← listEntry it.vmMap?
      let entry ← Program.gets fun s => s.entries (s.mapEntry node)
      Kernel.pageFree mmPool entry.phyAddr entry.pageNums
      Program.modify fun s => listDel s it
      Kernel.free node
      vmMapClearLoop mmPool vmMap fuel

def vmMapClear (mmPool : MmPool) (vmMap : Ptr) : Kernel Unit :=
  vmMapClearLoop mmPool vmMap walkFuel

/-- `modify_chunk_mapping(get_current_plm4e(), ..)`. -/
def mapChunk (entry : VmMapEntry) : Kernel Nat := fun e s =>
  onPaging (modifyChunkMapping (e.pageAlloc 1) s.plm4e entry.virtAddr entry.phyAddr entry.pageNums
    entry.flags) e s

def vmMapDoMapping (vmMap : Ptr) : Kernel Unit :=
  listForEach (.vmMapNode vmMap) fun it => do
    let vmMap ← listEntry it.vmMap?
    let entry ← Program.gets fun s => s.entries (s.mapEntry vmMap)
    Program.check (vmMap ≠ NULL) .halted
    Program.check (entry.flags &&& pagingMaskAddr = 0) .halted
    Program.check (add64 entry.virtAddr (shl64 entry.pageNums 12) ≤ 0x0000800000000000) .halted
    let _ ← mapChunk entry

/-- The body is empty in the source too. -/
def vmMapUndoMapping (_vmMap : Ptr) : Kernel Unit := pure ()

/-- `memcpy` through the direct map, from one physical address to another. -/
def copyPages (new old pageNums : Nat) : Kernel Unit := do
  match convertPhyToVirt new, convertPhyToVirt old with
  | some dest, some src =>
    Program.modify fun s => { s with paging :=
      { s.paging with mem := memcpy s.paging.mem dest src (shl64 pageNums 12) } }
  | _, _ => Program.fault .halted

def vmMapEntryDup (newEntry oldEntry : Ptr) : Kernel Unit := do
  let old ← Program.gets fun s => s.entries oldEntry
  let phyAddr ← Kernel.pageAlloc old.pageNums
  copyPages phyAddr old.phyAddr old.pageNums
  Program.modify fun s => s.setEntry newEntry
    ⟨old.virtAddr, phyAddr, old.pageNums, old.flags, 1⟩

def vmMapDup (newVmMap oldVmMap : Ptr) : Kernel Unit := do
  Program.modify (vmMapInit newVmMap)
  listForEach (.vmMapNode oldVmMap) fun it => do
    let oldVmMap ← listEntry it.vmMap?
    let oldEntry ← Program.gets fun s => s.mapEntry oldVmMap
    Program.check (oldEntry ≠ NULL) .halted
    let newEntry ← Kernel.malloc
    vmMapEntryDup newEntry oldEntry
    let _ ← vmMapAdd newVmMap newEntry

end Raincloud
