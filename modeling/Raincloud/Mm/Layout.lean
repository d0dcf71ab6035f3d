import Raincloud.Infra.MemRing

/-!
# The address space

The windows of `arch/x86/mm.h`, and where the linker script puts static objects.
-/

namespace Raincloud

open Infra

def kernelImageBase : Nat := 0xffffffff80000000

theorem kernelImageBase_aligned : kernelImageBase % 8 = 0 := by decide

def kernelHeapBase : Nat := 0xfffff80000000000

def phyMapBase : Nat := 0xffff800000000000

def invalidAddr : Nat := 0xffffffffffffffff

/-- Size of the direct map of physical memory, `doc/mm.txt`. -/
def phyMapSize : Nat := 0x100000000000

def NULL : Nat := 0

/-- A static object of `size` bytes, placed in the kernel image by the linker script. -/
structure KernelObject (size : Nat) where
  addr : Nat
  aligned : addr % 8 = 0
  image : kernelImageBase ≤ addr
  fits : addr + size ≤ 2 ^ 64

/--
A bound on the number of nodes a walk along a list can visit: there are fewer list heads
than addresses, so a walk that has not come back to its head by then goes round forever.
-/
def walkFuel : Nat := 2 ^ 64

/-! ## `memset` and `memcpy` -/

def memset (m : Mem) (dest : Nat) (ch : UInt8) (n : Nat) : Mem := m.fill dest ch n

def memcpy (m : Mem) (dest src n : Nat) : Mem := m.copy dest src n

end Raincloud
