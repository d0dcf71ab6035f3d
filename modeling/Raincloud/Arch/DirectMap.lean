import Raincloud.Infra.Word
import Raincloud.Mm.Layout

/-!
# The direct map

`paging.h`. All physical memory is mapped at `PHY_MAP_BASE`, 16 TB of it. An `assert` that
fails halts the machine: there is no result.
-/

namespace Raincloud

open Infra

def convertVirtToPhy (addr : Nat) : Option Nat :=
  if phyMapBase < addr then some (sub64 addr phyMapBase) else none

def convertPhyToVirt (addr : Nat) : Option Nat :=
  if addr < phyMapBase then some (add64 addr phyMapBase) else none

theorem convertVirtToPhy_eq {addr : Nat} (h : phyMapBase < addr) (hlt : addr < 2 ^ 64) :
    convertVirtToPhy addr = some (addr - phyMapBase) := by
  rw [convertVirtToPhy, if_pos h, sub64_eq (by omega) hlt]

theorem convertPhyToVirt_eq {addr : Nat} (h : addr < phyMapSize) :
    convertPhyToVirt addr = some (addr + phyMapBase) := by
  simp only [phyMapSize] at h
  rw [convertPhyToVirt, if_pos (by simp only [phyMapBase]; omega),
    add64_eq (by simp only [phyMapBase]; omega)]

end Raincloud
