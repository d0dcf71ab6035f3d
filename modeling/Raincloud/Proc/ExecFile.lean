import Raincloud.Arch.TablePool
import Raincloud.Fs.FileNode
import Raincloud.Fs.WholeFile
import Raincloud.Mm.DoMapping
import Raincloud.Proc.ExecExit

/-!
# The file that `exec` loads

From a process `exec` makes a map of one page, reads the file to it and starts the thread again.
What the search and the read return is only reported, so the process loses its map whether or
not the file is there and fits in the page.
-/

set_option linter.style.nameCheck false

namespace Raincloud

open Infra Infra.LinkStore Infra.Frame Kernel Program

/-! ## The code -/

/-- What `exec` reads from. -/
structure ExecVolume where
  drive : Drive
  fresh : Fresh
  /-- What the block of the file holds before the search. -/
  file : FATFile
  /-- How often a loop over the volume may go round. -/
  rounds : Nat

def FatFault.fault : FatFault → Fault
  | .endless => .endless
  | .overflow | .nullPointer => .wildPointer

/-- The memory after `fatfs_readfile(fs, file, ptr, 4096)`. -/
def ExecVolume.readFile (v : ExecVolume) (fs : FATFS) (file : FATFile) (ptr : Nat) (mem : Mem) :
    Mem :=
  match fatfsReadfile v.drive fs v.rounds file ptr 4096 mem with
  | .ok (_, mem) => mem
  | .error _ => mem

variable {mmPool : MmPool} {v : ExecVolume} {path : List UInt8} {fs : FATFS} {file : FATFile}
  {cs : List Nat} {k : Nat} {e : Env} {s s' : KernelState} {p t : Ptr} {u : Unit}

/-! ## The map is new -/

/-- The entry that `exec` makes. -/
def textPage (phyAddr : Nat) : VmMapEntry := ⟨0, phyAddr, 1, defaultUserTextPteFlags, 1⟩

/-- The map has one node, and behind it an entry for a page at 0. -/
def OnePage (s : KernelState) (map phyAddr : Nat) : Prop :=
  ∃ n, n ≠ NULL ∧ Ring s (.vmMapNode map) [.vmMapNode n] ∧ entryOf s n = textPage phyAddr

/-- Lists and entries that stay keep the map. -/
theorem OnePage.congr {map phyAddr : Nat} (h : OnePage s map phyAddr) (hnext : s'.next = s.next)
    (hprev : s'.prev = s.prev) (hmap : s'.mapEntry = s.mapEntry) (hentries : s'.entries = s.entries) :
    OnePage s' map phyAddr := by
  obtain ⟨n, hn, hring, hentry⟩ := h
  refine ⟨n, hn, hring.congr fun r _ => ⟨congrFun hnext r, congrFun hprev r⟩, ?_⟩
  rw [entryOf, hmap, hentries]
  exact hentry

/-- The page lies beside the tables and the pool, and the tables for address 0 are there. -/
structure PageReady (mmPool : MmPool) (k : Nat) (s : KernelState) (phyAddr : Nat) : Prop where
  mappable : Mappable phyAddr defaultUserTextPteFlags
  fits : phyAddr + 4096 ≤ phyMapSize
  apart : ∃ F, TablesApart (PoolWith mmPool) s.plm4e (pageArea phyAddr) k s.paging.mem F
  path : ∃ t, walk childTable s.paging.mem (tablePath 0) s.plm4e = some t

variable {n : Nat} {f : Nat → UInt8}

/-- The page may be written. -/
theorem PageReady.write {phyAddr : Nat} {m : Mem} (h : PageReady mmPool k s phyAddr)
    (hm : Mem.SameOutside (pageArea phyAddr) s.paging.mem m) :
    PageReady mmPool k { s with paging := { s.paging with mem := m } } phyAddr := by
  obtain ⟨F, ha⟩ := h.apart
  obtain ⟨ha', -, hwalk⟩ := ha.write (poolAlloc_pageSupply mmPool) hm
  obtain ⟨t, ht⟩ := h.path
  exact ⟨h.mappable, h.fits, ⟨F, ha'⟩, t, (hwalk _ (isPath_tablePath 0) le_rfl).trans ht⟩

end Raincloud
