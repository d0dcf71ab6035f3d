import Raincloud.Fs.ReadFile
import Raincloud.Fs.ChainEnds
import Raincloud.Fs.Geometry

/-!
# The root directory

On a volume of type FAT32 the root directory is a chain, on the others it is a row of sectors
in front of the clusters. `fatfs_opendir` reads it by a field that only FAT32 has; on the other
volumes there are four bytes of the label in its place.
-/

set_option linter.style.nameCheck false

namespace Raincloud

open Infra Chase

variable {drive : Drive} {fs : FATFS}

/-- A chain is known by its first cluster. -/
theorem IsChain.unique {cs ds : List Nat} (h : IsChain drive fs cs) (h' : IsChain drive fs ds)
    (hhead : cs.headD 0 = ds.headD 0) : cs = ds := by
  induction h generalizing ds with
  | last h =>
    cases h' with
    | last => exact congrArg (fun c => [c]) hhead
    | cons hnext hne =>
      rw [List.headD_cons, List.headD_cons] at hhead
      rw [hhead] at h
      exact absurd (hnext.symm.trans h) hne
  | @cons c d cs hnext hne _ ih =>
    cases h' with
    | last h =>
      rw [List.headD_cons, List.headD_cons] at hhead
      rw [← hhead] at h
      exact absurd (hnext.symm.trans h) hne
    | @cons _ e es hnext' _ hes =>
      rw [List.headD_cons, List.headD_cons] at hhead
      subst hhead
      rw [ih hes (hnext.symm.trans hnext')]

section Empty

variable {boot : Mem}

end Empty

/-! ## The volumes of a boot sector -/

end Raincloud
