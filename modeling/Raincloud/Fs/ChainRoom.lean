import Raincloud.Fs.ChainEnds

/-!
# The room for a cluster chain

Before each cluster `read_cluster_chain` compares a sum of 32 bits with the size of the buffer.
When the buffer ends less than a cluster before 4 GiB the sum wraps to a small number, and a
chain that has not ended by then is read over the end of the buffer.
-/

set_option linter.style.nameCheck false

namespace Raincloud

open Infra Chase

variable {drive : Drive} {fs : FATFS} {fuel bufsize readSize c off n : Nat}

/-- The loop writes to byte `i` of the buffer. -/
def WritesTo (drive : Drive) (fs : FATFS) (bufsize c off i : Nat) : Prop :=
  ∃ fuel, ∃ p ∈ readChainReads drive fs bufsize fuel 0 c off,
    p.1 ≤ i ∧ i < p.1 + clusterSize fs

/-- A read writes to no byte outside its cluster. -/
theorem foldl_readCluster_outside {reads : List (Nat × Nat)} {buf i : Nat} :
    ∀ mem : Mem, (∀ p ∈ reads, ¬ (p.1 ≤ i ∧ i < p.1 + clusterSize fs)) →
      reads.foldl (fun m p => readCluster drive fs (buf + p.1) p.2 m) mem (buf + i)
        = mem (buf + i) := by
  induction reads with
  | nil => exact fun _ _ => rfl
  | cons p reads ih =>
    intro mem hout
    have hp := hout p List.mem_cons_self
    rw [List.foldl_cons, ih _ fun q hq => hout q (List.mem_cons_of_mem _ hq), readCluster_eq]
    exact if_neg (by omega)

/-- What is not written to is as it was. -/
theorem readClusterChain_frame {buf r i : Nat} {mem mem' : Mem}
    (h : readClusterChain drive fs fuel buf bufsize c off mem = some (r, mem'))
    (hi : ¬ WritesTo drive fs bufsize c off i) : mem' (buf + i) = mem (buf + i) := by
  rw [readChainLoop_reads h]
  exact foldl_readCluster_outside mem fun p hp hin => hi ⟨fuel, p, hp, hin⟩

/-! ## One round -/

end Raincloud
