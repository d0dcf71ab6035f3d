import Raincloud.Fs.FatEntry

/-!
# Reading cluster chains

A chain of clusters that ends has a length, and reading it from an offset on copies the
clusters behind the offset that fit in the buffer, one after another.
-/

set_option linter.style.nameCheck false

namespace Raincloud

open Infra

variable {drive : Drive} {fs : FATFS}

/-! ## Chains -/

/-- The clusters of a chain, up to the one whose entry ends the file. -/
inductive IsChain (drive : Drive) (fs : FATFS) : List Nat → Prop
  | last {c : Nat} (h : extractFatEntry drive fs c = fs.type.entryEndOfFile) : IsChain drive fs [c]
  | cons {c d : Nat} {ds : List Nat} (h : extractFatEntry drive fs c = d)
      (hne : d ≠ fs.type.entryEndOfFile) (hds : IsChain drive fs (d :: ds)) :
      IsChain drive fs (c :: d :: ds)

/-- `BPB_SecPerClus * 512`. -/
def clusterSize (fs : FATFS) : Nat := fs.bpb.secPerClus * 512

/-- Byte `j` of a cluster. -/
def clusterByte (drive : Drive) (fs : FATFS) (cluster j : Nat) : UInt8 :=
  drive.sector ((clusterStart fs cluster + j / 512) % 2 ^ 32) (j % 512)

/-- Byte `j` of the clusters of a list, one after another. -/
def chainByte (drive : Drive) (fs : FATFS) (clusters : List Nat) (j : Nat) : UInt8 :=
  clusterByte drive fs (clusters.getD (j / clusterSize fs) 0) (j % clusterSize fs)

theorem IsChain.length_pos {cs : List Nat} (h : IsChain drive fs cs) : 0 < cs.length := by
  cases h <;> exact Nat.succ_pos _

/-! ## Length -/

theorem chainLengthLoop_eq {cs : List Nat} (h : IsChain drive fs cs) :
    ∀ fuel n, cs.length ≤ fuel → n + cs.length < 2 ^ 32 →
      chainLengthLoop drive fs fuel n (cs.headD 0) = some (n + cs.length) := by
  induction h with
  | last h =>
    intro fuel n hfuel hn
    obtain ⟨fuel, rfl⟩ := Nat.exists_eq_add_of_le' hfuel
    rw [List.length_singleton] at hn
    rw [List.length_singleton, chainLengthLoop, List.headD_cons, Nat.mod_eq_of_lt hn, if_pos h]
  | @cons c d ds h hne hds ih =>
    intro fuel n hfuel hn
    have hlen : n + (c :: d :: ds).length = n + 1 + (d :: ds).length := by
      rw [List.length_cons]
      omega
    rw [List.length_cons] at hfuel
    obtain ⟨fuel, rfl⟩ := Nat.exists_eq_add_of_le' (Nat.le_trans (Nat.le_add_left 1 _) hfuel)
    have hrest := ih fuel (n + 1) (by omega) (by omega)
    rw [List.headD_cons] at hrest
    rw [chainLengthLoop, List.headD_cons, Nat.mod_eq_of_lt (by omega), h, if_neg hne, hrest, hlen]

/-! ## One cluster -/

theorem readClusterLoop_eq (drive : Drive) (buf start : Nat) : ∀ n i mem,
    readClusterLoop drive buf start n i mem = mem.put (buf + i * 512) (n * 512) fun j =>
      drive.sector ((start + i + j / 512) % 2 ^ 32) (j % 512)
  | 0, i, mem => by rw [readClusterLoop, Nat.zero_mul, Mem.put_zero]
  | n + 1, i, mem => by
    have hsector : pioReadSector drive (buf + i * 512) (start + i) mem
        = mem.put (buf + i * 512) 512 (drive.sector ((start + i) % 2 ^ 32)) := rfl
    have haddr : buf + (i + 1) * 512 = buf + i * 512 + 512 := by
      rw [Nat.succ_mul, Nat.add_assoc]
    have hlen : (n + 1) * 512 = 512 + n * 512 := by rw [Nat.succ_mul, Nat.add_comm]
    rw [readClusterLoop, readClusterLoop_eq drive buf start n, hsector, haddr, Mem.put_put, hlen]
    refine Mem.put_congr fun j _ => ?_
    by_cases hj : j < 512
    · rw [if_pos hj, Nat.div_eq_of_lt hj, Nat.mod_eq_of_lt hj, Nat.add_zero]
    · have hdiv : start + (i + 1) + (j - 512) / 512 = start + i + j / 512 := by omega
      have hmod : (j - 512) % 512 = j % 512 := by omega
      rw [if_neg hj, hdiv, hmod]

/-- `read_cluster` writes the sectors of a cluster one after another. -/
theorem readCluster_eq (buf cluster : Nat) (mem : Mem) :
    readCluster drive fs buf cluster mem
      = mem.put buf (clusterSize fs) (clusterByte drive fs cluster) := by
  rw [readCluster, readClusterLoop_eq, Nat.zero_mul, Nat.add_zero, Nat.add_zero, ← clusterSize]
  exact Mem.put_congr fun j _ => by rw [clusterByte]

/-! ## The chain -/

/-- The clusters of `n` that are read: those behind `k` that fit in `room` bytes. -/
def clustersRead (fs : FATFS) (n room k : Nat) : Nat := min (room / clusterSize fs) (n - k)

/-- The bytes of the first cluster, and of the clusters behind it. -/
theorem chainByte_cons (drive : Drive) (hB : 0 < clusterSize fs) (c : Nat) (cs : List Nat) (j : Nat) :
    chainByte drive fs (c :: cs) j
      = if j < clusterSize fs then clusterByte drive fs c j
        else chainByte drive fs cs (j - clusterSize fs) := by
  by_cases hj : j < clusterSize fs
  · rw [if_pos hj, chainByte, Nat.div_eq_of_lt hj, Nat.mod_eq_of_lt hj, List.getD_cons_zero]
  · have hle : clusterSize fs ≤ j := Nat.le_of_not_lt hj
    have hdiv : j / clusterSize fs = (j - clusterSize fs) / clusterSize fs + 1 :=
      Nat.div_eq_sub_div hB hle
    rw [if_neg hj, chainByte, chainByte, hdiv, List.getD_cons_succ, ← Nat.mod_eq_sub_mod hle]

/-- A cluster and the clusters read behind it. -/
theorem put_cluster (drive : Drive) (hB : 0 < clusterSize fs) (c : Nat) (cs : List Nat)
    (buf n : Nat) (mem : Mem) :
    (mem.put buf (clusterSize fs) (clusterByte drive fs c)).put (buf + clusterSize fs)
        (clusterSize fs * n) (chainByte drive fs cs)
      = mem.put buf (clusterSize fs * (n + 1)) (chainByte drive fs (c :: cs)) := by
  rw [Mem.put_put, Nat.mul_succ, Nat.add_comm (clusterSize fs * n)]
  exact Mem.put_congr fun j _ => (chainByte_cons drive hB c cs j).symm

/-- One cluster more fits. -/
theorem clustersRead_succ (hB : 0 < clusterSize fs) {n room : Nat} (h : clusterSize fs ≤ room) :
    clustersRead fs (n + 1) room 0 = clustersRead fs n (room - clusterSize fs) 0 + 1 := by
  rw [clustersRead, clustersRead, Nat.div_eq_sub_div hB h, Nat.sub_zero, Nat.sub_zero,
    Nat.succ_min_succ]

theorem clustersRead_skip (n room k : Nat) :
    clustersRead fs (n + 1) room (k + 1) = clustersRead fs n room k := by
  rw [clustersRead, clustersRead, Nat.succ_sub_succ]

theorem clustersRead_full {n room k : Nat} (h : room < clusterSize fs) :
    clustersRead fs n room k = 0 := by
  rw [clustersRead, Nat.div_eq_of_lt h, Nat.zero_min]

section Loop

variable {buf bufsize : Nat} {fuel readSize c k : Nat} {mem : Mem}

/-- The buffer is full: the loop ends before it looks at the chain. -/
theorem readChainLoop_full (hsize : bufsize + clusterSize fs < 2 ^ 32) (hread : readSize ≤ bufsize)
    (hroom : bufsize - readSize < clusterSize fs) :
    readChainLoop drive fs buf bufsize (fuel + 1) readSize c k mem = some (readSize, mem) := by
  rw [readChainLoop, ← clusterSize, Nat.mod_eq_of_lt (by omega), if_pos (by omega)]

/-- A cluster is read. -/
theorem readChainLoop_read (hsize : bufsize < 2 ^ 32)
    (hread : readSize + clusterSize fs ≤ bufsize) :
    readChainLoop drive fs buf bufsize (fuel + 1) readSize c 0 mem
      = if extractFatEntry drive fs c = fs.type.entryEndOfFile then
          some (readSize + clusterSize fs,
            mem.put (buf + readSize) (clusterSize fs) (clusterByte drive fs c))
        else readChainLoop drive fs buf bufsize fuel (readSize + clusterSize fs)
          (extractFatEntry drive fs c) 0
          (mem.put (buf + readSize) (clusterSize fs) (clusterByte drive fs c)) := by
  rw [readChainLoop, ← clusterSize, Nat.mod_eq_of_lt (by omega), if_neg (by omega), if_pos rfl,
    readCluster_eq]

/-- A cluster is skipped. -/
theorem readChainLoop_skip (hsize : bufsize < 2 ^ 32)
    (hread : readSize + clusterSize fs ≤ bufsize) :
    readChainLoop drive fs buf bufsize (fuel + 1) readSize c (k + 1) mem
      = if extractFatEntry drive fs c = fs.type.entryEndOfFile then some (readSize, mem)
        else readChainLoop drive fs buf bufsize fuel readSize (extractFatEntry drive fs c) k mem := by
  rw [readChainLoop, ← clusterSize, Nat.mod_eq_of_lt (by omega), if_neg (by omega),
    if_neg (Nat.succ_ne_zero k), Nat.add_sub_cancel]

end Loop

/-- The loop of `read_cluster_chain` with `readSize` bytes read before. -/
theorem readChainLoop_eq {cs : List Nat} (h : IsChain drive fs cs) (hB : 0 < clusterSize fs)
    (buf : Nat) {bufsize : Nat} (hsize : bufsize + clusterSize fs < 2 ^ 32) :
    ∀ fuel readSize k mem, cs.length ≤ fuel → readSize ≤ bufsize →
      readChainLoop drive fs buf bufsize fuel readSize (cs.headD 0) k mem
        = some (readSize + clusterSize fs * clustersRead fs cs.length (bufsize - readSize) k,
          mem.put (buf + readSize)
            (clusterSize fs * clustersRead fs cs.length (bufsize - readSize) k)
            (chainByte drive fs (cs.drop k))) := by
  induction h with
  | @last c hend =>
    intro fuel readSize k mem hfuel hread
    obtain ⟨fuel, rfl⟩ := Nat.exists_eq_add_of_le' (Nat.le_trans Nat.one_pos hfuel)
    rw [List.headD_cons, List.length_singleton]
    by_cases hroom : bufsize - readSize < clusterSize fs
    · rw [readChainLoop_full hsize hread hroom, clustersRead_full hroom, Nat.mul_zero,
        Nat.add_zero, Mem.put_zero]
    have hle : clusterSize fs ≤ bufsize - readSize := Nat.le_of_not_lt hroom
    cases k with
    | zero =>
      have hput := put_cluster drive hB c [] (buf + readSize) 0 mem
      rw [Nat.mul_zero, Mem.put_zero] at hput
      rw [readChainLoop_read (by omega) (by omega), if_pos hend, clustersRead_succ hB hle, clustersRead,
        Nat.sub_zero, Nat.min_zero, List.drop_zero, hput, Nat.zero_add, Nat.mul_one]
    | succ k =>
      rw [readChainLoop_skip (by omega) (by omega), if_pos hend, clustersRead_skip, clustersRead,
        Nat.zero_sub, Nat.min_zero, Nat.mul_zero, Nat.add_zero, Mem.put_zero]
  | @cons c d ds hnext hne hds ih =>
    intro fuel readSize k mem hfuel hread
    rw [List.length_cons] at hfuel
    obtain ⟨fuel, rfl⟩ := Nat.exists_eq_add_of_le' (Nat.le_trans (Nat.le_add_left 1 _) hfuel)
    have hfuel : (d :: ds).length ≤ fuel := Nat.le_of_succ_le_succ hfuel
    have hlen : (c :: d :: ds).length = (d :: ds).length + 1 := List.length_cons
    rw [List.headD_cons, hlen]
    by_cases hroom : bufsize - readSize < clusterSize fs
    · rw [readChainLoop_full hsize hread hroom, clustersRead_full hroom, Nat.mul_zero,
        Nat.add_zero, Mem.put_zero]
    have hle : clusterSize fs ≤ bufsize - readSize := Nat.le_of_not_lt hroom
    cases k with
    | zero =>
      have hih := ih fuel (readSize + clusterSize fs) 0
        (mem.put (buf + readSize) (clusterSize fs) (clusterByte drive fs c)) hfuel (by omega)
      rw [List.headD_cons, List.drop_zero, ← Nat.add_assoc, put_cluster drive hB, Nat.sub_add_eq] at hih
      rw [readChainLoop_read (by omega) (by omega), hnext, if_neg hne, hih, clustersRead_succ hB hle,
        Nat.mul_succ, List.drop_zero, Nat.add_assoc readSize, Nat.add_comm (clusterSize fs)]
    | succ k =>
      have hih := ih fuel readSize k mem hfuel hread
      rw [List.headD_cons] at hih
      rw [readChainLoop_skip (by omega) (by omega), hnext, if_neg hne, hih, clustersRead_skip,
        List.drop_succ_cons]

/--
The length of a chain that ends is computed, and a read from cluster `k` on returns the size of
the clusters behind `k` that fit and fills as many bytes of the buffer with them in the order
of the chain. With a buffer for the whole chain the whole buffer is filled.
-/
theorem readClusterChain_ok {cs : List Nat} (h : IsChain drive fs cs) (hB : 0 < clusterSize fs)
    (hlen : cs.length * clusterSize fs < 2 ^ 32) {bufsize : Nat}
    (hsize : bufsize + clusterSize fs < 2 ^ 32) (buf k : Nat) (mem : Mem) {fuel : Nat}
    (hfuel : cs.length ≤ fuel) :
    computeClusterChainLength drive fs fuel (cs.headD 0) = some cs.length ∧
      readClusterChain drive fs fuel buf bufsize (cs.headD 0) k mem
        = some (clusterSize fs * min (bufsize / clusterSize fs) (cs.length - k),
          mem.put buf (clusterSize fs * min (bufsize / clusterSize fs) (cs.length - k))
            (chainByte drive fs (cs.drop k))) ∧
      (bufsize = cs.length * clusterSize fs →
        ∃ mem', readClusterChain drive fs fuel buf bufsize (cs.headD 0) 0 mem
          = some (bufsize, mem')) := by
  have hread : ∀ k, readClusterChain drive fs fuel buf bufsize (cs.headD 0) k mem
      = some (clusterSize fs * min (bufsize / clusterSize fs) (cs.length - k),
        mem.put buf (clusterSize fs * min (bufsize / clusterSize fs) (cs.length - k))
          (chainByte drive fs (cs.drop k))) := fun k => by
    have hloop := readChainLoop_eq h hB buf hsize fuel 0 k mem hfuel (Nat.zero_le _)
    rw [Nat.zero_add, Nat.add_zero, Nat.sub_zero] at hloop
    exact hloop
  refine ⟨?_, hread k, fun hall => ?_⟩
  · have hlt : cs.length < 2 ^ 32 := Nat.lt_of_le_of_lt (Nat.le_mul_of_pos_right _ hB) hlen
    rw [computeClusterChainLength, chainLengthLoop_eq h fuel 0 hfuel (by omega), Nat.zero_add]
  · have hfull : clusterSize fs * min (bufsize / clusterSize fs) (cs.length - 0) = bufsize := by
      rw [hall, Nat.mul_div_cancel _ hB, Nat.sub_zero, Nat.min_self, Nat.mul_comm]
    exact ⟨_, by rw [hread 0, hfull]⟩

/-- On the small volume cluster 2 is a chain of its own; one buffer of 512 bytes takes it. -/
theorem readClusterChain_ok_two : ∃ fs mem, fatfsInit smallDrive = some fs ∧
    readClusterChain smallDrive fs 1 0x1000 512 2 0 (fun _ => 0) = some (512, mem) := by
  obtain ⟨fs, hfs, htype, hclus, hentry⟩ : ∃ fs, fatfsInit smallDrive = some fs ∧
      fs.type = .FAT12 ∧ clusterSize fs = 512 ∧ extractFatEntry smallDrive fs 2 = 0xFFF :=
    ⟨FATFS.ofBPB 2048 (BPB.ofSector (smallDrive.sector 2048)),
      by rw [fatfsInit]; exact if_pos (by decide), by decide, by decide, by decide +kernel⟩
  have hchain : IsChain smallDrive fs [2] := .last (by rw [hentry, htype]; rfl)
  obtain ⟨-, -, hall⟩ := readClusterChain_ok hchain (by omega)
    (by rw [hclus]; decide) (show 512 + clusterSize fs < 2 ^ 32 by omega) 0x1000 0 (fun _ => 0)
    (Nat.le_refl 1)
  obtain ⟨mem, hread⟩ := hall (by rw [hclus]; rfl)
  exact ⟨fs, mem, hfs, hread⟩

end Raincloud
