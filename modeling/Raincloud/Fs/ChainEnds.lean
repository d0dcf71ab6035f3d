import Raincloud.Fs.ClusterChain
import Raincloud.Infra.Chase

/-!
# What ends a cluster chain

Both loops over a chain follow the entries of the table until one of them is the one value
`entryEndOfFile`. On a table with a cycle of entries the measurement goes on for ever, and the
other marks of the format are followed like a link to a cluster.
-/

set_option linter.style.nameCheck false

namespace Raincloud

open Infra Chase

variable {drive : Drive} {fs : FATFS} {fuel k c n : Nat} {cs : List Nat}

/-! ## The loops as a chase -/

/-- An entry has at most 28 bits. -/
theorem extractFatEntry_lt (drive : Drive) (fs : FATFS) (cluster : Nat) :
    extractFatEntry drive fs cluster < 2 ^ 28 := by
  have hmask : ∀ x, x &&& 0x0FFFFFFF < 2 ^ 28 := fun x =>
    Nat.lt_of_le_of_lt Nat.and_le_right (by decide)
  have hload : ∀ (m : Mem) a, m.load a 2 < 2 ^ 16 := fun m a => Mem.load_lt m a 2
  rw [extractFatEntry]
  cases fs.type with
  | FAT12 =>
    dsimp only
    split
    · rw [Nat.shiftRight_eq_div_pow]
      exact Nat.lt_of_le_of_lt (Nat.div_le_self _ _) ((hload _ _).trans (by decide))
    · exact Nat.lt_of_le_of_lt Nat.and_le_left ((hload _ _).trans (by decide))
  | FAT16 => exact (hload _ _).trans (by decide)
  | FAT32 => exact hmask _

/-- The rounds of `compute_cluster_chain_length` are the links up to the end. -/
theorem chainLengthLoop_some (hends : EndsIn (extractFatEntry drive fs) fs.type.entryEndOfFile c n)
    (hfuel : n ≤ fuel) : chainLengthLoop drive fs fuel k c = some ((k + n) % 2 ^ 32) := by
  induction hends generalizing fuel k with
  | last h =>
    obtain ⟨fuel, rfl⟩ := Nat.exists_eq_add_of_le' hfuel
    rw [chainLengthLoop, if_pos h]
  | @next c n hne _ ih =>
    obtain ⟨fuel, rfl⟩ := Nat.exists_eq_add_of_le' (Nat.le_trans (Nat.le_add_left 1 _) hfuel)
    rw [chainLengthLoop, if_neg hne, ih (Nat.le_of_succ_le_succ hfuel), Nat.mod_add_mod,
      Nat.add_right_comm, Nat.add_assoc]

theorem chainLengthLoop_ends {r : Nat} (h : chainLengthLoop drive fs fuel k c = some r) :
    ∃ n, EndsIn (extractFatEntry drive fs) fs.type.entryEndOfFile c n ∧ r = (k + n) % 2 ^ 32 := by
  induction fuel generalizing k c with
  | zero => cases h
  | succ fuel ih =>
    rw [chainLengthLoop] at h
    by_cases hend : extractFatEntry drive fs c = fs.type.entryEndOfFile
    · rw [if_pos hend] at h
      exact ⟨1, .last hend, (Option.some.inj h).symm⟩
    · rw [if_neg hend] at h
      obtain ⟨n, hn, rfl⟩ := ih h
      exact ⟨n + 1, .next hend hn, by rw [Nat.mod_add_mod, Nat.add_right_comm, Nat.add_assoc]⟩

/-! ## Termination -/

/-- `compute_cluster_chain_length` returns. -/
def MeasureEnds (drive : Drive) (fs : FATFS) (cluster : Nat) : Prop :=
  ∃ rounds length, ∀ fuel ≥ rounds, computeClusterChainLength drive fs fuel cluster = some length

/--
Whatever the table holds, the measurement ends exactly if the entries that are followed from
the start cluster do not lead into a cycle.
-/
theorem measureEnds_iff (drive : Drive) (fs : FATFS) (cluster : Nat) :
    MeasureEnds drive fs cluster ↔
      ¬ ReachesCycle (extractFatEntry drive fs) fs.type.entryEndOfFile cluster := by
  rw [← ends_iff (extractFatEntry_lt drive fs)]
  constructor
  · rintro ⟨rounds, length, h⟩
    obtain ⟨n, hn, -⟩ := chainLengthLoop_ends (h rounds (Nat.le_refl _))
    exact ⟨n, hn⟩
  · rintro ⟨n, hn⟩
    exact ⟨n, _, fun fuel hfuel => chainLengthLoop_some hn hfuel⟩

/-- The small volume with a table that is all zero. -/
def freeDrive : Drive where
  sector lba := if lba = 2048 then smallBoot else fun _ => 0
  behind _ := 0

theorem freeDrive_init : ∃ fs, fatfsInit freeDrive = some fs ∧ fs.type = .FAT12 ∧
    fs.countOfClus = 97 ∧ extractFatEntry freeDrive fs 2 = 0 ∧ extractFatEntry freeDrive fs 0 = 0 :=
  ⟨FATFS.ofBPB 2048 (BPB.ofSector (freeDrive.sector 2048)),
    by rw [fatfsInit]; exact if_pos (by decide), by decide, by decide +kernel,
    by decide +kernel, by decide +kernel⟩

/-- The entry of cluster 2 is free. It is followed to entry 0, and from there on to itself. -/
theorem measure_hangs : ∃ fs, fatfsInit freeDrive = some fs ∧ 2 < fs.countOfClus + 2 ∧
    ∀ fuel, computeClusterChainLength freeDrive fs fuel 2 = none := by
  obtain ⟨fs, hfs, htype, hcount, htwo, hzero⟩ := freeDrive_init
  refine ⟨fs, hfs, by omega, fun fuel => ?_⟩
  have hne : fs.type.entryEndOfFile ≠ 0 := by rw [htype]; decide
  have hloop : ReachesCycle (extractFatEntry freeDrive fs) fs.type.entryEndOfFile 2 :=
    ⟨0, .single ⟨htwo, hne.symm⟩, .single ⟨hzero, hne.symm⟩⟩
  cases hlen : computeClusterChainLength freeDrive fs fuel 2 with
  | none => rfl
  | some r =>
    obtain ⟨n, hn, -⟩ := chainLengthLoop_ends hlen
    exact absurd hloop hn.not_cycle

/-! ## Marks -/

/-- The first of the values that end a chain. -/
def FatType.firstMark : FatType → Nat
  | FAT12 => 0xFF8
  | FAT16 => 0xFFF8
  | FAT32 => 0x0FFFFFF8

/-- The entry ends a chain. -/
def FatType.IsMark (type : FatType) (entry : Nat) : Prop :=
  type.firstMark ≤ entry ∧ entry ≤ type.entryEndOfFile

/-- Each cluster but the first is the entry of the one before. -/
def EntryLinked (drive : Drive) (fs : FATFS) (cs : List Nat) : Prop :=
  cs.IsChain fun c d => extractFatEntry drive fs c = d

/-- Distinct clusters of the volume, each linked to the next, and a mark behind the last one. -/
structure MarkedChain (drive : Drive) (fs : FATFS) (c : Nat) (cs : List Nat) : Prop where
  nodup : (c :: cs).Nodup
  inRange : ∀ d ∈ c :: cs, 2 ≤ d ∧ d < fs.countOfClus + 2
  linked : EntryLinked drive fs (c :: cs)
  mark : fs.type.IsMark (extractFatEntry drive fs (cs.getLastD c))

/-- The clusters that `read_cluster_chain` reads, with their places in the buffer. -/
def readChainReads (drive : Drive) (fs : FATFS) (bufsize : Nat) :
    Nat → Nat → Nat → Nat → List (Nat × Nat)
  | 0, _, _, _ => []
  | fuel + 1, readSize, cluster, clusterOffset =>
    if bufsize < (readSize + fs.bpb.secPerClus * 512) % 2 ^ 32 then []
    else
      let (reads, readSize', clusterOffset) :=
        if clusterOffset = 0 then
          ([(readSize, cluster)], (readSize + fs.bpb.secPerClus * 512) % 2 ^ 32, clusterOffset)
        else ([], readSize, clusterOffset - 1)
      let cluster := extractFatEntry drive fs cluster
      if cluster = fs.type.entryEndOfFile then reads
      else reads ++ readChainReads drive fs bufsize fuel readSize' cluster clusterOffset

/-- The loop does nothing to the memory but these reads. -/
theorem readChainLoop_reads {buf bufsize readSize off r : Nat} {mem mem' : Mem}
    (h : readChainLoop drive fs buf bufsize fuel readSize c off mem = some (r, mem')) :
    mem' = (readChainReads drive fs bufsize fuel readSize c off).foldl
      (fun m p => readCluster drive fs (buf + p.1) p.2 m) mem := by
  induction fuel generalizing readSize c off mem with
  | zero => cases h
  | succ fuel ih =>
    rw [readChainLoop] at h
    rw [readChainReads]
    by_cases hfull : bufsize < (readSize + fs.bpb.secPerClus * 512) % 2 ^ 32
    · rw [if_pos hfull] at h ⊢
      cases h
      rfl
    rw [if_neg hfull] at h ⊢
    by_cases hoff : off = 0
    · rw [if_pos hoff] at h ⊢
      dsimp only at h ⊢
      split at h
      · cases h
        rw [if_pos ‹_›]
        rfl
      · rw [if_neg ‹_›, List.foldl_append]
        exact ih h
    · rw [if_neg hoff] at h ⊢
      dsimp only at h ⊢
      split at h
      · cases h
        rw [if_pos ‹_›]
        rfl
      · rw [if_neg ‹_›]
        exact ih h

/-- A chain that ends is all that is read. -/
theorem reads_mem (h : IsChain drive fs cs) {bufsize readSize off : Nat} :
    ∀ p ∈ readChainReads drive fs bufsize fuel readSize (cs.headD 0) off, p.2 ∈ cs := by
  induction h generalizing fuel readSize off with
  | @last c hend =>
    intro p hp
    cases fuel with
    | zero => cases hp
    | succ fuel =>
      rw [List.headD_cons, readChainReads] at hp
      simp only [hend, if_true] at hp
      split at hp
      · cases hp
      · split at hp
        · rw [List.mem_singleton.mp hp]
          exact List.mem_singleton_self c
        · cases hp
  | @cons c d ds hnext hne _ ih =>
    intro p hp
    cases fuel with
    | zero => cases hp
    | succ fuel =>
      rw [List.headD_cons, readChainReads] at hp
      simp only [hnext, if_neg hne] at hp
      split at hp
      · cases hp
      · rcases List.mem_append.mp hp with hp | hp
        · split at hp
          · rw [List.mem_singleton.mp hp]
            exact List.mem_cons_self
          · cases hp
        · exact List.mem_cons_of_mem _ (ih p hp)

/-- The chain is measured as it is, and no other cluster is read. -/
structure EndsAtMark (drive : Drive) (fs : FATFS) (c : Nat) (cs : List Nat) : Prop where
  length : ∃ rounds, ∀ fuel ≥ rounds,
    computeClusterChainLength drive fs fuel c = some (c :: cs).length
  reads : ∀ fuel bufsize clusterOffset,
    ∀ p ∈ readChainReads drive fs bufsize fuel 0 c clusterOffset, p.2 ∈ c :: cs

/-- When the chase ends behind the last cluster, the chain is one that the code knows. -/
theorem isChain_of_endsIn (hlinked : EntryLinked drive fs (c :: cs))
    (hends : EndsIn (extractFatEntry drive fs) fs.type.entryEndOfFile c (c :: cs).length) :
    IsChain drive fs (c :: cs) := by
  induction cs generalizing c with
  | nil =>
    cases hends with
    | last h => exact .last h
    | next _ hn => exact absurd hn.pos (Nat.lt_irrefl 0)
  | cons d ds ih =>
    obtain ⟨hlink, hrest⟩ := List.isChain_cons_cons.mp hlinked
    cases hends with
    | next hne hn =>
      rw [hlink] at hne hn
      exact .cons hlink hne (ih hrest hn)

/-- The clusters of a chain are met one after another. -/
theorem IsChain.endsIn (h : IsChain drive fs cs) :
    EndsIn (extractFatEntry drive fs) fs.type.entryEndOfFile (cs.headD 0) cs.length := by
  induction h with
  | last h => exact .last h
  | @cons c d ds hnext hne _ ih =>
    refine .next (x := c) (by rwa [hnext]) ?_
    rw [hnext]
    exact ih

theorem isChain_iff (hlinked : EntryLinked drive fs (c :: cs)) : IsChain drive fs (c :: cs) ↔
    extractFatEntry drive fs (cs.getLastD c) = fs.type.entryEndOfFile ∧
      fs.type.entryEndOfFile ∉ cs := by
  induction cs generalizing c with
  | nil =>
    constructor
    · intro h
      cases h with
      | last h => exact ⟨h, List.not_mem_nil⟩
    · rintro ⟨h, -⟩
      exact .last h
  | cons d ds ih =>
    obtain ⟨hlink, hrest⟩ := List.isChain_cons_cons.mp hlinked
    rw [List.getLastD_cons, List.mem_cons, not_or]
    constructor
    · intro h
      cases h with
      | cons _ hne hds =>
        obtain ⟨hlast, hmem⟩ := (ih hrest).mp hds
        exact ⟨hlast, Ne.symm hne, hmem⟩
    · rintro ⟨hlast, hne, hmem⟩
      exact .cons hlink (Ne.symm hne) ((ih hrest).mpr ⟨hlast, hmem⟩)

theorem EndsAtMark.isChain (h : EndsAtMark drive fs c cs) (hlinked : EntryLinked drive fs (c :: cs)) :
    IsChain drive fs (c :: cs) := by
  obtain ⟨rounds, hlength⟩ := h.length
  obtain ⟨n, hn, hmod⟩ := chainLengthLoop_ends (hlength rounds (Nat.le_refl _))
  have hbound := hn.le_bound (extractFatEntry_lt drive fs)
  rw [Nat.zero_add, Nat.mod_eq_of_lt (by omega)] at hmod
  exact isChain_of_endsIn hlinked (hmod ▸ hn)

/--
A chain that ends in a mark is read up to it exactly if the mark is `entryEndOfFile`, and no
cluster behind the first has that number.
-/
theorem endsAtMark_iff (h : MarkedChain drive fs c cs) : EndsAtMark drive fs c cs ↔
    extractFatEntry drive fs (cs.getLastD c) = fs.type.entryEndOfFile ∧
      fs.type.entryEndOfFile ∉ cs := by
  rw [← isChain_iff h.linked]
  constructor
  · intro hends
    exact hends.isChain h.linked
  · intro hchain
    refine ⟨⟨(c :: cs).length, fun fuel hfuel => ?_⟩, fun fuel bufsize off => reads_mem hchain⟩
    have hbound := hchain.endsIn.le_bound (extractFatEntry_lt drive fs)
    have hlen : chainLengthLoop drive fs fuel 0 c = _ := chainLengthLoop_some hchain.endsIn hfuel
    rw [computeClusterChainLength, hlen, Nat.zero_add, Nat.mod_eq_of_lt (by omega)]

/-- Cluster 2 is followed by cluster 3, whose entry ends with the upper half of `b`. -/
def markTable (b : UInt8) : Mem
  | 3 => 3
  | 4 => b
  | _ => 0xff

def markDrive (b : UInt8) : Drive where
  sector lba := if lba = 2048 then smallBoot else markTable b
  behind _ := 0

/-- The fields of the small volume. -/
def smallVolume : FATFS := .ofBPB 2048 (BPB.ofSector smallBoot)

theorem markDrive_init (b : UInt8) : fatfsInit (markDrive b) = some smallVolume := by
  have hok : (BPB.ofSector smallBoot).bytsPerSec = 512 ∧ (BPB.ofSector smallBoot).secPerClus ≠ 0 := by
    decide
  have hboot : (markDrive b).sector 2048 = smallBoot := by simp [markDrive]
  rw [fatfsInit, hboot, if_pos hok, smallVolume]

/-- A chain of two clusters that ends in 0xFFF. -/
theorem endsAtMark_end : fatfsInit (markDrive 0xf0) = some smallVolume ∧
    EndsAtMark (markDrive 0xf0) smallVolume 2 [3] := by
  refine ⟨markDrive_init _, (endsAtMark_iff ⟨by decide, by decide, ?_, ?_⟩).mpr ⟨?_, by decide⟩⟩
  · exact List.isChain_cons_cons.mpr ⟨by decide +kernel, .singleton 3⟩
  · unfold FatType.IsMark
    decide +kernel
  · decide +kernel

/-- When it ends in 0xFF8 the measurement goes on. -/
theorem mark_followed : fatfsInit (markDrive 0x80) = some smallVolume ∧
    MarkedChain (markDrive 0x80) smallVolume 2 [3] ∧
    ¬ EndsAtMark (markDrive 0x80) smallVolume 2 [3] := by
  have hlinked : EntryLinked (markDrive 0x80) smallVolume [2, 3] :=
    List.isChain_cons_cons.mpr ⟨by decide +kernel, .singleton 3⟩
  have hentry : extractFatEntry (markDrive 0x80) smallVolume 3 = 0xFF8 := by decide +kernel
  refine ⟨markDrive_init _, ⟨by decide, by decide, hlinked, ?_⟩, fun hends => ?_⟩
  · rw [List.getLastD_cons, List.getLastD_nil, hentry]
    exact ⟨by decide, by decide⟩
  · obtain ⟨hlast, -⟩ := (isChain_iff hlinked).mp (hends.isChain hlinked)
    rw [List.getLastD_cons, List.getLastD_nil, hentry] at hlast
    exact absurd hlast (by decide)

end Raincloud
