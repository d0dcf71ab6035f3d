import Raincloud.Fs.RootRecords

/-!
# Two ways to read a file

`read_file` and `fatfs_searchfile` with `fatfs_readfile` both look a file up in the root
directory. When it is there they read the same; when it is not there `read_file` reads the
file of the last record, or whatever is before the block.
-/

set_option linter.style.nameCheck false

namespace Raincloud

open Infra

/-! ## The root directory in memory -/

/-- A block with the clusters of a chain, in a heap. -/
def loadedChain (drive : Drive) (fs : FATFS) (clusters : List Nat) (heap : Mem) : Mem :=
  heap.put 32 (clusters.length * clusterSize fs) (chainByte drive fs clusters)

/-- The entries of a directory. -/
def dirEntries (fs : FATFS) (clusters : List Nat) : Nat := clusters.length * clusterSize fs / 32

/--
The root directory is a chain of clusters. Its records end with an entry without a name.
-/
structure WellFormedRoot (drive : Drive) (fs : FATFS) (clusters : List Nat) (rs : List DirRecord)
    (stop : Nat) : Prop where
  chain : IsChain drive fs clusters
  root : clusters.headD 0 = fs.bpb.rootClus
  size : clusters.length * clusterSize fs < 2 ^ 32
  records : Records (loadedChain drive fs clusters fun _ => 0) (dirEntries fs clusters) 0 rs stop

/-- The chain fits the buffer and is read as a whole. -/
theorem readChainLoop_whole {drive : Drive} {fs : FATFS} {clusters : List Nat}
    (h : IsChain drive fs clusters) (hB : 0 < clusterSize fs) (buf : Nat) {bufsize : Nat}
    (hlt : bufsize < 2 ^ 32) : ∀ fuel readSize mem, clusters.length ≤ fuel →
      readSize + clusterSize fs * clusters.length ≤ bufsize →
      readChainLoop drive fs buf bufsize fuel readSize (clusters.headD 0) 0 mem
        = some (readSize + clusterSize fs * clusters.length,
          mem.put (buf + readSize) (clusterSize fs * clusters.length)
            (chainByte drive fs clusters)) := by
  induction h with
  | @last c hend =>
    intro fuel readSize mem hfuel hfits
    obtain ⟨fuel, rfl⟩ := Nat.exists_eq_add_of_le' hfuel
    have hput := put_cluster drive hB c [] (buf + readSize) 0 mem
    rw [Nat.mul_zero, Mem.put_zero, Nat.zero_add] at hput
    rw [List.length_singleton] at hfits ⊢
    rw [List.headD_cons, readChainLoop_read hlt (by omega), if_pos hend, hput, Nat.mul_one]
  | @cons c d ds hnext hne _ ih =>
    intro fuel readSize mem hfuel hfits
    have hlen : (c :: d :: ds).length = (d :: ds).length + 1 := List.length_cons
    rw [hlen] at hfuel hfits ⊢
    rw [Nat.mul_succ] at hfits
    obtain ⟨fuel, rfl⟩ := Nat.exists_eq_add_of_le' (Nat.le_trans (Nat.le_add_left 1 _) hfuel)
    have hrest := ih fuel (readSize + clusterSize fs)
      (mem.put (buf + readSize) (clusterSize fs) (clusterByte drive fs c))
      (Nat.le_of_succ_le_succ hfuel) (by omega)
    rw [List.headD_cons, ← Nat.add_assoc, put_cluster drive hB] at hrest
    rw [List.headD_cons, readChainLoop_read hlt (by omega), hnext, if_neg hne, hrest, Nat.mul_succ,
      Nat.add_assoc readSize, Nat.add_comm (clusterSize fs)]

theorem fatfsInit_clusterSize {drive : Drive} {fs : FATFS} (h : fatfsInit drive = some fs) :
    0 < clusterSize fs := by
  obtain ⟨hok, hfs⟩ := Option.ite_none_right_eq_some.mp h
  rw [← Option.some.inj hfs]
  exact Nat.mul_pos (Nat.pos_of_ne_zero hok.2) (by decide)

section Root

variable {drive : Drive} {fs : FATFS} {clusters : List Nat} {rs : List DirRecord} {stop : Nat}
  {fuel : Nat}

/-- A chain that fits a block is measured and read into it. -/
theorem loadChain_eq (hfs : fatfsInit drive = some fs) (hchain : IsChain drive fs clusters)
    {bufsize : Nat} (hfits : clusters.length * clusterSize fs ≤ bufsize) (hlt : bufsize < 2 ^ 32)
    (hfuel : clusters.length ≤ fuel) (heap : Mem) :
    computeClusterChainLength drive fs fuel (clusters.headD 0) = some clusters.length ∧
      readClusterChain drive fs fuel 32 bufsize (clusters.headD 0) 0 heap
        = some (clusters.length * clusterSize fs, loadedChain drive fs clusters heap) := by
  have hB := fatfsInit_clusterSize hfs
  have hlen : clusters.length ≤ clusters.length * clusterSize fs := Nat.le_mul_of_pos_right _ hB
  constructor
  · rw [computeClusterChainLength, chainLengthLoop_eq hchain fuel 0 hfuel (by omega), Nat.zero_add]
  · rw [Nat.mul_comm] at hfits
    have hread := readChainLoop_whole hchain hB 32 hlt fuel 0 heap hfuel (by rwa [Nat.zero_add])
    rw [readClusterChain, hread, Nat.zero_add, Nat.add_zero, Nat.mul_comm, loadedChain]

/-- The size that `fatfs_opendir` computes. -/
theorem dirSize_eq (hfs : fatfsInit drive = some fs)
    (hlt : clusters.length * clusterSize fs < 2 ^ 32) :
    clusters.length * fs.bpb.secPerClus * fs.bpb.bytsPerSec % 2 ^ 32
      = clusters.length * clusterSize fs := by
  rw [fatfsInit_bytsPerSec hfs, Nat.mul_assoc]
  exact Nat.mod_eq_of_lt hlt

/-- The root directory is read, then the path is walked. -/
theorem opendir_eq (hfs : fatfsInit drive = some fs) (hchain : IsChain drive fs clusters)
    (hroot : clusters.headD 0 = fs.bpb.rootClus) (hlt : clusters.length * clusterSize fs < 2 ^ 32)
    (hfuel : clusters.length ≤ fuel) (fresh : Fresh) (path : List UInt8) :
    fatfsOpendir drive fs fresh fuel path = openLoop drive fs fresh fuel
      ⟨loadedChain drive fs clusters fresh.dir, clusters.length * clusterSize fs, 0⟩
      (clusters.length * clusterSize fs) path := by
  obtain ⟨hlength, hread⟩ := loadChain_eq hfs hchain (Nat.le_refl _) hlt hfuel fresh.dir
  rw [hroot] at hlength hread
  simp only [fatfsOpendir, hlength, hread, dirSize_eq hfs hlt, orEndless, ok_bind]

/-- The root directory is opened by its path. -/
theorem opendir_slash (hfs : fatfsInit drive = some fs) (hchain : IsChain drive fs clusters)
    (hroot : clusters.headD 0 = fs.bpb.rootClus) (hlt : clusters.length * clusterSize fs < 2 ^ 32)
    (hfuel : clusters.length ≤ fuel) (fresh : Fresh) :
    fatfsOpendir drive fs fresh fuel [slash] = .ok (some
      ⟨loadedChain drive fs clusters fresh.dir, clusters.length * clusterSize fs, 0⟩) := by
  obtain ⟨n, rfl⟩ : ∃ n, fuel = n + 1 :=
    Nat.exists_eq_add_of_le' (Nat.le_trans hchain.length_pos hfuel)
  have htokens : strtokR [slash] [slash] = none := by decide
  rw [opendir_eq hfs hchain hroot hlt hfuel fresh, openLoop, htokens]
  rfl

theorem size_eq (fs : FATFS) (clusters : List Nat) :
    clusters.length * clusterSize fs = 32 * dirEntries fs clusters := by
  have hmul : clusters.length * clusterSize fs = 32 * (clusters.length * fs.bpb.secPerClus * 16) := by
    rw [clusterSize]
    ring
  rw [dirEntries, hmul, Nat.mul_div_cancel_left _ (by decide)]

/-- Two blocks with the root directory have the same entries. -/
theorem loadedChain_sameEntries (drive : Drive) (fs : FATFS) (clusters : List Nat)
    (heap heap' : Mem) : SameEntries (loadedChain drive fs clusters heap)
      (loadedChain drive fs clusters heap') 0 (dirEntries fs clusters) := by
  intro x hlo hhi
  have hin : 32 ≤ x ∧ x < 32 + clusters.length * clusterSize fs := by
    rw [size_eq]
    exact ⟨by omega, hhi⟩
  unfold loadedChain Mem.put
  rw [if_pos hin, if_pos hin]

variable (hfs : fatfsInit drive = some fs) (h : WellFormedRoot drive fs clusters rs stop)

include hfs h in
/-- The root directory is read into a block of its size. -/
theorem readRoot_eq (hfuel : clusters.length ≤ fuel) (heap : Mem) :
    computeClusterChainLength drive fs fuel fs.bpb.rootClus = some clusters.length ∧
      readClusterChain drive fs fuel 32 (clusters.length * clusterSize fs) fs.bpb.rootClus 0 heap
        = some (clusters.length * clusterSize fs, loadedChain drive fs clusters heap) := by
  have hload := loadChain_eq hfs h.chain (Nat.le_refl _) h.size hfuel heap
  rwa [h.root] at hload

/-- The file of an entry, whatever its name. -/
def fileAt (name : List UInt8) (dir : Mem) (pos : Nat) : FATFile :=
  .ofDirStruc name (DirStruc.ofMem dir (32 * pos))

include hfs h in
/-- `read_file` reads the file of the entry before the one its loop stops at. -/
theorem readFile_eq (hfuel : clusters.length ≤ fuel) (heap : Mem) (name : List UInt8)
    (buf : Nat) {bufsize : Nat} (hbuf : bufsize < 2 ^ 32) (mem : Mem) :
    readFile drive fs ⟨heap⟩ fuel name buf bufsize mem
      = readFileLoop (loadedChain drive fs clusters heap) (clusters.length * clusterSize fs) name
          fuel 0 >>= fun pos =>
        fatfsReadfile drive fs fuel (fileAt name (loadedChain drive fs clusters heap) pos) buf bufsize
          mem := by
  obtain ⟨hlength, hread⟩ := readRoot_eq hfs h hfuel heap
  have hsize : ((clusters.length * fs.bpb.secPerClus) <<< 9) % 2 ^ 32
      = clusters.length * clusterSize fs := by
    rw [Nat.shiftLeft_eq, Nat.mul_assoc]
    exact Nat.mod_eq_of_lt h.size
  have hentry : ∀ pos, 32 + 32 * pos - 32 = 32 * pos := fun pos => by omega
  simp only [readFile, hlength, hread, hsize, orEndless, ok_bind, hentry, Nat.mod_eq_of_lt hbuf]
  rfl

include hfs h in
/-- `fatfs_searchfile` scans the root directory. -/
theorem searchfile_eq (hfuel : clusters.length ≤ fuel) (fresh : Fresh) {name : List UInt8}
    (hname : slash ∉ name) :
    fatfsSearchfile drive fs fresh fuel (slash :: name)
      = searchLoop name fuel ⟨loadedChain drive fs clusters fresh.dir,
          clusters.length * clusterSize fs, 0⟩ := by
  have hfile : strrchr (slash :: name) slash = some (slash :: name) :=
    strrchr_eq_some.mpr ⟨[], name, rfl, hname, rfl⟩
  have hdir : (slash :: name).take ((slash :: name).length - name.length) = [slash] := by
    rw [List.length_cons, Nat.add_sub_cancel_left, List.take_succ_cons, List.take_zero]
  have hopen := opendir_slash hfs h.chain h.root h.size hfuel fresh
  simp only [fatfsSearchfile, hfile, Option.getD_some, List.tail_cons, hdir, hopen, ok_bind]

end Root

/-! ## What both read -/

theorem dirStruc_congr {m m' : Mem} {e : Nat} (h : ∀ x, e ≤ x → x < e + 32 → m' x = m x) :
    DirStruc.ofMem m' e = DirStruc.ofMem m e := by
  have hload : ∀ o n, o + n ≤ 32 → m'.load (e + o) n = m.load (e + o) n :=
    fun o n ho => Mem.load_congr fun x h1 h2 => h x (by omega) (by omega)
  unfold DirStruc.ofMem
  rw [hload 11 1 (by decide), hload 13 1 (by decide), hload 14 2 (by decide),
    hload 16 2 (by decide), hload 18 2 (by decide), hload 20 2 (by decide), hload 22 2 (by decide),
    hload 24 2 (by decide), hload 26 2 (by decide), hload 28 4 (by decide)]

theorem Records.next_lt {dir : Mem} {entries pos stop : Nat} {rs : List DirRecord}
    (h : Records dir entries pos rs stop) : ∀ r ∈ rs, r.next < entries := by
  induction h with
  | stop => exact fun _ hr => (List.not_mem_nil hr).elim
  | record _ hrest ih =>
    intro r hr
    rcases List.mem_cons.mp hr with rfl | hr
    · exact hrest.pos_lt
    · exact ih r hr

/-- What a chain leaves at an address does not depend on more than what was there. -/
theorem readChainLoop_agree {drive : Drive} {fs : FATFS} {buf bufsize a : Nat} :
    ∀ {fuel readSize c k n : Nat} {m1 m2 m1' : Mem}, m1 a = m2 a →
      readChainLoop drive fs buf bufsize fuel readSize c k m1 = some (n, m1') →
      ∃ m2', readChainLoop drive fs buf bufsize fuel readSize c k m2 = some (n, m2') ∧
        m1' a = m2' a
  | 0, _, _, _, _, _, _, _, _, h => by cases h
  | fuel + 1, readSize, c, k, n, m1, m2, m1', ha, h => by
    have hput : (readCluster drive fs (buf + readSize) c m1) a
        = (readCluster drive fs (buf + readSize) c m2) a := by
      rw [readCluster_eq, readCluster_eq]
      unfold Mem.put
      split
      · rfl
      · exact ha
    unfold readChainLoop at h ⊢
    by_cases hfull : bufsize < (readSize + fs.bpb.secPerClus * 512) % 2 ^ 32
    · rw [if_pos hfull] at h ⊢
      cases h
      exact ⟨m2, rfl, ha⟩
    rw [if_neg hfull] at h ⊢
    by_cases hk : k = 0
    · simp only [if_pos hk] at h ⊢
      by_cases hend : extractFatEntry drive fs c = fs.type.entryEndOfFile
      · rw [if_pos hend] at h ⊢
        cases h
        exact ⟨_, rfl, hput⟩
      · rw [if_neg hend] at h ⊢
        exact readChainLoop_agree hput h
    · simp only [if_neg hk] at h ⊢
      by_cases hend : extractFatEntry drive fs c = fs.type.entryEndOfFile
      · rw [if_pos hend] at h ⊢
        cases h
        exact ⟨m2, rfl, ha⟩
      · rw [if_neg hend] at h ⊢
        exact readChainLoop_agree ha h

/-- A buffer that a cluster fits into does not keep its first byte. -/
theorem readClusterChain_overwrites {drive : Drive} {fs : FATFS} {fuel buf bufsize c : Nat}
    (hB : 0 < clusterSize fs) (hle : clusterSize fs ≤ bufsize) (hlt : bufsize < 2 ^ 32)
    (h : ∀ mem, readClusterChain drive fs fuel buf bufsize c 0 mem = some (0, mem)) : False := by
  cases fuel with
  | zero => cases h fun _ => 0
  | succ fuel =>
    have hfirst : ∀ mem mem' : Mem, (mem.put buf (clusterSize fs) (clusterByte drive fs c)) buf
        = (mem'.put buf (clusterSize fs) (clusterByte drive fs c)) buf := fun mem mem' => by
      unfold Mem.put
      rw [if_pos (by omega), if_pos (by omega)]
    have hloop : ∀ mem, _ = some (0, mem) := fun mem =>
      (readChainLoop_read hlt (by omega)).symm.trans (h mem)
    have h0 := hloop fun _ => 0
    have h1 := hloop fun _ => 1
    by_cases hend : extractFatEntry drive fs c = fs.type.entryEndOfFile
    · rw [if_pos hend, Option.some.injEq, Prod.mk.injEq] at h0
      omega
    · rw [if_neg hend, Nat.add_zero] at h0 h1
      obtain ⟨m, hm, hbuf⟩ := readChainLoop_agree (hfirst (fun _ => 0) fun _ => 1) h0
      rw [h1] at hm
      cases hm
      cases hbuf

/-! ## The two ways -/

/--
With enough rounds for all loops over the root directory, and whatever the heap holds around the
blocks of the directory: a file that is found is read alike, and without a record of the name
`read_file` returns 0 and leaves the buffer as it is.
-/
def ReadsAlike (drive : Drive) (fs : FATFS) (rs : List DirRecord) (heap : Mem) (name : List UInt8)
    (buf bufsize : Nat) : Prop :=
  ∃ rounds, ∀ fuel ≥ rounds, ∀ (fresh : Fresh) (mem : Mem),
    (∀ file, fatfsSearchfile drive fs fresh fuel (slash :: name) = .ok (some file) →
      readFile drive fs ⟨heap⟩ fuel name buf bufsize mem
        = fatfsReadfile drive fs fuel file buf bufsize mem) ∧
    ((∀ r ∈ rs, r.name ≠ name) →
      readFile drive fs ⟨heap⟩ fuel name buf bufsize mem = .ok (0, mem))

section Alike

variable {drive : Drive} {fs : FATFS} {clusters : List Nat} {rs : List DirRecord} {stop : Nat}
  {fuel : Nat} {name : List UInt8} {heap : Mem} {buf bufsize : Nat}

theorem fatfsReadfile_congr {f g : FATFile} (hcluster : f.firstCluster = g.firstCluster)
    (hsize : f.fileSize = g.fileSize) (mem : Mem) :
    fatfsReadfile drive fs fuel f buf bufsize mem = fatfsReadfile drive fs fuel g buf bufsize mem := by
  unfold fatfsReadfile
  rw [hcluster, hsize]

variable (hfs : fatfsInit drive = some fs) (h : WellFormedRoot drive fs clusters rs stop)

include h in
/-- A record is read from one block as from the other. -/
theorem WellFormedRoot.file_congr {r : DirRecord} (hr : r ∈ rs) (heap heap' : Mem) (mem : Mem) :
    fatfsReadfile drive fs fuel (fileAt name (loadedChain drive fs clusters heap) r.next) buf bufsize
        mem
      = fatfsReadfile drive fs fuel (r.file (loadedChain drive fs clusters heap')) buf bufsize mem := by
  have hnext := h.records.next_lt r hr
  have hpos : 0 < r.next := Nat.succ_pos _
  have hentry : DirStruc.ofMem (loadedChain drive fs clusters heap) (32 * r.next)
      = DirStruc.ofMem (loadedChain drive fs clusters heap') (32 * r.next) :=
    dirStruc_congr fun x h1 h2 =>
      loadedChain_sameEntries drive fs clusters heap' heap x (by omega) (by omega)
  refine fatfsReadfile_congr ?_ ?_ mem <;>
  · unfold fileAt DirRecord.file
    rw [hentry]
    rfl

include hfs h in
/-- `read_file` reads the file of the first record of the name, or of the entry before the last. -/
theorem readFile_scan (hfuel : clusters.length + rs.length < fuel) (hbuf : bufsize < 2 ^ 32)
    (mem : Mem) : readFile drive fs ⟨heap⟩ fuel name buf bufsize mem
      = fatfsReadfile drive fs fuel (fileAt name (loadedChain drive fs clusters heap)
          ((firstNamed name rs).elim stop DirRecord.next)) buf bufsize mem := by
  have hsame := loadedChain_sameEntries drive fs clusters (fun _ => 0) heap
  have hloop : readFileLoop (loadedChain drive fs clusters heap) (clusters.length * clusterSize fs)
      name fuel 0 = .ok ((firstNamed name rs).elim stop DirRecord.next) :=
    readFileLoop_scan h.records hsame (size_eq fs clusters) h.size fuel (by omega)
  rw [readFile_eq hfs h (by omega) heap name buf hbuf mem, hloop, ok_bind]

include hfs h in
/-- The search finds the first record of the name. -/
theorem searchfile_scan (hfuel : clusters.length + rs.length < fuel) (fresh : Fresh)
    (hslash : slash ∉ name) : fatfsSearchfile drive fs fresh fuel (slash :: name)
      = .ok ((firstNamed name rs).map
          (DirRecord.file (loadedChain drive fs clusters fresh.dir))) := by
  have hsame := loadedChain_sameEntries drive fs clusters (fun _ => 0) fresh.dir
  rw [searchfile_eq hfs h (by omega) fresh hslash]
  exact searchLoop_scan h.records hsame (size_eq fs clusters) h.size fuel (by omega)

include hfs h in
/-- A file that is found is read alike. -/
theorem readFile_found (hfuel : clusters.length + rs.length < fuel) (hslash : slash ∉ name)
    (hbuf : bufsize < 2 ^ 32) {fresh : Fresh} {mem : Mem} {file : FATFile}
    (hfile : fatfsSearchfile drive fs fresh fuel (slash :: name) = .ok (some file)) :
    readFile drive fs ⟨heap⟩ fuel name buf bufsize mem
      = fatfsReadfile drive fs fuel file buf bufsize mem := by
  rw [searchfile_scan hfs h hfuel fresh hslash, Except.ok.injEq, Option.map_eq_some_iff] at hfile
  obtain ⟨r, hr, rfl⟩ := hfile
  rw [readFile_scan hfs h hfuel hbuf, hr]
  exact h.file_congr (List.mem_of_find?_eq_some hr) heap fresh.dir mem

include hfs h in
/-- Without a record of the name, the entry before the last one decides. -/
theorem readFile_absent (hfuel : clusters.length + rs.length < fuel)
    (habsent : ∀ r ∈ rs, r.name ≠ name) (hbuf : bufsize < 2 ^ 32) (mem : Mem) :
    readFile drive fs ⟨heap⟩ fuel name buf bufsize mem
      = fatfsReadfile drive fs fuel (fileAt name (loadedChain drive fs clusters heap) stop) buf
          bufsize mem := by
  rw [readFile_scan hfs h hfuel hbuf, firstNamed_eq_none.mpr habsent, Option.elim_none]

include hfs h in
/-- A buffer for the file before the end of the directory, and for a cluster, is written to. -/
theorem not_readsAlike_of_absent (habsent : ∀ r ∈ rs, r.name ≠ name) (hbuf : bufsize < 2 ^ 32)
    (hfile : (fileAt name (loadedChain drive fs clusters heap) stop).fileSize ≤ bufsize)
    (hcluster : clusterSize fs ≤ bufsize) : ¬ ReadsAlike drive fs rs heap name buf bufsize := by
  rintro ⟨rounds, halike⟩
  obtain ⟨fuel, hrounds, hfuel⟩ : ∃ fuel ≥ rounds, clusters.length + rs.length < fuel :=
    ⟨rounds + (clusters.length + rs.length + 1), by omega, by omega⟩
  have hread : ∀ mem, readClusterChain drive fs fuel buf bufsize
      (fileAt name (loadedChain drive fs clusters heap) stop).firstCluster 0 mem
        = some (0, mem) := by
    intro mem
    have hzero := (halike fuel hrounds ⟨heap⟩ mem).2 habsent
    rw [readFile_absent hfs h hfuel habsent hbuf, fatfsReadfile,
      if_neg (Nat.not_lt.mpr hfile)] at hzero
    cases hread : readClusterChain drive fs fuel buf bufsize
      (fileAt name (loadedChain drive fs clusters heap) stop).firstCluster 0 mem with
    | none =>
      rw [hread] at hzero
      cases hzero
    | some x =>
      rw [hread] at hzero
      exact congrArg some (Except.ok.inj hzero)
  exact readClusterChain_overwrites (fatfsInit_clusterSize hfs) hcluster hbuf hread

/--
The two ways agree exactly if there is a record of the name, or the buffer is too small for
the file of the entry at the end of the directory, or too small for a cluster.
-/
theorem readFile_agrees_iff (hfs : fatfsInit drive = some fs)
    (h : WellFormedRoot drive fs clusters rs stop) (hslash : slash ∉ name)
    (hbuf : bufsize < 2 ^ 32) :
    ReadsAlike drive fs rs heap name buf bufsize ↔
      (∃ r ∈ rs, r.name = name) ∨
        bufsize < (DirStruc.ofMem (loadedChain drive fs clusters heap) (32 * stop)).fileSize ∨
        bufsize < clusterSize fs := by
  constructor
  · intro halike
    by_contra hnone
    rw [not_or, not_or, Nat.not_lt, Nat.not_lt] at hnone
    obtain ⟨hnone, hfile, hcluster⟩ := hnone
    exact not_readsAlike_of_absent hfs h (fun r hr he => hnone ⟨r, hr, he⟩) hbuf hfile hcluster
      halike
  · intro hcond
    refine ⟨clusters.length + rs.length + 1, fun fuel hfuel fresh mem =>
      ⟨fun file hfile => readFile_found hfs h hfuel hslash hbuf hfile, fun habsent => ?_⟩⟩
    rw [readFile_absent hfs h hfuel habsent hbuf, fatfsReadfile]
    rcases hcond with ⟨r, hr, he⟩ | hsmall | hcluster
    · exact (habsent r hr he).elim
    · exact if_pos hsmall
    · -- nothing is read into a buffer smaller than a cluster
      have hB : clusterSize fs < 2 ^ 32 :=
        Nat.lt_of_le_of_lt (Nat.le_mul_of_pos_left _ h.chain.length_pos) h.size
      obtain ⟨n, rfl⟩ : ∃ n, fuel = n + 1 :=
        Nat.exists_eq_add_of_le' (Nat.le_trans (Nat.le_add_left 1 _) hfuel)
      have hfull : ∀ c, readClusterChain drive fs (n + 1) buf bufsize c 0 mem = some (0, mem) := by
        intro c
        rw [readClusterChain, readChainLoop, ← clusterSize, Nat.zero_add, Nat.mod_eq_of_lt hB,
          if_pos hcluster]
      rw [hfull]
      exact ite_self _

end Alike

/-! ## A small volume -/

/-- A boot sector: one sector a cluster, one table of one sector, the root at cluster 2. -/
def rootBoot : Mem
  | 12 => 2
  | 13 | 14 | 16 | 36 => 1
  | 32 => 0x70
  | 33 => 0x11
  | 34 => 1
  | 44 => 2
  | _ => 0

/-- A root directory with the file `A` of 5 bytes at cluster 3. -/
def rootSector : Mem
  | 0 => 0x41
  | 26 => 3
  | 28 => 5
  | i => if i < 11 then 0x20 else 0

/-- Clusters 2 and 3 end their chains. -/
def rootTable : Mem := fun i => if i = 11 ∨ i = 15 then 0x0f else 0xff

def rootDrive : Drive where
  sector lba :=
    if lba = 2048 then rootBoot else if lba = 2049 then rootTable
    else if lba = 2050 then rootSector else fun _ => 0x78
  behind _ := 0

theorem rootDrive_init : ∃ fs, fatfsInit rootDrive = some fs ∧ fs.type = .FAT32 ∧
    clusterSize fs = 512 ∧ WellFormedRoot rootDrive fs [2] [⟨0, 0, [0x41]⟩] 1 ∧
      (fileAt [0x42] (loadedChain rootDrive fs [2] fun _ => 0) 1).fileSize = 5 := by
  refine ⟨FATFS.ofBPB 2048 (BPB.ofSector (rootDrive.sector 2048)),
    by rw [fatfsInit]; exact if_pos (by decide), by decide, by decide,
    ⟨.last (by decide +kernel), by decide, by decide, ?_⟩, by decide +kernel⟩
  refine .record (r := ⟨0, 0, [0x41]⟩) ⟨by decide +kernel, fun i hi => ?_, by decide +kernel,
    fun h => ?_, ?_⟩ (.stop (by decide) (by decide +kernel))
  · exact (Nat.not_lt_zero i hi).elim
  · exact (Nat.lt_irrefl 0 h).elim
  · decide +kernel

/-- The file `A` is read alike with a buffer of a sector. -/
theorem readFile_agrees_A : ∃ fs, fatfsInit rootDrive = some fs ∧
    ReadsAlike rootDrive fs [⟨0, 0, [0x41]⟩] (fun _ => 0) [0x41] 0x1000 512 := by
  obtain ⟨fs, hfs, -, -, hroot, -⟩ := rootDrive_init
  refine ⟨fs, hfs, (readFile_agrees_iff hfs hroot (by decide) (by decide)).mpr
    (.inl ⟨⟨0, 0, [0x41]⟩, List.mem_singleton_self _, rfl⟩)⟩

/-- There is no file `B`, but `read_file` reads the file `A` for it. -/
theorem readFile_absent_reads : ∃ fs, fatfsInit rootDrive = some fs ∧ fs.type = .FAT32 ∧
    WellFormedRoot rootDrive fs [2] [⟨0, 0, [0x41]⟩] 1 ∧
    ¬ ReadsAlike rootDrive fs [⟨0, 0, [0x41]⟩] (fun _ => 0) [0x42] 0x1000 512 := by
  obtain ⟨fs, hfs, htype, hsize, hroot, hfile⟩ := rootDrive_init
  refine ⟨fs, hfs, htype, hroot, not_readsAlike_of_absent hfs hroot (fun r hr => ?_) (by decide)
    (by rw [hfile]; decide) (by rw [hsize])⟩
  rw [List.mem_singleton.mp hr]
  decide

end Raincloud
