import Raincloud.Arch.AtaDisk
import Raincloud.Infra.Word

/-!
# One sector through the ports

The registers that the drivers write are decoded to the sector they were asked for; the loops
over the data port move the sector as a whole. Where the disk is not at a transfer, the same
loops read what means nothing and write what is lost.
-/

set_option linter.style.nameCheck false

namespace Raincloud

open Infra

namespace Isa

variable {e : DiskEnv} {s : PioState} {d : Disk} {lba n k cmd : Nat}

/-! ## Status -/

theorem status_bsy : d.status e &&& ideAtaPioStatusBSY ≠ 0 ↔ d.busy ≠ 0 := by
  rw [show ideAtaPioStatusBSY = 2 ^ 7 from rfl, and_bit]
  unfold Disk.status
  by_cases hbusy : d.busy = 0
  · rw [if_neg (not_not_intro hbusy)]
    refine iff_of_false ?_ (not_not_intro hbusy)
    split <;> split <;> omega
  · rw [if_pos hbusy]
    refine iff_of_true ?_ hbusy
    omega

theorem status_err : d.status e &&& ideAtaPioStatusERR ≠ 0 ↔ d.busy = 0 ∧ d.error.isSome := by
  rw [show ideAtaPioStatusERR = 2 ^ 0 from rfl, and_bit]
  unfold Disk.status
  by_cases hbusy : d.busy = 0
  · rw [if_neg (not_not_intro hbusy)]
    by_cases herr : d.error.isSome
    · rw [if_pos herr]
      refine iff_of_true ?_ ⟨hbusy, herr⟩
      split <;> omega
    · rw [if_neg herr]
      refine iff_of_false ?_ fun h => herr h.2
      split <;> omega
  · rw [if_pos hbusy]
    refine iff_of_false ?_ fun h => hbusy h.1
    omega

/-- What a look at the status leaves behind. -/
def Disk.polled (d : Disk) : Disk := { d.tick with busy := d.busy - 1 }

theorem pioStatus_run (flag : Nat) : pioStatus flag e s
    = .ok (s.disk.status e &&& flag, { s with disk := s.disk.polled }) := rfl

/-! ## Waiting -/

/-- What the loop that waits leaves behind. -/
def Disk.waited (d : Disk) : Disk := { d with busy := 0, clock := d.clock + d.busy + 1 }

theorem returns_waitWhileBusy :
    Program.Returns waitWhileBusy e s () { s with disk := s.disk.waited } := by
  let state : Nat → PioState := fun i =>
    { s with disk := { s.disk with busy := s.disk.busy - i, clock := s.disk.clock + i } }
  have hpoll : ∀ i b, decide ((state i).disk.status e &&& ideAtaPioStatusBSY ≠ 0) = b →
      (do return decide ((← pioStatus ideAtaPioStatusBSY) ≠ 0) : PioM Bool) e (state i)
        = .ok (b, { s with disk := (state i).disk.polled }) := by
    rintro i b rfl
    rfl
  refine Program.returns_pollLoop state (n := s.disk.busy) (fun i hi => ?_) ?_
  · have hbusy : (state i).disk.busy ≠ 0 := by
      show s.disk.busy - i ≠ 0
      omega
    exact hpoll i true (decide_eq_true (status_bsy.mpr hbusy))
  · have hfree : (state s.disk.busy).disk.busy = 0 := Nat.sub_self _
    rw [hpoll s.disk.busy false (decide_eq_false fun h => status_bsy.mp h hfree)]
    show Except.ok (false, { s with disk := (state s.disk.busy).disk.polled }) = _
    unfold Disk.polled Disk.waited Disk.tick
    rw [hfree]

/-! ## The command -/

/-- The disk whose registers stand for a sector. -/
def Disk.addressed (d : Disk) (lba : Nat) : Disk :=
  { d with
    features := 0
    sectorCount := 1
    sectorNumber := lba % 2 ^ 8
    cylinderLow := (lba >>> 8) % 2 ^ 8
    cylinderHigh := (lba >>> 16) % 2 ^ 8
    driveHead := (lba >>> 24 ||| 1 <<< 6) % 2 ^ 8
    clock := d.clock + 6 }

theorem issue_run (hbusy : s.disk.busy = 0) (hcmd : cmd < 2 ^ 8) : issue lba cmd e s
    = .ok ((), { s with disk := ((s.disk.addressed lba).command e cmd).tick }) := by
  obtain ⟨d, m⟩ := s
  obtain ⟨_, _, _, _, _, _, _, _, _, _, _, _⟩ := d
  obtain rfl : _ = 0 := hbusy
  have hdata : cmd % 2 ^ 8 = cmd := Nat.mod_eq_of_lt hcmd
  conv => rhs; rw [← hdata]
  rfl

/-- The bits of a sector below `2 ^ 28` come apart into the registers. -/
theorem driveHead_eq (hlba : lba < 2 ^ 28) :
    (lba >>> 24 ||| 1 <<< 6) % 2 ^ 8 = 2 ^ 6 + lba / 2 ^ 24 := by
  have hlt : lba >>> 24 < 2 ^ 6 := by
    rw [Nat.shiftRight_eq_div_pow]
    omega
  rw [Nat.or_comm, ← Nat.shiftLeft_add_eq_or_of_lt hlt, Nat.shiftRight_eq_div_pow,
    Nat.shiftLeft_eq]
  omega

theorem address_addressed (hlba : lba < 2 ^ 28) : (d.addressed lba).address e = lba := by
  have hhead : (d.addressed lba).driveHead = 2 ^ 6 + lba / 2 ^ 24 := driveHead_eq hlba
  unfold Disk.address
  rw [if_pos (by omega), hhead]
  simp only [Disk.addressed, Nat.shiftRight_eq_div_pow]
  omega

/-- A command of the drivers is one for the sector they were asked for, and for that one alone. -/
theorem command_addressed (hlba : lba < 2 ^ 28) (hcmd : cmd = 0x20 ∨ cmd = 0x30) :
    (d.addressed lba).command e cmd =
      { d.addressed lba with
        busy := e.delay (d.addressed lba)
        error := e.outcome (d.addressed lba)
        phase :=
          if (e.outcome (d.addressed lba)).isSome then .idle
          else if cmd = 0x20 then .dataIn lba 1 0
          else .dataOut lba 1 0 } := by
  have hhead : (d.addressed lba).driveHead = 2 ^ 6 + lba / 2 ^ 24 := driveHead_eq hlba
  unfold Disk.command
  rw [if_neg (by omega)]
  simp only [if_pos hcmd, address_addressed hlba]
  rfl

/-- The assertion of the drivers. -/
theorem and_lbaMask (hlba : lba < 2 ^ 32) : lba &&& 0xf0000000 = 0 ↔ lba < 2 ^ 28 := by
  rw [show (0xf0000000 : Nat) = (2 ^ 4 - 1) <<< 28 from rfl, and_field]
  omega

/-! ## The data port -/

/-- The loop reads the rest of the sector that is at the data port. -/
theorem readWords_run (buf : Nat) (hphase : s.disk.phase = .dataIn lba 1 k)
    (hbusy : s.disk.busy = 0) (hn : k + n = 256) (hpos : 0 < n) : ∃ d', readWords buf n e s
      = .ok ((), { disk := d', mem := s.mem.put buf (2 * n) fun j =>
          s.disk.sectors lba (2 * k + j) }) ∧
      d'.sectors = s.disk.sectors ∧ d'.phase = .idle := by
  induction n generalizing s buf k with
  | zero => omega
  | succ n ih =>
    have hread : __ioRead16 (ideAtaPrimaryCommandBlockOffset + ideAtaCommandBlockRegOffsetData) e s
        = .ok ((s.disk.sectors lba).load (2 * k) 2,
          { s with disk := (s.disk.afterWord e .dataIn lba 1 k).tick }) := by
      show (if (0x1F0 : Nat) = 0x1F0 then _ else _) = _
      rw [if_pos rfl]
      unfold Disk.readData
      rw [hphase]
      simp only [if_pos hbusy]
    rw [readWords, Program.bind_of_ok hread, Program.bind_of_ok Program.modify_apply,
      Mem.store_load]
    by_cases hlast : n = 0
    · subst hlast
      refine ⟨_, rfl, ?_, ?_⟩
      · unfold Disk.afterWord Disk.tick
        rw [if_neg (by omega)]
      · unfold Disk.afterWord Disk.tick
        rw [if_neg (by omega)]
        rfl
    · have hafter : s.disk.afterWord e .dataIn lba 1 k
          = { s.disk with phase := .dataIn lba 1 (k + 1) } := if_pos (by omega)
      rw [hafter]
      obtain ⟨d', hrun, hsectors, hidle⟩ := ih (k := k + 1) (buf + 2)
        (s := { disk := Disk.tick { s.disk with phase := .dataIn lba 1 (k + 1) },
                mem := s.mem.put buf 2 fun j => s.disk.sectors lba (2 * k + j) })
        rfl hbusy (by omega) (by omega)
      refine ⟨d', ?_, hsectors, hidle⟩
      rw [hrun, Mem.put_put]
      show Except.ok ((), (⟨d', _⟩ : PioState)) = .ok ((), ⟨d', _⟩)
      rw [show 2 + 2 * n = 2 * (n + 1) by omega]
      congr 3
      refine Mem.put_congr fun j _ => ?_
      by_cases hj : j < 2
      · rw [if_pos hj]
      · rw [if_neg hj]
        show s.disk.sectors lba (2 * (k + 1) + (j - 2)) = _
        congr 1
        omega

/-- The loop hands the bytes behind `buf` to the disk as the rest of the sector. -/
theorem writeWords_run (buf : Nat) (hphase : s.disk.phase = .dataOut lba 1 k)
    (hbusy : s.disk.busy = 0) (hn : k + n = 256) (hpos : 0 < n) : ∃ d', writeWords buf n e s
      = .ok ((), { s with disk := d' }) ∧
      d'.sectors = Function.update s.disk.sectors lba ((s.disk.sectors lba).put 0 512 fun j =>
        if j < 2 * k then s.disk.buffer j else s.mem (buf + (j - 2 * k))) ∧ d'.phase = .idle := by
  induction n generalizing s buf k with
  | zero => omega
  | succ n ih =>
    have hword : s.mem.load buf 2 % 2 ^ 16 = s.mem.load buf 2 :=
      Nat.mod_eq_of_lt (Mem.load_lt s.mem buf 2)
    have hwrite : __ioWrite16 (ideAtaPrimaryCommandBlockOffset + ideAtaCommandBlockRegOffsetData)
        (s.mem.load buf 2) e s = .ok ((), { s with disk :=
          ((s.disk.takeWord lba k (s.mem.load buf 2)).afterWord e .dataOut lba 1 k).tick }) := by
      show (if (0x1F0 : Nat) = 0x1F0 then _ else _) = _
      rw [if_pos rfl, hword]
      unfold Disk.writeData
      rw [hphase]
      simp only [if_pos hbusy]
    -- What is in the buffer of the disk once this word is there.
    have hbuffer : ∀ j, (s.disk.buffer.store (2 * k) 2 (s.mem.load buf 2)) j
        = if 2 * k ≤ j ∧ j < 2 * k + 2 then s.mem (buf + (j - 2 * k)) else s.disk.buffer j := by
      intro j
      rw [Mem.store_load]
      rfl
    rw [writeWords, Program.bind_of_ok Program.gets_apply, Program.bind_of_ok hwrite]
    by_cases hlast : n = 0
    · subst hlast
      refine ⟨_, rfl, ?_, ?_⟩
      · unfold Disk.afterWord Disk.tick Disk.takeWord
        simp only [if_neg (show ¬ k + 1 < 256 by omega)]
        congr 1
        refine Mem.put_congr fun j hj => ?_
        rw [hbuffer]
        by_cases hlt : j < 2 * k
        · rw [if_neg (by omega), if_pos hlt]
        · rw [if_pos (by omega), if_neg hlt]
      · unfold Disk.afterWord Disk.tick
        rw [if_neg (by omega)]
        rfl
    · have hafter : (s.disk.takeWord lba k (s.mem.load buf 2)).afterWord e .dataOut lba 1 k
          = { s.disk with
              buffer := s.disk.buffer.store (2 * k) 2 (s.mem.load buf 2)
              phase := .dataOut lba 1 (k + 1) } := by
        unfold Disk.afterWord Disk.takeWord
        simp only [if_pos (show k + 1 < 256 by omega)]
      rw [hafter]
      obtain ⟨d', hrun, hsectors, hidle⟩ := ih (k := k + 1) (buf + 2)
        (s := { s with disk := Disk.tick { s.disk with
                  buffer := s.disk.buffer.store (2 * k) 2 (s.mem.load buf 2)
                  phase := .dataOut lba 1 (k + 1) } })
        rfl hbusy (by omega) (by omega)
      refine ⟨d', hrun, hsectors.trans ?_, hidle⟩
      show Function.update s.disk.sectors lba ((s.disk.sectors lba).put 0 512 _) = _
      congr 1
      refine Mem.put_congr fun j _ => ?_
      show (if j < 2 * (k + 1) then (s.disk.buffer.store (2 * k) 2 (s.mem.load buf 2)) j
        else s.mem (buf + 2 + (j - 2 * (k + 1)))) = _
      rw [hbuffer]
      by_cases h1 : j < 2 * k
      · rw [if_pos (by omega), if_neg (by omega), if_pos h1]
      · rw [if_neg h1]
        by_cases h2 : j < 2 * (k + 1)
        · rw [if_pos h2, if_pos (by omega)]
        · rw [if_neg h2]
          congr 1
          omega

/-- Without a transfer the loop fills the buffer with what means nothing. -/
theorem readWords_idle (buf n : Nat) (hphase : s.disk.phase = .idle) :
    ∃ junk d', readWords buf n e s = .ok ((), { disk := d', mem := s.mem.put buf (2 * n) junk }) ∧
      d'.sectors = s.disk.sectors ∧ d'.phase = .idle := by
  induction n generalizing s buf with
  | zero => exact ⟨fun _ => 0, s.disk, by rw [readWords, Mem.put_zero]; rfl, rfl, hphase⟩
  | succ n ih =>
    have hread : __ioRead16 (ideAtaPrimaryCommandBlockOffset + ideAtaCommandBlockRegOffsetData) e s
        = .ok (e.stale s.disk % 2 ^ 16, { s with disk := s.disk.tick }) := by
      show (if (0x1F0 : Nat) = 0x1F0 then _ else _) = _
      rw [if_pos rfl]
      unfold Disk.readData
      rw [hphase]
    rw [readWords, Program.bind_of_ok hread, Program.bind_of_ok Program.modify_apply]
    obtain ⟨junk, d', hrun, hsectors, hidle⟩ := ih (buf + 2)
      (s := { disk := s.disk.tick, mem := s.mem.store buf 2 (e.stale s.disk % 2 ^ 16) }) hphase
    refine ⟨fun j => if j < 2 then UInt8.ofNat (e.stale s.disk % 2 ^ 16 / 256 ^ j)
      else junk (j - 2), d', ?_, hsectors, hidle⟩
    have hstore : s.mem.store buf 2 (e.stale s.disk % 2 ^ 16)
        = s.mem.put buf 2 fun j => UInt8.ofNat (e.stale s.disk % 2 ^ 16 / 256 ^ j) := rfl
    rw [hrun, show 2 * (n + 1) = 2 + 2 * n by omega, ← Mem.put_put, ← hstore]

theorem writeWords_idle (buf n : Nat) (hphase : s.disk.phase = .idle) :
    ∃ d', writeWords buf n e s = .ok ((), { s with disk := d' }) ∧
      d'.sectors = s.disk.sectors ∧ d'.phase = .idle := by
  induction n generalizing s buf with
  | zero => exact ⟨s.disk, rfl, rfl, hphase⟩
  | succ n ih =>
    have hwrite : __ioWrite16 (ideAtaPrimaryCommandBlockOffset + ideAtaCommandBlockRegOffsetData)
        (s.mem.load buf 2) e s = .ok ((), { s with disk := s.disk.tick }) := by
      show (if (0x1F0 : Nat) = 0x1F0 then _ else _) = _
      rw [if_pos rfl]
      unfold Disk.writeData
      rw [hphase]
    rw [writeWords, Program.bind_of_ok Program.gets_apply, Program.bind_of_ok hwrite]
    exact ih (buf + 2) (s := { s with disk := s.disk.tick }) hphase

end Isa

end Raincloud
