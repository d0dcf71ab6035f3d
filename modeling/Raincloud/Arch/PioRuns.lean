import Raincloud.Arch.PioSector

/-!
# The disk as an array of sectors

At the abstract level the disk is an array of sectors and a call of a driver reads one of them
into the memory or writes one from it. A call may also fail, and then the verdict on it is
either that the failure was reported or that it was missed: the drivers look for an error once,
right behind the command, and not again when the disk is no longer busy.
-/

set_option linter.style.nameCheck false

namespace Raincloud

open Infra

namespace Isa

/-! ## The array of sectors -/

structure Sectors where
  sectors : Nat → Mem
  mem : Mem

def PioState.plain (s : PioState) : Sectors := ⟨s.disk.sectors, s.mem⟩

/-- What the machine does between two interrupts: a driver is called, or other code runs. -/
inductive DiskCall where
  | read (buf lba : Nat)
  | write (buf lba : Nat)
  | other (code : Mem → Mem)

/-- What became of a call. -/
inductive Verdict where
  | done
  /-- It failed, with this error register. -/
  | refused (code : Nat)
  /-- It failed, and nothing was noticed. -/
  | missed (junk : Mem)

def Verdict.result : Verdict → Nat
  | done | missed _ => 0
  | refused code => code

/-- A sector comes into the memory. -/
def Sectors.readInto (t : Sectors) (buf : Nat) (bytes : Mem) : Sectors :=
  { t with mem := t.mem.put buf 512 bytes }

/-- A sector is set to bytes of the memory. -/
def Sectors.writeFrom (t : Sectors) (buf lba : Nat) : Sectors :=
  { t with
    sectors := Function.update t.sectors lba ((t.sectors lba).put 0 512 fun j => t.mem (buf + j)) }

/-- What a call does to the sectors and the memory. -/
def DiskCall.apply (v : Verdict) (t : Sectors) : DiskCall → Sectors
  | read buf lba => match v with
    | .done => t.readInto buf (t.sectors lba)
    | .refused _ => t
    | .missed junk => t.readInto buf junk
  | write buf lba => match v with
    | .done => t.writeFrom buf lba
    | .refused _ | .missed _ => t
  | other code => { t with mem := code t.mem }

/-- The sector that a call is for. -/
def DiskCall.lba : DiskCall → Option Nat
  | read _ lba | write _ lba => some lba
  | other _ => none

/-- A sector that the drivers take. -/
def DiskCall.InRange (c : DiskCall) : Prop := ∀ lba, c.lba = some lba → lba < 2 ^ 28

/-- The call as the machine runs it. -/
def DiskCall.run (fuel : Nat) : DiskCall → PioM Nat
  | read buf lba => pioReadSector fuel buf lba
  | write buf lba => pioWriteSector fuel buf lba
  | other code => do
    Program.modify fun s => { s with mem := code s.mem }
    return 0

/-- The drive when the drivers give it the command. -/
def PioState.commanded (s : PioState) (lba : Nat) : Disk := s.disk.waited.addressed lba

/-- Which verdict there is on a command for a sector, by what the disk makes of it. -/
def Judged (e : DiskEnv) (s : PioState) (lba : Nat) (v : Verdict) : Prop :=
  match e.outcome (s.commanded lba) with
  | none => v = .done
  | some code =>
    if e.delay (s.commanded lba) = 0 then v = .refused (code % 2 ^ 8) else ∃ junk, v = .missed junk

/-- Which verdict there is on a call. -/
def DiskCall.Judged (e : DiskEnv) (s : PioState) (c : DiskCall) (v : Verdict) : Prop :=
  match c.lba with
  | none => v = .done
  | some lba => Isa.Judged e s lba v

/-- A call from one state of the machine to another. -/
def PioStep (e : DiskEnv) (s : PioState) (c : DiskCall) (result : Nat) (s' : PioState) : Prop :=
  ∃ v, c.Judged e s v ∧ result = v.result ∧ s'.plain = c.apply v s.plain

variable {e : DiskEnv} {s : PioState} {c : DiskCall} {lba buf : Nat} {calls : List DiskCall}

/-! ## One call -/

/-- What the disk is like behind a command of the drivers. -/
structure Issued (e : DiskEnv) (s : PioState) (lba cmd : Nat) (d : Disk) : Prop where
  sectors : d.sectors = s.disk.sectors
  busy : d.busy = e.delay (s.commanded lba)
  error : d.error = e.outcome (s.commanded lba)
  phase : d.phase =
    if (e.outcome (s.commanded lba)).isSome then .idle
    else if cmd = 0x20 then .dataIn lba 1 0 else .dataOut lba 1 0

theorem issued_command {cmd : Nat} (hlba : lba < 2 ^ 28) (hcmd : cmd = 0x20 ∨ cmd = 0x30) :
    Issued e s lba cmd ((s.commanded lba).command e cmd).tick := by
  unfold PioState.commanded
  rw [command_addressed hlba hcmd]
  exact ⟨rfl, rfl, rfl, rfl⟩

theorem readError_run {d : Disk} (hbusy : d.busy = 0) :
    __ioRead8 (ideAtaPrimaryCommandBlockOffset + ideAtaCommandBlockRegOffsetErrorFeatures) e
        { s with disk := d }
      = .ok (d.error.getD 0 % 2 ^ 8, { s with disk := d.tick }) := by
  have hread : d.read8 e 0x1F1 = (d.error.getD 0 % 2 ^ 8, d.tick) := by
    unfold Disk.read8
    rw [if_neg (by decide), if_pos ⟨rfl, hbusy⟩]
  show Except.ok ((d.read8 e 0x1F1).1, ({ s with disk := (d.read8 e 0x1F1).2 } : PioState)) = _
  rw [hread]

/-- A call ends in a state of the array of sectors that its verdict allows. -/
theorem returns_pioSector {cmd : Nat} {transfer : PioM Unit}
    (apply : Verdict → Sectors → Sectors) (hcmd : cmd = 0x20 ∨ cmd = 0x30) (hlba : lba < 2 ^ 28)
    (hrefused : ∀ code t, apply (.refused code) t = t)
    (hdone : ∀ t : PioState, t.disk.busy = 0 →
      t.disk.phase = (if cmd = 0x20 then .dataIn lba 1 0 else .dataOut lba 1 0) →
      ∃ t', transfer e t = .ok ((), t') ∧ t'.plain = apply .done t.plain ∧ t'.disk.phase = .idle)
    (hmissed : ∀ t : PioState, t.disk.phase = .idle →
      ∃ junk t', transfer e t = .ok ((), t') ∧ t'.plain = apply (.missed junk) t.plain ∧
        t'.disk.phase = .idle) :
    ∃ v s', Program.Returns (fun fuel => pioSector cmd transfer fuel lba) e s v.result s' ∧
      Judged e s lba v ∧ s'.plain = apply v s.plain ∧ s'.disk.phase = .idle := by
  have hissued := issued_command (e := e) (s := s) hlba hcmd
  have hcheck : lba &&& 0xf0000000 = 0 := (and_lbaMask (by omega)).mpr hlba
  generalize hd : ((s.commanded lba).command e cmd).tick = d at hissued
  -- Everything up to the look at the status is the same for all verdicts.
  have hstart : ∀ a s', Program.Returns (fun fuel =>
      if d.status e &&& ideAtaPioStatusERR ≠ 0 then
        __ioRead8 (ideAtaPrimaryCommandBlockOffset + ideAtaCommandBlockRegOffsetErrorFeatures)
      else waitWhileBusy fuel >>= fun _ => transfer >>= fun _ => pure 0)
      e { s with disk := d.polled } a s' →
      Program.Returns (fun fuel => pioSector cmd transfer fuel lba) e s a s' := by
    intro a s' h
    refine .step (Program.check_of hcheck) (returns_waitWhileBusy.bind ?_)
    refine .step (issue_run rfl (by omega)) ?_
    subst hd
    exact .step (pioStatus_run _) h
  -- When the look shows no error, the driver waits and moves the words.
  have hmove : ∀ t', d.status e &&& ideAtaPioStatusERR = 0 →
      transfer e { s with disk := d.polled.waited } = .ok ((), t') →
      Program.Returns (fun fuel => pioSector cmd transfer fuel lba) e s 0 t' := by
    intro t' hlook hrun
    refine hstart 0 t' ?_
    simp only [hlook, ne_eq, not_true_eq_false, if_false]
    exact returns_waitWhileBusy.bind (.step hrun (.of_run rfl))
  have hplain : PioState.plain { s with disk := d.polled.waited } = s.plain := by
    unfold PioState.plain
    rw [← hissued.sectors]
    rfl
  unfold Judged
  cases houtcome : e.outcome (s.commanded lba) with
  | none =>
    have hphase : d.phase = if cmd = 0x20 then .dataIn lba 1 0 else .dataOut lba 1 0 := by
      rw [hissued.phase, houtcome]
      rfl
    have hlook : d.status e &&& ideAtaPioStatusERR = 0 := by
      by_contra h
      have herror := (status_err.mp h).2
      rw [hissued.error, houtcome] at herror
      cases herror
    obtain ⟨t', hrun, hsectors, hidle⟩ := hdone { s with disk := d.polled.waited } rfl hphase
    exact ⟨.done, t', hmove t' hlook hrun, rfl, hsectors.trans (congrArg _ hplain), hidle⟩
  | some code =>
    have hphase : d.phase = .idle := by
      rw [hissued.phase, houtcome]
      rfl
    by_cases hdelay : e.delay (s.commanded lba) = 0
    · have hbusy : d.busy = 0 := hissued.busy.trans hdelay
      have herror : d.error = some code := hissued.error.trans houtcome
      have hlook : d.status e &&& ideAtaPioStatusERR ≠ 0 :=
        status_err.mpr ⟨hbusy, by rw [herror]; rfl⟩
      have hread := readError_run (e := e) (s := s) (d := d.polled)
        (show d.busy - 1 = 0 by omega)
      refine ⟨.refused (code % 2 ^ 8), { s with disk := d.polled.tick }, hstart _ _ ?_, ?_, ?_, ?_⟩
      · simp only [ne_eq, hlook, not_false_eq_true, if_true]
        refine .of_run (hread.trans ?_)
        show Except.ok (d.error.getD 0 % 2 ^ 8, _) = _
        rw [herror]
        rfl
      · simp only [if_pos hdelay]
      · rw [hrefused]
        exact hplain
      · exact hphase
    · have hlook : d.status e &&& ideAtaPioStatusERR = 0 := by
        by_contra h
        exact hdelay (hissued.busy.symm.trans (status_err.mp h).1)
      obtain ⟨junk, t', hrun, hsectors, hidle⟩ :=
        hmissed { s with disk := d.polled.waited } hphase
      refine ⟨.missed junk, t', hmove t' hlook hrun, ?_, hsectors.trans (congrArg _ hplain), hidle⟩
      simp only [if_neg hdelay]
      exact ⟨junk, rfl⟩

theorem returns_pioReadSector (hlba : lba < 2 ^ 28) :
    ∃ v s', Program.Returns (fun fuel => pioReadSector fuel buf lba) e s v.result s' ∧
      Judged e s lba v ∧ s'.plain = (DiskCall.read buf lba).apply v s.plain ∧
      s'.disk.phase = .idle := by
  unfold pioReadSector
  refine returns_pioSector (fun v t => (DiskCall.read buf lba).apply v t) (.inl rfl) hlba
    (fun _ _ => rfl) (fun t hbusy hphase => ?_) fun t hphase => ?_
  · obtain ⟨d', hrun, hsectors, hidle⟩ := readWords_run buf (hphase.trans (if_pos rfl)) hbusy
      (show 0 + 256 = 256 from rfl) (by decide)
    have hbytes : t.mem.put buf (2 * 256) (fun j => t.disk.sectors lba (2 * 0 + j))
        = t.mem.put buf 512 (t.disk.sectors lba) := by
      refine Mem.put_congr fun j _ => ?_
      rw [Nat.mul_zero, Nat.zero_add]
    rw [hbytes] at hrun
    refine ⟨_, hrun, ?_, hidle⟩
    show (⟨d'.sectors, _⟩ : Sectors) = _
    rw [hsectors]
    rfl
  · obtain ⟨junk, d', hrun, hsectors, hidle⟩ :=
      readWords_idle (e := e) buf 256 hphase
    refine ⟨junk, _, hrun, ?_, hidle⟩
    show (⟨d'.sectors, _⟩ : Sectors) = ⟨t.disk.sectors, _⟩
    rw [hsectors]
    rfl

theorem returns_pioWriteSector (hlba : lba < 2 ^ 28) :
    ∃ v s', Program.Returns (fun fuel => pioWriteSector fuel buf lba) e s v.result s' ∧
      Judged e s lba v ∧ s'.plain = (DiskCall.write buf lba).apply v s.plain ∧
      s'.disk.phase = .idle := by
  unfold pioWriteSector
  refine returns_pioSector (fun v t => (DiskCall.write buf lba).apply v t) (.inr rfl) hlba
    (fun _ _ => rfl) (fun t hbusy hphase => ?_) fun t hphase => ?_
  · obtain ⟨d', hrun, hsectors, hidle⟩ := writeWords_run buf
      (hphase.trans (if_neg (by decide))) hbusy (show 0 + 256 = 256 from rfl) (by decide)
    refine ⟨_, hrun, ?_, hidle⟩
    show (⟨d'.sectors, t.mem⟩ : Sectors) = ⟨Function.update t.disk.sectors lba
      ((t.disk.sectors lba).put 0 512 fun j => t.mem (buf + j)), t.mem⟩
    rw [hsectors]
    congr 2
  · obtain ⟨d', hrun, hsectors, hidle⟩ :=
      writeWords_idle (e := e) buf 256 hphase
    refine ⟨0, _, hrun, ?_, hidle⟩
    show (⟨d'.sectors, t.mem⟩ : Sectors) = ⟨t.disk.sectors, t.mem⟩
    rw [hsectors]

theorem returns_call (hrange : c.InRange) :
    ∃ v s', Program.Returns (fun fuel => c.run fuel) e s v.result s' ∧ c.Judged e s v ∧
      s'.plain = c.apply v s.plain := by
  cases c with
  | read buf lba =>
    obtain ⟨v, s', hrun, hjudged, hplain, -⟩ := returns_pioReadSector (hrange lba rfl)
    exact ⟨v, s', hrun, hjudged, hplain⟩
  | write buf lba =>
    obtain ⟨v, s', hrun, hjudged, hplain, -⟩ := returns_pioWriteSector (hrange lba rfl)
    exact ⟨v, s', hrun, hjudged, hplain⟩
  | other code => exact ⟨.done, { s with mem := code s.mem }, .of_run rfl, rfl, rfl⟩

/-! ## Runs -/

/-- **Each call of a run does what the disk's verdict on it says.** The sectors that are not written
keep their bytes, whatever fails. -/
theorem run_judged (hrange : ∀ c ∈ calls, c.InRange) :
    ∃ results s', Program.Returns (fun fuel => Program.runAll (DiskCall.run fuel) calls) e s
        results s' ∧
      Steps (PioStep e) s calls results s' ∧
      ∀ lba, (∀ buf, DiskCall.write buf lba ∉ calls) →
        s'.disk.sectors lba = s.disk.sectors lba := by
  obtain ⟨results, s', t', hrun, hsteps, rfl⟩ := Program.returns_runAll (PioStep e)
    (fun s t : PioState => s = t) rfl fun c hc s t hst => by
      obtain ⟨v, s', hrun, hjudged, hplain⟩ := returns_call (e := e) (s := s) (hrange c hc)
      exact ⟨v.result, s', s', hrun, ⟨v, hst ▸ hjudged, rfl, hst ▸ hplain⟩, rfl⟩
  refine ⟨results, s', hrun, hsteps, fun lba hnot => ?_⟩
  refine hsteps.frame (fun s s' => s'.disk.sectors lba = s.disk.sectors lba) (fun _ => rfl)
    (fun h h' => h'.trans h) fun t c a t' hc ⟨v, _, _, hplain⟩ => ?_
  have hsectors : t'.disk.sectors = (c.apply v t.plain).sectors := congrArg Sectors.sectors hplain
  rw [hsectors]
  cases c with
  | read buf lba' => cases v <;> rfl
  | other code => rfl
  | write buf lba' =>
    cases v with
    | done =>
      have hne : lba ≠ lba' := fun h => hnot buf (h ▸ hc)
      exact Function.update_of_ne hne _ _
    | refused code => rfl
    | missed junk => rfl

/-- A disk that makes the drivers wait now and then, and on which every third access is bad. -/
def wornDisk : DiskEnv where
  delay d := d.clock % 2
  outcome d := if d.clock % 3 = 0 then some 0x40 else none
  stale d := d.clock
  chs _ := 0

/-- A machine before the first call, whose disk is empty. -/
def blankMachine : PioState where
  disk :=
    { sectors := fun _ _ => 0, features := 0, sectorCount := 0, sectorNumber := 0,
      cylinderLow := 0, cylinderHigh := 0, driveHead := 0, error := none, phase := .idle,
      buffer := fun _ => 0, busy := 0, clock := 0 }
  mem := fun x => UInt8.ofNat x

theorem run_judged_worn : ∃ results s', Program.Returns
    (fun fuel => Program.runAll (DiskCall.run fuel) [.write 0 5, .other fun m => m, .read 512 5])
    wornDisk blankMachine results s' ∧
      Steps (PioStep wornDisk) blankMachine [.write 0 5, .other fun m => m, .read 512 5] results
        s' ∧
      s'.disk.sectors 6 = fun _ => 0 := by
  obtain ⟨results, s', hrun, hsteps, hframe⟩ := run_judged (e := wornDisk) (s := blankMachine)
    (show ∀ c ∈ [.write 0 5, .other fun m => m, .read 512 5], DiskCall.InRange c by
      simp [DiskCall.InRange, DiskCall.lba])
  exact ⟨results, s', hrun, hsteps, hframe 6 (by simp)⟩

/-- A call that the drivers do not take stops the machine. -/
theorem faults_call (hlba : c.lba = some lba) (h32 : lba < 2 ^ 32) (h28 : 2 ^ 28 ≤ lba) :
    Program.Faults (fun fuel => c.run fuel) e s .halted := by
  have hcheck : (Program.check (lba &&& 0xf0000000 = 0) .halted : PioM Unit) e s
      = .error .halted := if_neg fun h => absurd ((and_lbaMask h32).mp h) (by omega)
  cases c with
  | read buf lba' =>
    obtain rfl : lba' = lba := Option.some.inj hlba
    exact Program.Faults.bind ⟨0, fun _ _ => hcheck⟩
  | write buf lba' =>
    obtain rfl : lba' = lba := Option.some.inj hlba
    exact Program.Faults.bind ⟨0, fun _ _ => hcheck⟩
  | other code => cases hlba

/--
**The drivers make an array of sectors of a disk that does what it is told.** Every run of calls
for sectors below `2 ^ 28` ends, whatever the disk makes them wait, and does to the sectors and
the memory what the calls say; a call for any other sector stops the machine.
-/
theorem run_sectors (houtcome : ∀ d, e.outcome d = none)
    (h32 : ∀ c ∈ calls, ∀ lba, c.lba = some lba → lba < 2 ^ 32) :
    ((∀ c ∈ calls, c.InRange) →
      ∃ s', Program.Returns (fun fuel => Program.runAll (DiskCall.run fuel) calls) e s
          (List.replicate calls.length 0) s' ∧
        s'.plain = calls.foldl (fun t c => c.apply .done t) s.plain) ∧
    ((∃ c ∈ calls, ¬ c.InRange) →
      Program.Faults (fun fuel => Program.runAll (DiskCall.run fuel) calls) e s .halted) := by
  have hfaults : ∀ c ∈ calls, ¬ c.InRange → ∀ s,
      Program.Faults (fun fuel => c.run fuel) e s .halted := by
    intro c hc hrange s
    unfold DiskCall.InRange at hrange
    push Not at hrange
    obtain ⟨lba, hlba, h28⟩ := hrange
    exact faults_call hlba (h32 c hc lba hlba) h28
  refine ⟨fun hrange => ?_, fun ⟨c, hc, hrange⟩ => ?_⟩
  · obtain ⟨results, s', hrun, hsteps, -⟩ := run_judged (e := e) (s := s) hrange
    obtain ⟨rfl, hplain⟩ := hsteps.foldl (a := 0) (f := PioState.plain)
      (g := fun t c => c.apply .done t) fun t c a t' ⟨v, hjudged, ha, happly⟩ => by
        obtain rfl : v = .done := by
          unfold DiskCall.Judged Judged at hjudged
          cases hlba : c.lba with
          | none => simpa [hlba] using hjudged
          | some lba => simpa [hlba, houtcome] using hjudged
        exact ⟨ha, happly⟩
    exact ⟨s', hrun, hplain⟩
  · refine Program.faults_runAll (fun c' hc' s => ?_) ⟨c, hc, hfaults c hc hrange⟩ s
    by_cases hrange' : c'.InRange
    · obtain ⟨v, s', hrun, -⟩ := returns_call (e := e) (s := s) hrange'
      exact .inl ⟨v.result, s', hrun⟩
    · exact .inr (hfaults c' hc' hrange' s)

/-- A disk that keeps the drivers waiting and never fails. -/
def slowDisk : DiskEnv where
  delay d := d.clock % 7
  outcome _ := none
  stale d := d.clock
  chs _ := 0

theorem run_sectors_slow : (∃ s', Program.Returns
      (fun fuel => Program.runAll (DiskCall.run fuel) [.write 0 5, .read 512 5]) slowDisk
        blankMachine [0, 0] s' ∧
      s'.plain = [DiskCall.write 0 5, .read 512 5].foldl (fun t c => c.apply .done t)
        blankMachine.plain) ∧
    Program.Faults (fun fuel => Program.runAll (DiskCall.run fuel) [.read 0 5, .read 0 (2 ^ 28)])
      slowDisk blankMachine .halted :=
  ⟨(run_sectors (fun _ => rfl) (by simp [DiskCall.lba])).1
      (by simp [DiskCall.InRange, DiskCall.lba]),
    (run_sectors (fun _ => rfl) (by simp [DiskCall.lba])).2
      ⟨.read 0 (2 ^ 28), by simp, by simp [DiskCall.InRange, DiskCall.lba]⟩⟩

end Isa

end Raincloud
