import Raincloud.Infra.Memory
import Raincloud.Infra.Polling

/-!
# The disk at the primary ATA channel, and the drivers of `isa.c`

The disk shows the registers of its command block, a status register and a data port. A command
keeps it busy for a while; then a sector is at the data port, word by word, or is awaited there.
What the standard leaves open is left to an environment: how long the disk is busy, whether a
command fails, and what is read where nothing valid is. While the disk is busy it takes no
register writes, and its status shows no error.

`pioReadSector` and `pioWriteSector` are the two functions of the source, over these ports and
the memory of the machine.
-/

set_option linter.style.nameCheck false

namespace Raincloud

open Infra

namespace Isa

/-! ## `isa.c`: ports and bits -/

def ideAtaPrimaryCommandBlockOffset : Nat := 0x1F0

def ideAtaCommandBlockRegOffsetData : Nat := 0x00
def ideAtaCommandBlockRegOffsetErrorFeatures : Nat := 0x01
def ideAtaCommandBlockRegOffsetSectorCount : Nat := 0x02
def ideAtaCommandBlockRegOffsetSectorNumber : Nat := 0x03
def ideAtaCommandBlockRegOffsetCylinderLow : Nat := 0x04
def ideAtaCommandBlockRegOffsetCylinderHigh : Nat := 0x05
def ideAtaCommandBlockRegOffsetDriveHead : Nat := 0x06
def ideAtaCommandBlockRegOffsetStatusCommand : Nat := 0x07

def ideAtaPioCommandReadSector : Nat := 0x20
def ideAtaPioCommandWriteSector : Nat := 0x30

def ideAtaPioStatusBSY : Nat := 0x80
def ideAtaPioStatusERR : Nat := 0x01

/-! ## The disk -/

/-- What the disk does at its data port. -/
inductive Phase where
  | idle
  /-- The word `k` of a sector is to be read, with `left` sectors to go. -/
  | dataIn (lba left k : Nat)
  /-- The word `k` of a sector is to be written. -/
  | dataOut (lba left k : Nat)
  deriving DecidableEq

structure Disk where
  sectors : Nat → Mem
  features : Nat
  sectorCount : Nat
  sectorNumber : Nat
  cylinderLow : Nat
  cylinderHigh : Nat
  driveHead : Nat
  /-- What the last command failed with. -/
  error : Option Nat
  phase : Phase
  /-- The words taken for the sector to be written. -/
  buffer : Mem
  /-- The number of times that the status will read busy. -/
  busy : Nat
  /-- The number of accesses so far, so that the environment can tell them apart. -/
  clock : Nat

structure DiskEnv where
  /-- How long a command or the next sector takes. -/
  delay : Disk → Nat
  /-- What the command given now will fail with. -/
  outcome : Disk → Option Nat
  /-- Bits that mean nothing. -/
  stale : Disk → Nat
  /-- The sector that cylinder, head and sector number stand for. -/
  chs : Disk → Nat

namespace Disk

variable (e : DiskEnv) (d : Disk)

def tick : Disk := { d with clock := d.clock + 1 }

/-- The sector that the registers stand for. -/
def address : Nat :=
  if d.driveHead / 2 ^ 6 % 2 = 1 then
    d.driveHead % 2 ^ 4 * 2 ^ 24 + d.cylinderHigh * 2 ^ 16 + d.cylinderLow * 2 ^ 8 + d.sectorNumber
  else e.chs d

/-- The number of sectors that a command is for. -/
def count : Nat := if d.sectorCount = 0 then 256 else d.sectorCount

def command (v : Nat) : Disk :=
  -- There is no second disk on the channel.
  if d.driveHead / 2 ^ 4 % 2 = 1 then d
  else
    let fails := if v = 0x20 ∨ v = 0x30 then e.outcome d else some 4
    { d with
      busy := e.delay d
      error := fails
      phase :=
        if fails.isSome then .idle
        else if v = 0x20 then .dataIn (d.address e) d.count 0
        else .dataOut (d.address e) d.count 0 }

def status : Nat :=
  if d.busy ≠ 0 then 2 ^ 7 + e.stale d % 2 ^ 6 * 2
  else 2 ^ 6 + (if d.phase = .idle then 0 else 2 ^ 3) + (if d.error.isSome then 1 else 0)

def read8 (port : Nat) : Nat × Disk :=
  if port = 0x1F7 then (d.status e, { d.tick with busy := d.busy - 1 })
  else if port = 0x1F1 ∧ d.busy = 0 then (d.error.getD 0 % 2 ^ 8, d.tick)
  else (e.stale d % 2 ^ 8, d.tick)

def write8 (port v : Nat) : Disk :=
  if d.busy ≠ 0 then d.tick
  else match port with
    | 0x1F1 => { d.tick with features := v }
    | 0x1F2 => { d.tick with sectorCount := v }
    | 0x1F3 => { d.tick with sectorNumber := v }
    | 0x1F4 => { d.tick with cylinderLow := v }
    | 0x1F5 => { d.tick with cylinderHigh := v }
    | 0x1F6 => { d.tick with driveHead := v }
    | 0x1F7 => (d.command e v).tick
    | _ => d.tick

/-- The phase behind a word, and what it takes to get there. -/
def afterWord (phase : Nat → Nat → Nat → Phase) (lba left k : Nat) : Disk :=
  if k + 1 < 256 then { d with phase := phase lba left (k + 1) }
  else
    { d with
      busy := e.delay d
      phase := if left = 1 then .idle else phase (lba + 1) (left - 1) 0 }

def readData : Nat × Disk :=
  match d.phase with
  | .dataIn lba left k =>
    if d.busy = 0 then ((d.sectors lba).load (2 * k) 2, (d.afterWord e .dataIn lba left k).tick)
    else (e.stale d % 2 ^ 16, d.tick)
  | _ => (e.stale d % 2 ^ 16, d.tick)

/-- A sector is written when its last word is there. -/
def takeWord (lba k v : Nat) : Disk :=
  let d := { d with buffer := d.buffer.store (2 * k) 2 v }
  if k + 1 < 256 then d
  else { d with sectors := Function.update d.sectors lba ((d.sectors lba).put 0 512 d.buffer) }

def writeData (v : Nat) : Disk :=
  match d.phase with
  | .dataOut lba left k =>
    if d.busy = 0 then ((d.takeWord lba k v).afterWord e .dataOut lba left k).tick else d.tick
  | _ => d.tick

end Disk

/-! ## The machine -/

structure PioState where
  disk : Disk
  mem : Mem

inductive PioFault where
  /-- An assertion. -/
  | halted
  /-- A loop that does not end in the given number of rounds. -/
  | endless
  deriving DecidableEq

abbrev PioM := Program DiskEnv PioFault PioState

/-! ## `io.h` -/

def __ioRead8 (addr : Nat) : PioM Nat := fun e s =>
  .ok ((s.disk.read8 e addr).1, { s with disk := (s.disk.read8 e addr).2 })

def __ioWrite8 (addr data : Nat) : PioM Unit := fun e s =>
  .ok ((), { s with disk := s.disk.write8 e addr (data % 2 ^ 8) })

def __ioRead16 (addr : Nat) : PioM Nat := fun e s =>
  if addr = 0x1F0 then .ok ((s.disk.readData e).1, { s with disk := (s.disk.readData e).2 })
  else .ok (e.stale s.disk % 2 ^ 16, { s with disk := s.disk.tick })

def __ioWrite16 (addr data : Nat) : PioM Unit := fun e s =>
  if addr = 0x1F0 then .ok ((), { s with disk := s.disk.writeData e (data % 2 ^ 16) })
  else .ok ((), { s with disk := s.disk.tick })

/-! ## `isa.c` -/

/-- `PIO_STATUS`. -/
def pioStatus (flag : Nat) : PioM Nat := do
  return (← __ioRead8
    (ideAtaPrimaryCommandBlockOffset + ideAtaCommandBlockRegOffsetStatusCommand)) &&& flag

/-- `while(PIO_STATUS(IDE_ATA_PIO_STATUS_BSY));`. -/
def waitWhileBusy (fuel : Nat) : PioM Unit :=
  Program.pollLoop .endless (do return (← pioStatus ideAtaPioStatusBSY) ≠ 0) fuel

/-- The writes to the registers. -/
def issue (lba cmd : Nat) : PioM Unit := do
  __ioWrite8 (ideAtaPrimaryCommandBlockOffset + ideAtaCommandBlockRegOffsetErrorFeatures) 0
  __ioWrite8 (ideAtaPrimaryCommandBlockOffset + ideAtaCommandBlockRegOffsetSectorCount) 1
  __ioWrite8 (ideAtaPrimaryCommandBlockOffset + ideAtaCommandBlockRegOffsetSectorNumber) lba
  __ioWrite8 (ideAtaPrimaryCommandBlockOffset + ideAtaCommandBlockRegOffsetCylinderLow) (lba >>> 8)
  __ioWrite8 (ideAtaPrimaryCommandBlockOffset + ideAtaCommandBlockRegOffsetCylinderHigh)
    (lba >>> 16)
  __ioWrite8 (ideAtaPrimaryCommandBlockOffset + ideAtaCommandBlockRegOffsetDriveHead)
    (lba >>> 24 ||| 1 <<< 6)
  __ioWrite8 (ideAtaPrimaryCommandBlockOffset + ideAtaCommandBlockRegOffsetStatusCommand) cmd

/-- What the two functions share: they differ in the command and in the loop at the end. -/
def pioSector (cmd : Nat) (transfer : PioM Unit) (fuel lba : Nat) : PioM Nat := do
  Program.check (lba &&& 0xf0000000 = 0) .halted
  waitWhileBusy fuel
  issue lba cmd
  if (← pioStatus ideAtaPioStatusERR) ≠ 0 then
    __ioRead8 (ideAtaPrimaryCommandBlockOffset + ideAtaCommandBlockRegOffsetErrorFeatures)
  else
    waitWhileBusy fuel
    transfer
    return 0

/-- The loop that reads the data port, for `n` more words. -/
def readWords (buf : Nat) : Nat → PioM Unit
  | 0 => return ()
  | n + 1 => do
    let word ← __ioRead16 (ideAtaPrimaryCommandBlockOffset + ideAtaCommandBlockRegOffsetData)
    Program.modify fun s => { s with mem := s.mem.store buf 2 word }
    readWords (buf + 2) n

def pioReadSector (fuel buf lba : Nat) : PioM Nat :=
  pioSector ideAtaPioCommandReadSector (readWords buf 256) fuel lba

/-- The loop that writes the data port, for `n` more words. -/
def writeWords (buf : Nat) : Nat → PioM Unit
  | 0 => return ()
  | n + 1 => do
    let word ← Program.gets fun s => s.mem.load buf 2
    __ioWrite16 (ideAtaPrimaryCommandBlockOffset + ideAtaCommandBlockRegOffsetData) word
    writeWords (buf + 2) n

def pioWriteSector (fuel buf lba : Nat) : PioM Nat :=
  pioSector ideAtaPioCommandWriteSector (writeWords buf 256) fuel lba

end Isa

end Raincloud
