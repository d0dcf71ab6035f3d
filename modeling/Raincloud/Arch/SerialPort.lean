import Raincloud.Infra.Terminal
import Raincloud.Klibc.Printf

/-!
# The serial port

The UART sends a byte when one is put into its data register while the register is empty, and a
byte put there before is lost. It hands out the bytes of the other side one after the other: the
next one comes when the one before was taken. How long either takes, counted in readings of the
line status, is left to an environment, and so are the status bits the driver does not look at.
-/

set_option linter.style.nameCheck false

namespace Raincloud

open Infra

namespace Serial

/-! ## `serial_port.c`: registers, bits and settings -/

def baudLowOffset : Nat := 0x00
def baudHighOffset : Nat := 0x01
def lcrOffset : Nat := 0x03
def lsrOffset : Nat := 0x05

def lsrTxrdy : Nat := 0x20
def lsrRxda : Nat := 0x01
def dlab : Nat := 0x01

def gUartBase : Nat := 0x3F8
def gBps : Nat := 115200
def gData : Nat := 8
def gStop : Nat := 1
def gParity : Nat := 0
def gBreakSet : Nat := 0

/-! ## The device -/

structure Uart where
  lcr : Nat
  divisorLow : Nat
  divisorHigh : Nat
  ier : Nat
  /-- The bytes on the line so far. -/
  sent : List UInt8
  /-- The readings of the status before the data register is empty. -/
  txBusy : Nat
  /-- The number of bytes taken from the other side. -/
  taken : Nat
  /-- The readings of the status before the next byte is there. -/
  rxBusy : Nat
  /-- The readings of the status so far. -/
  clock : Nat

structure UartEnv where
  /-- The bytes of the other side. -/
  incoming : Nat → UInt8
  txDelay : Uart → Nat
  rxDelay : Uart → Nat
  /-- What is read where nothing is, and the other bits of the status. -/
  stale : Uart → Nat

namespace Uart

variable (e : UartEnv) (d : Uart)

/-- The divisor is at the place of the data. -/
def latched : Bool := d.lcr.testBit 7

def status : Nat :=
  e.stale d &&& 0xde ||| (if d.txBusy = 0 then 0x20 else 0) ||| (if d.rxBusy = 0 then 0x01 else 0)

def read8 (port : Nat) : Nat × Uart :=
  if port = 0x3FD then
    (d.status e, { d with txBusy := d.txBusy - 1, rxBusy := d.rxBusy - 1, clock := d.clock + 1 })
  else if port = 0x3F8 ∧ d.latched = false ∧ d.rxBusy = 0 then
    ((e.incoming d.taken).toNat, { d with taken := d.taken + 1, rxBusy := e.rxDelay d })
  else if port = 0x3F8 ∧ d.latched = true then (d.divisorLow, d)
  else (e.stale d % 2 ^ 8, d)

def write8 (port v : Nat) : Uart :=
  if port = 0x3FB then { d with lcr := v }
  else if port = 0x3F8 then
    if d.latched then { d with divisorLow := v }
    else if d.txBusy = 0 then
      { d with sent := d.sent ++ [UInt8.ofNat v], txBusy := e.txDelay d }
    else d
  else if port = 0x3F9 then if d.latched then { d with divisorHigh := v } else { d with ier := v }
  else d

end Uart

abbrev SerialState := Terminal Uart

inductive SerialFault where
  /-- A loop that does not end in the given number of rounds. -/
  | endless
  /-- A fault of what is printed over the port. -/
  | format (err : Printf.Fault)
  deriving DecidableEq

abbrev SerialM := Program UartEnv SerialFault SerialState

/-! ## `io.h` -/

def __ioRead8 (addr : Nat) : SerialM Nat := fun e s =>
  .ok ((s.device.read8 e addr).1, { s with device := (s.device.read8 e addr).2 })

def __ioWrite8 (addr data : Nat) : SerialM Unit := fun e s =>
  .ok ((), { s with device := s.device.write8 e addr (data % 2 ^ 8) })

/-! ## `serial_port.c` -/

/-- The communications format; `bank` is the `DLAB` or its complement, shifted. -/
def outputData (bank : Nat) : Nat :=
  (bank ||| gBreakSet <<< 6 ||| gParity <<< 3 ||| gStop <<< 2 ||| (gData - 5)) % 2 ^ 8

def serialPortInit : SerialM Nat := do
  let divisor := 115200 / gBps
  __ioWrite8 (gUartBase + lcrOffset) (outputData (dlab <<< 7))
  __ioWrite8 (gUartBase + baudHighOffset) (divisor >>> 8)
  __ioWrite8 (gUartBase + baudLowOffset) (divisor &&& 0xff)
  -- `~` of an `int`, shifted
  __ioWrite8 (gUartBase + lcrOffset) (outputData ((0xffffffff ^^^ dlab) <<< 7 % 2 ^ 32))
  return 0

/-- `do ... while ((Data & flag) == 0)` -/
def waitFor (flag fuel : Nat) : SerialM Unit :=
  Program.pollLoop .endless (do return (← __ioRead8 (gUartBase + lsrOffset)) &&& flag = 0) fuel

/-- The loop of `serial_port_write`, for `n` more bytes. -/
def writeBytes (fuel buffer : Nat) : Nat → SerialM Unit
  | 0 => return ()
  | n + 1 => do
    waitFor lsrTxrdy fuel
    let byte ← Program.gets fun s => s.mem buffer
    __ioWrite8 gUartBase byte.toNat
    writeBytes fuel (buffer + 1) n

def serialPortWrite (fuel buffer numberOfBytes : Nat) : SerialM Nat := do
  if buffer = 0 then return 0
  writeBytes fuel buffer numberOfBytes
  return numberOfBytes

/-- The loop of `serial_port_read`. -/
def readBytes (fuel buffer : Nat) : Nat → SerialM Unit
  | 0 => return ()
  | n + 1 => do
    waitFor lsrRxda fuel
    let byte ← __ioRead8 gUartBase
    Program.modify fun s => { s with mem := Function.update s.mem buffer (UInt8.ofNat byte) }
    readBytes fuel (buffer + 1) n

def serialPortRead (fuel buffer numberOfBytes : Nat) : SerialM Nat := do
  if buffer = 0 then return 0
  readBytes fuel buffer numberOfBytes
  return numberOfBytes

def serialPortPoll : SerialM Nat := do
  let data ← __ioRead8 (gUartBase + lsrOffset)
  return if data &&& lsrRxda ≠ 0 then 1 else 0

end Serial

end Raincloud
