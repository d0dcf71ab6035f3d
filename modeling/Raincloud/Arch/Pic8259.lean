import Raincloud.Infra.Arbiter

/-!
# `pic_8259_init` and the interrupt controllers

The two interrupt controllers of a PC and the part of `isa.c` that sets them up. Only what the
driver can reach is there: it puts both chips into automatic end of interrupt and writes no
command after that, so commands other than the first initialization word do nothing here.
Requests are edges that the chips keep until they are acknowledged.
-/

set_option linter.style.nameCheck false

namespace Raincloud

open Infra

namespace Pic

/-! ## A chip -/

/-- What the next byte to the second port is. -/
inductive Expects where
  | icw2
  | icw3
  | icw4
  /-- The mask of the first operation control word. -/
  | ocw1
  deriving DecidableEq

structure Chip where
  /-- The inputs that are masked. -/
  imr : Nat
  /-- The inputs with a request that waits. -/
  irr : Nat
  /-- The inputs whose request was taken and not ended. -/
  isr : Nat
  vector : Nat
  /-- Of the first chip the inputs with another chip, of the second the input it is at. -/
  cascade : Nat
  autoEoi : Bool
  mode86 : Bool
  needsIcw4 : Bool
  single : Bool
  expects : Expects
  deriving DecidableEq

namespace Chip

/-- A byte to the first port. -/
def writeCommand (data : Nat) (c : Chip) : Chip :=
  if data.testBit 4 then
    { c with
      imr := 0, irr := 0, isr := 0, autoEoi := false, mode86 := false
      needsIcw4 := data.testBit 0, single := data.testBit 1, expects := .icw2 }
  else c

/-- A byte to the second port. -/
def writeData (data : Nat) (c : Chip) : Chip :=
  let last := if c.needsIcw4 then Expects.icw4 else .ocw1
  match c.expects with
  | .icw2 => { c with vector := data &&& 0xf8, expects := if c.single then last else .icw3 }
  | .icw3 => { c with cascade := data, expects := last }
  | .icw4 =>
    { c with autoEoi := data.testBit 1, mode86 := data.testBit 0, expects := .ocw1 }
  | .ocw1 => { c with imr := data }

/--
The input to be served, when these have a request: the first one that is not masked, unless it or
one before it is being served.
-/
def request (lines : Nat) (c : Chip) : Option Nat :=
  (List.range 8).find? fun i =>
    lines.testBit i && !c.imr.testBit i && decide (c.isr % 2 ^ (i + 1) = 0)

/-- A request is being served, or with automatic end of interrupt done with. -/
def serve (i : Nat) (c : Chip) : Chip :=
  { c with
    irr := if c.irr.testBit i then c.irr ^^^ 1 <<< i else c.irr
    isr := if c.autoEoi then c.isr else c.isr ||| 1 <<< i }

/-- The vector on the bus; in the other mode the chip answers with a call instruction. -/
def answer (i : Nat) (c : Chip) : Option Nat := if c.mode86 then some (c.vector + i) else none

/-- An edge at an input. -/
def edge (i : Nat) (c : Chip) : Chip := { c with irr := c.irr ||| 1 <<< i }

end Chip

/-! ## The two chips -/

structure Pair where
  master : Chip
  slave : Chip
  deriving DecidableEq

namespace Pair

/-- The second chip is wired to input 2 of the first. -/
def wire : Nat := 2

/-- The inputs of the first chip with a request. -/
def lines (s : Pair) : Nat :=
  if (s.slave.request s.slave.irr).isSome then s.master.irr ||| 1 <<< wire else s.master.irr

def raise (irq : Nat) (s : Pair) : Pair :=
  if irq < 8 then { s with master := s.master.edge irq }
  else { s with slave := s.slave.edge (irq - 8) }

/-- The processor acknowledges, if there is a request: the vector it gets. -/
def acknowledge (s : Pair) : Option Nat × Pair :=
  match s.master.request s.lines with
  | none => (none, s)
  | some i =>
    let master := s.master.serve i
    if s.master.cascade.testBit i then
      match s.slave.request s.slave.irr with
      | none => (none, { s with master := master })
      | some j =>
        (if s.slave.cascade % 8 = i then s.slave.answer j else none,
          { s with master := master, slave := s.slave.serve j })
    else (s.master.answer i, { s with master := master })

end Pair

/-! ## `io.h`, at the ports of the controllers -/

def __ioWrite8 (addr data : Nat) (s : Pair) : Pair :=
  if addr = 0x20 then { s with master := s.master.writeCommand (data % 2 ^ 8) }
  else if addr = 0x21 then { s with master := s.master.writeData (data % 2 ^ 8) }
  else if addr = 0xa0 then { s with slave := s.slave.writeCommand (data % 2 ^ 8) }
  else if addr = 0xa1 then { s with slave := s.slave.writeData (data % 2 ^ 8) }
  else s

/-- The driver only reads masks. -/
def __ioRead8 (addr : Nat) (s : Pair) : Nat :=
  if addr = 0x21 then s.master.imr else if addr = 0xa1 then s.slave.imr else 0xff

/-! ## `isa.c` -/

def pic8259Init (vecBase : Nat) (s : Pair) : Pair :=
  let vecBase := vecBase &&& 0xf8
  let s := __ioWrite8 0x20 (1 <<< 4 ||| 1) s
  let s := __ioWrite8 0x21 vecBase s
  let s := __ioWrite8 0x21 (1 <<< 2) s
  let s := __ioWrite8 0x21 (1 <<< 1 ||| 1) s
  let s := __ioWrite8 0x21 0xfb s
  let s := __ioWrite8 0xa0 (1 <<< 4 ||| 1) s
  let s := __ioWrite8 0xa1 (vecBase + 8) s
  let s := __ioWrite8 0xa1 (1 <<< 1) s
  let s := __ioWrite8 0xa1 (1 <<< 1 ||| 1) s
  __ioWrite8 0xa1 0xff s

/-- `none` is the assertion failing, in both. -/
def pic8259MaskInt (irq : Nat) (s : Pair) : Option Pair :=
  let reg := if irq < 8 then 0x21 else 0xa1
  let bit := if irq < 8 then irq else irq - 8
  if irq ≤ 15 then some (__ioWrite8 reg (__ioRead8 reg s ||| 1 <<< bit) s) else none

def pic8259UnmaskInt (irq : Nat) (s : Pair) : Option Pair :=
  let reg := if irq < 8 then 0x21 else 0xa1
  let bit := if irq < 8 then irq else irq - 8
  -- `~` of an `int`
  if irq ≤ 15 then some (__ioWrite8 reg (__ioRead8 reg s &&& (0xffffffff ^^^ 1 <<< bit)) s)
  else none

/-! ## Runs -/

/-- The driver is called, a device has a request, or the processor takes one: its vector. -/
def runEvent (s : Pair) : LineEvent Nat → Option (Option Nat × Pair)
  | .mask irq => (pic8259MaskInt irq s).map fun s => (none, s)
  | .unmask irq => (pic8259UnmaskInt irq s).map fun s => (none, s)
  | .raise irq => some (none, s.raise irq)
  | .acknowledge => some s.acknowledge

/-- The vectors that the processor gets, in order. -/
def runEvents : List (LineEvent Nat) → Pair → Option (List Nat × Pair)
  | [], s => some ([], s)
  | e :: es, s =>
    (runEvent s e).bind fun r => (runEvents es r.2).map fun q => (r.1.toList ++ q.1, q.2)

end Pic

end Raincloud
