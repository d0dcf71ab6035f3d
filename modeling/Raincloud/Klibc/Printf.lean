import Raincloud.Infra.Program
import Raincloud.Infra.TextBuffer

/-!
# `printf.c`

A format is the list of its bytes with the terminator at the end, and a pointer into it is what
is left of it from there on. A string argument is the list of its bytes up to the terminator.
-/

set_option linter.style.nameCheck false

namespace Raincloud.Printf

open Infra

/-- An argument as `va_arg` finds it. -/
inductive Arg where
  | string (s : List UInt8)
  | int (w : BitVec 32)
  | long (w : BitVec 64)
  deriving DecidableEq

inductive Fault where
  /-- A read of the format behind its terminator. -/
  | pastEnd
  /-- There is no argument of the type that is asked for. -/
  | argument
  /-- A write behind the end of `temp_buf`. -/
  | tempBuf
  deriving DecidableEq

structure PrintState where
  mem : Mem
  args : List Arg

abbrev Print := Program Unit Fault PrintState

/-- `va_arg(ap, char *)` -/
def vaArgString : Print (List UInt8) := fun _ s =>
  match s.args with
  | .string t :: args => .ok (t, { s with args := args })
  | _ => .error .argument

/-- `va_arg(ap, int)` and `va_arg(ap, unsigned int)` -/
def vaArgInt : Print (BitVec 32) := fun _ s =>
  match s.args with
  | .int w :: args => .ok (w, { s with args := args })
  | _ => .error .argument

/-- `va_arg(ap, long)` and `va_arg(ap, unsigned long)` -/
def vaArgLong : Print (BitVec 64) := fun _ s =>
  match s.args with
  | .long w :: args => .ok (w, { s with args := args })
  | _ => .error .argument

/-- `*ptr = c` -/
def writeByte (ptr : Nat) (c : UInt8) : Print Unit :=
  Program.modify fun s => { s with mem := Function.update s.mem ptr c }

/-! ## The helpers -/

def hexTable : List UInt8 :=
  [0x30, 0x31, 0x32, 0x33, 0x34, 0x35, 0x36, 0x37, 0x38, 0x39, 0x41, 0x42, 0x43, 0x44, 0x45, 0x46]

def printHex (buf : Nat) (hex : BitVec 64) : Nat → Print Nat
  | 0 => pure buf
  | num + 1 => do
    writeByte buf (hexTable.getD (hex >>> (num * 4) &&& 0x0f).toNat 0)
    printHex (buf + 1) hex num

/-- The `do` loop. What is in `temp_buf` comes latest first, and there is room for some more. -/
def deciDigits : Nat → Int → List UInt8 → Print (List UInt8)
  | 0, _, _ => Program.fault .tempBuf
  | room + 1, deci, temp_buf => do
    let temp_buf := UInt8.ofInt (deci.tmod 10 + 0x30) :: temp_buf
    if deci.tdiv 10 = 0 then return temp_buf
    deciDigits room (deci.tdiv 10) temp_buf

/-- The last loop, over what is in `temp_buf`. -/
def writeTemp (buf : Nat) : List UInt8 → Print Nat
  | [] => pure buf
  | c :: temp_buf => do
    writeByte buf c
    writeTemp (buf + 1) temp_buf

def printDeci (buf : Nat) (deci : Int) : Print Nat := do
  let temp_buf ← deciDigits 21 (if deci < 0 then (-deci).bmod (2 ^ 64) else deci) []
  if deci < 0 then
    Program.check (temp_buf.length < 21) .tempBuf
    writeTemp buf (0x2d :: temp_buf)
  else
    writeTemp buf temp_buf

/-- The bytes and the terminator. -/
def strcpy (dst : Nat) : List UInt8 → Print Unit
  | [] => writeByte dst 0
  | c :: src => do
    writeByte dst c
    strcpy (dst + 1) src

/-- The length is counted in an `int`. -/
def strlen (str : List UInt8) : Int := (str.length : Int).bmod (2 ^ 32)

def printStr (buf : Nat) (str : List UInt8) : Print Nat := do
  strcpy buf str
  return (buf + strlen str).toNat

def printCh (buf : Nat) (ch : UInt8) : Print Nat := do
  writeByte buf ch
  return buf + 1

/-! ## `__print_format` -/

def chr (c : Char) : UInt8 := UInt8.ofNat c.toNat

/-- The cases of `switch (*++fmt)` but for 'l' and 'L'. -/
def specifier (c : UInt8) (ptr : Nat) : Print Nat :=
  if c = chr 's' ∨ c = chr 'S' then do
    let s ← vaArgString
    printStr ptr s
  else if c = chr 'c' ∨ c = chr 'C' then do
    let w ← vaArgInt
    printCh ptr (UInt8.ofNat w.toNat)
  else if c = chr 'd' ∨ c = chr 'D' then do
    let d ← vaArgInt
    printDeci ptr d.toInt
  else if c = chr 'x' ∨ c = chr 'X' then do
    let x ← vaArgInt
    printHex ptr (x.setWidth 64) 8
  else
    return ptr

/-- The cases of the `switch (*++fmt)` behind an 'l'. -/
def longSpecifier (c : UInt8) (ptr : Nat) : Print Nat :=
  if c = chr 'd' ∨ c = chr 'D' then do
    let ld ← vaArgLong
    printDeci ptr ld.toInt
  else if c = chr 'x' ∨ c = chr 'X' then do
    let lx ← vaArgLong
    printHex ptr lx 16
  else
    return ptr

/-- The `while` loop. -/
def printLoop : List UInt8 → Nat → Print Nat
  | [], _ => Program.fault .pastEnd
  | c :: fmt, ptr =>
    if c = 0 then return ptr
    else if c = chr '%' then
      match fmt with
      | [] => Program.fault .pastEnd
      | c :: fmt =>
        if c = chr 'l' ∨ c = chr 'L' then
          match fmt with
          | [] => Program.fault .pastEnd
          | c :: fmt => do
            let ptr ← longSpecifier c ptr
            printLoop fmt ptr
        else do
          let ptr ← specifier c ptr
          printLoop fmt ptr
    else do
      writeByte ptr c
      printLoop fmt (ptr + 1)

def printFormat (buf : Nat) (fmt : List UInt8) : Print Int := do
  let ptr ← printLoop fmt buf
  writeByte ptr 0
  return ((ptr + 1 : Nat) - (buf : Int)).bmod (2 ^ 32)

end Raincloud.Printf
