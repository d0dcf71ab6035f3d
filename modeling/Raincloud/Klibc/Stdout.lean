import Raincloud.Infra.Terminal
import Raincloud.Klibc.Printf

/-!
# `__stdout`

What the kernel prints is put together in a buffer of the stack and given to the function behind
`__stdout`: by `printf`, by `__bug` and by a failed assertion. A string that is passed to them is
the list of its bytes up to the terminator; the buffer is in the memory of a terminal.
-/

set_option linter.style.nameCheck false

namespace Raincloud.Printf

open Infra

/-- `__stdout`, and the faults of the kernel around it. -/
structure Stdout (ρ ε δ : Type) where
  print : Nat → Nat → Program ρ ε (Terminal δ) Unit
  /-- A loop that does not end in the given number of rounds. -/
  endless : ε
  format : Fault → ε

variable {ρ ε δ : Type}

/-! ## `string.c` -/

/-- The loop of `strlen`, which returns the address of the terminator, as that of `strcat` does. -/
def strEnd (endless : ε) (str : Nat) : Nat → Program ρ ε (Terminal δ) Nat
  | 0 => Program.fault endless
  | fuel + 1 => do
    let c ← Program.gets fun s => s.mem str
    if c = 0 then return str else strEnd endless (str + 1) fuel

/-- The length is counted in an `int`. -/
def strlenAt (endless : ε) (fuel str : Nat) : Program ρ ε (Terminal δ) Int := do
  let strend ← strEnd endless str fuel
  return ((strend : Int) - str).bmod (2 ^ 32)

/-- The bytes and the terminator. -/
def copyString (dst : Nat) : List UInt8 → Program ρ ε (Terminal δ) Unit
  | [] => Program.modify fun s => { s with mem := Function.update s.mem dst 0 }
  | c :: src => do
    Program.modify fun s => { s with mem := Function.update s.mem dst c }
    copyString (dst + 1) src

variable (o : Stdout ρ ε δ)

def strcat (fuel dst : Nat) (src : List UInt8) : Program ρ ε (Terminal δ) Unit := do
  let dst ← strEnd o.endless dst fuel
  copyString dst src

/-! ## `printf.c` -/

/-- `__print_format`, and `sprintf`. -/
def formatInto (buf : Nat) (fmt : List UInt8) (ap : List Arg) :
    Program ρ ε (Terminal δ) Int := fun _ s =>
  match printFormat buf (fmt ++ [0]) () ⟨s.mem, ap⟩ with
  | .ok (ret, p) => .ok (ret, { s with mem := p.mem })
  | .error err => .error (o.format err)

/-- `buf` is the buffer on the stack. -/
def printf (fuel buf : Nat) (fmt : List UInt8) (ap : List Arg) :
    Program ρ ε (Terminal δ) Int := do
  let ret ← formatInto o buf fmt ap
  o.print fuel buf
  return ret

/-! ## `bug.c`, `assert.c` -/

/-- `__print_format` and `sprintf` from `buf + strlen(buf)` on. -/
def formatBehind (fuel buf : Nat) (fmt : List UInt8) (ap : List Arg) :
    Program ρ ε (Terminal δ) Unit := do
  let len ← strlenAt o.endless fuel buf
  let _ ← formatInto o (buf + len).toNat fmt ap
  return ()

/-- "%d" -/
def lineFormat : List UInt8 := [chr '%', chr 'd']

/-- ": " -/
def colon : List UInt8 := [chr ':', chr ' ']

/-- "BUG: " -/
def bugWord : List UInt8 := [chr 'B', chr 'U', chr 'G', chr ':', chr ' ']

/-- "Assertion '" -/
def assertionWord : List UInt8 :=
  [chr 'A', chr 's', chr 's', chr 'e', chr 'r', chr 't', chr 'i', chr 'o', chr 'n', chr ' ', 0x27]

/-- "' failed.\n" -/
def failedWord : List UInt8 :=
  [0x27, chr ' ', chr 'f', chr 'a', chr 'i', chr 'l', chr 'e', chr 'd', chr '.', 0x0a]

def bug (fuel buf : Nat) (file : List UInt8) (line : BitVec 32) (function fmt : List UInt8)
    (ap : List Arg) : Program ρ ε (Terminal δ) Unit := do
  copyString buf bugWord
  strcat o fuel buf file
  strcat o fuel buf colon
  formatBehind o fuel buf lineFormat [.int line]
  strcat o fuel buf colon
  strcat o fuel buf function
  strcat o fuel buf colon
  formatBehind o fuel buf fmt ap
  o.print fuel buf

/-- Up to the `hlt`. -/
def assertFail (fuel buf : Nat) (assertion file : List UInt8) (line : BitVec 32)
    (function : List UInt8) : Program ρ ε (Terminal δ) Unit := do
  copyString buf file
  strcat o fuel buf colon
  formatBehind o fuel buf lineFormat [.int line]
  strcat o fuel buf colon
  strcat o fuel buf function
  strcat o fuel buf colon
  strcat o fuel buf assertionWord
  strcat o fuel buf assertion
  strcat o fuel buf failedWord
  o.print fuel buf

end Raincloud.Printf
