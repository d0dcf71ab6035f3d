import Raincloud.Infra.BitField
import Raincloud.Infra.Word
import Raincloud.Mm.Layout

/-!
# Descriptor tables

The structures of `segments.h` as bit fields, `init_dsc_tables.c`, which fills the three tables
in low physical memory, and the functions of `int_ctl.c` that change them later. The code of
`int_ctl.c` gets at the tables through the direct map, so `m` is physical memory in all of them.
-/

set_option linter.style.nameCheck false

namespace Raincloud

open Infra

namespace Segments

/-! ## `arch/x86/mm.h` -/

def gdtBase : Nat := 0x0
def gdtSize : Nat := 0x10000
def idtBase : Nat := 0x10000
def idtSize : Nat := 0x1000
def tssBase : Nat := 0x11000
def tssSize : Nat := 0x68

/-! ## `segments.h` -/

-- `struct seg_dsc`; `struct tss_ldt_dsc` begins with the same fields.
namespace SegDsc

def segLimit0_15 : Field := ⟨0, 2, 0, 16⟩
def base0_15 : Field := ⟨2, 2, 0, 16⟩
def base16_23 : Field := ⟨4, 1, 0, 8⟩
def type : Field := ⟨5, 1, 0, 4⟩
def s : Field := ⟨5, 1, 4, 1⟩
def dpl : Field := ⟨5, 1, 5, 2⟩
def p : Field := ⟨5, 1, 7, 1⟩
def segLimit16_19 : Field := ⟨6, 1, 0, 4⟩
def avl : Field := ⟨6, 1, 4, 1⟩
def l : Field := ⟨6, 1, 5, 1⟩
def d_b : Field := ⟨6, 1, 6, 1⟩
def g : Field := ⟨6, 1, 7, 1⟩
def base24_31 : Field := ⟨7, 1, 0, 8⟩

/-- `base_32_63` of `struct tss_ldt_dsc`. -/
def base32_63 : Field := ⟨8, 4, 0, 32⟩

end SegDsc

def segTDRWA : Nat := 0x3
def segTCExRA : Nat := 0xB

-- `struct int_trap_seg_dsc`, with its `seg_sel` as a word.
namespace IntTrapSegDsc

def offset0_15 : Field := ⟨0, 2, 0, 16⟩
def segSel : Field := ⟨2, 2, 0, 16⟩
def ist : Field := ⟨4, 2, 0, 3⟩
def zero1 : Field := ⟨4, 2, 3, 5⟩
def type : Field := ⟨4, 2, 8, 4⟩
def zero2 : Field := ⟨4, 2, 12, 1⟩
def dpl : Field := ⟨4, 2, 13, 2⟩
def p : Field := ⟨4, 2, 15, 1⟩
def offset16_31 : Field := ⟨6, 2, 0, 16⟩
def offset32_63 : Field := ⟨8, 4, 0, 32⟩

/-- `sizeof(struct int_trap_seg_dsc)`. -/
def size : Nat := 16

end IntTrapSegDsc

def dscTypeInit : Nat := 0xe
def dscTypeTrap : Nat := 0xf
def dscTypeTss : Nat := 0x9

/-- A `struct seg_sel` with these members. -/
def segSelWord (rpl ti index : Nat) : Nat := rpl + ti * 2 ^ 2 + index * 2 ^ 3

-- `struct tss_seg`: the lower and the upper half of each stack, and `IO_base`.
namespace TssSeg

def half (offset : Nat) : Field := ⟨offset, 4, 0, 32⟩

def rsp0Lower : Field := half 4
def rsp0Upper : Field := half 8

/-- The offsets of the halves of `RSP0` to `RSP2` and `IST1` to `IST7`, in order. -/
def halves : List Nat :=
  [4, 8, 12, 16, 20, 24, 36, 40, 44, 48, 52, 56, 60, 64, 68, 72, 76, 80, 84, 88]

def ioBase : Field := ⟨102, 2, 0, 16⟩

end TssSeg

/-! ## `init_dsc_tables.c` -/

/-- A data segment of `__gdt_init`. -/
def dataSeg (dpl seg : Nat) (m : Mem) : Mem :=
  let m := m.setField seg SegDsc.p 1
  let m := m.setField seg SegDsc.s 1
  let m := m.setField seg SegDsc.dpl dpl
  m.setField seg SegDsc.type segTDRWA

/-- A code segment of `__gdt_init`. -/
def codeSeg (l dpl seg : Nat) (m : Mem) : Mem :=
  let m := m.setField seg SegDsc.p 1
  let m := m.setField seg SegDsc.s 1
  let m := m.setField seg SegDsc.l l
  let m := m.setField seg SegDsc.type segTCExRA
  m.setField seg SegDsc.dpl dpl

/-- The descriptor of the task state. -/
def tssDsc (tssLdt : Nat) (m : Mem) : Mem :=
  let m := m.setField tssLdt SegDsc.type dscTypeTss
  let m := m.setField tssLdt SegDsc.base0_15 ((tssBase + phyMapBase) % 2 ^ 16)
  let m := m.setField tssLdt SegDsc.base16_23 ((tssBase + phyMapBase) / 2 ^ 16 % 2 ^ 8)
  let m := m.setField tssLdt SegDsc.base24_31 ((tssBase + phyMapBase) / 2 ^ 24 % 2 ^ 8)
  let m := m.setField tssLdt SegDsc.base32_63 ((tssBase + phyMapBase) / 2 ^ 32 % 2 ^ 32)
  let m := m.setField tssLdt SegDsc.p 1
  let m := m.setField tssLdt SegDsc.segLimit0_15 (tssSize - 1)
  m.setField tssLdt SegDsc.avl 1

/-- The segments from `seg` on, with a `seg ++` behind each. -/
def writeSegs (seg : Nat) : List (Nat → Mem → Mem) → Mem → Mem
  | [], m => m
  | write :: writes, m => writeSegs (seg + 8) writes (write seg m)

def __gdtInit (m : Mem) : Mem :=
  let m := m.fill gdtBase 0 gdtSize
  writeSegs (gdtBase + 8)
    [dataSeg 0, dataSeg 1, dataSeg 2, dataSeg 3,
      codeSeg 1 0, codeSeg 1 1, codeSeg 1 2, codeSeg 1 3,
      codeSeg 0 0, codeSeg 0 1, codeSeg 0 2, codeSeg 0 3,
      tssDsc] m

/-- The offset of a gate that leads to `handler`. -/
def setOffset (dsc handler : Nat) (m : Mem) : Mem :=
  let m := m.setField dsc IntTrapSegDsc.offset0_15 handler
  let m := m.setField dsc IntTrapSegDsc.offset16_31 (handler / 2 ^ 16)
  m.setField dsc IntTrapSegDsc.offset32_63 (handler / 2 ^ 32)

/-- `exception_handler_dsc`, a local variable at `dsc`. -/
def exceptionHandlerDsc (dsc handlerAddr : Nat) (m : Mem) : Mem :=
  let m := m.setField dsc IntTrapSegDsc.p 1
  let m := m.setField dsc IntTrapSegDsc.dpl 0
  let m := m.setField dsc IntTrapSegDsc.zero1 0
  let m := m.setField dsc IntTrapSegDsc.type dscTypeInit
  let m := m.setField dsc IntTrapSegDsc.zero2 0
  let m := m.setField dsc IntTrapSegDsc.ist 0
  let m := m.setField dsc IntTrapSegDsc.segSel (segSelWord 0 0 5)
  setOffset dsc handlerAddr m

/-- The loop of `__idt_init`, for `n` more gates from `i` on; `dsc` is the local variable. -/
def idtInitLoop : Nat → Nat → Nat → Mem → Mem → Mem
  | 0, _, _, _, m => m
  | n + 1, i, handlerAddr, dsc, m =>
    let m := m.put (idtBase + i * IntTrapSegDsc.size) IntTrapSegDsc.size fun j => dsc (0 + j)
    let handlerAddr := add64 handlerAddr 4
    idtInitLoop n (i + 1) handlerAddr (setOffset 0 handlerAddr dsc) m

/-- `__idt_init`, for an exception handler linked at `handler` and what the stack held before. -/
def __idtInit (handler : Nat) (dsc : Mem) (m : Mem) : Mem :=
  let handlerAddr := add64 handler kernelImageBase
  let m := m.fill idtBase 0 idtSize
  idtInitLoop 16 0 handlerAddr (exceptionHandlerDsc 0 handlerAddr dsc) m

/-- The assignments of `__tss_init` to the halves of the stacks. -/
def setHalves : List Nat → Mem → Mem
  | [], m => m
  | offset :: offsets, m =>
    setHalves offsets (m.setField tssBase (TssSeg.half offset) 0xffffffff)

def __tssInit (m : Mem) : Mem :=
  let m := m.fill tssBase 0 tssSize
  let m := setHalves TssSeg.halves m
  m.setField tssBase TssSeg.ioBase 0x0000

def initDscTables (handler : Nat) (dsc : Mem) (m : Mem) : Mem :=
  __tssInit (__idtInit handler dsc (__gdtInit m))

/-! ## `int_ctl.c` -/

/-- The gate of a vector: `__get_idt_addr__() + vector`. -/
def gateAddr (vector : Nat) : Nat := idtBase + vector * IntTrapSegDsc.size

/-- The switch of `int_reg` on its `enum INT_TYPE`; `none` is the `bug` in the default case. -/
def intDscType : Nat → Option Nat
  | 0 => some dscTypeInit
  | 1 => some dscTypeTrap
  | _ => none

/-- The assignments of `int_reg`. -/
def writeGate (dsc handle dscType : Nat) (m : Mem) : Mem :=
  let m := m.setField dsc IntTrapSegDsc.offset0_15 (handle % 2 ^ 16)
  let m := m.setField dsc IntTrapSegDsc.segSel (segSelWord 0 0 5)
  let m := m.setField dsc IntTrapSegDsc.ist 0
  let m := m.setField dsc IntTrapSegDsc.zero1 0
  let m := m.setField dsc IntTrapSegDsc.type dscType
  let m := m.setField dsc IntTrapSegDsc.zero2 0
  let m := m.setField dsc IntTrapSegDsc.dpl 3
  let m := m.setField dsc IntTrapSegDsc.p 1
  let m := m.setField dsc IntTrapSegDsc.offset16_31 (handle / 2 ^ 16 % 2 ^ 16)
  m.setField dsc IntTrapSegDsc.offset32_63 (handle / 2 ^ 32 % 2 ^ 32)

def intReg (vector handle type : Nat) (m : Mem) : Option Mem :=
  (intDscType type).map fun dscType => writeGate (gateAddr vector) handle dscType m

def intUnreg (vector : Nat) (m : Mem) : Mem :=
  m.setField (gateAddr vector) IntTrapSegDsc.p 0

/-- What `init_int_stack` writes to the task state. -/
def setIntStack (stackTopVirt : Nat) (m : Mem) : Mem :=
  let m := m.setField tssBase TssSeg.rsp0Lower stackTopVirt
  m.setField tssBase TssSeg.rsp0Upper (stackTopVirt / 2 ^ 32)

/-! ## What the processor makes of them -/

/-- A segment as a selector gives it. -/
structure Segment where
  /-- A code or data segment, not a system segment. -/
  s : Nat
  type : Nat
  dpl : Nat
  l : Nat
  d_b : Nat
  deriving DecidableEq

/-- The descriptor that a selector stands for, if it is in the table and present. -/
def segmentAt (m : Mem) (sel : Nat) : Option Segment :=
  let a := gdtBase + sel / 2 ^ 3 * 8
  if sel / 2 ^ 2 % 2 = 1 ∨ sel / 2 ^ 3 = 0 ∨ gdtSize < sel / 2 ^ 3 * 8 + 8 then none
  else if m.field a SegDsc.p = 0 then none
  else some
    { s := m.field a SegDsc.s
      type := m.field a SegDsc.type
      dpl := m.field a SegDsc.dpl
      l := m.field a SegDsc.l
      d_b := m.field a SegDsc.d_b }

/-- Base and limit of the task state whose selector is in the task register. -/
def taskState (m : Mem) (sel : Nat) : Nat × Nat :=
  let a := gdtBase + sel / 2 ^ 3 * 8
  (m.field a SegDsc.base0_15 + m.field a SegDsc.base16_23 * 2 ^ 16 +
      m.field a SegDsc.base24_31 * 2 ^ 24 + m.field a SegDsc.base32_63 * 2 ^ 32,
    m.field a SegDsc.segLimit0_15 + m.field a SegDsc.segLimit16_19 * 2 ^ 16)

/-- A gate of the interrupt table. -/
structure Gate where
  p : Nat
  dpl : Nat
  type : Nat
  ist : Nat
  selector : Nat
  offset : Nat
  deriving DecidableEq

def gateAt (m : Mem) (vector : Nat) : Gate where
  p := m.field (gateAddr vector) IntTrapSegDsc.p
  dpl := m.field (gateAddr vector) IntTrapSegDsc.dpl
  type := m.field (gateAddr vector) IntTrapSegDsc.type
  ist := m.field (gateAddr vector) IntTrapSegDsc.ist
  selector := m.field (gateAddr vector) IntTrapSegDsc.segSel
  offset := m.field (gateAddr vector) IntTrapSegDsc.offset0_15 +
    m.field (gateAddr vector) IntTrapSegDsc.offset16_31 * 2 ^ 16 +
    m.field (gateAddr vector) IntTrapSegDsc.offset32_63 * 2 ^ 32

/--
Whether code outside the kernel may access a byte at a port, with the task register `tr`: the bit
of the port in the map that `IO_base` leads to must be clear, and the two bytes that are read for
it must be inside the task state. The direct map leads to the bytes.
-/
def ioAllowed (m : Mem) (tr port : Nat) : Bool :=
  let base := (taskState m tr).1 - phyMapBase
  let byte := m.field base TssSeg.ioBase + port / 8
  byte + 1 ≤ (taskState m tr).2 ∧ (m (base + byte)).toNat / 2 ^ (port % 8) % 2 = 0

end Segments

end Raincloud
