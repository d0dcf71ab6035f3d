import Raincloud.Infra.WordStack
import Raincloud.Klibc.Stdout

/-!
# `exception_handler.S`, `dump.c`

At an exception the processor pushes a frame, the entry of the vector in `exception_handler` pushes
the vector, and `dump_reg` the registers; `__dump_reg` prints what it finds there word by word.
-/

set_option linter.style.nameCheck false

namespace Raincloud

open Infra Infra.Mem

namespace Dump

/-! ## The stack at `__dump_reg` -/

def word (l : List Char) : List UInt8 := l.map Printf.chr

variable {ρ ε δ : Type} (o : Printf.Stdout ρ ε δ)

end Dump

end Raincloud
