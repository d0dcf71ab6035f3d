import Raincloud.Display.ScreenPrint
import Raincloud.Fs.WholeFile

/-!
# `DisplayInit`

The font comes from a file in the root directory of the volume. It is read into a block of 40960
bytes, the screen is cleared with its space, and from then on what is printed is shown in it.
-/

set_option linter.style.nameCheck false

namespace Raincloud

open Infra

namespace Screen

def chars (l : List Char) : List UInt8 := l.map Printf.chr

variable {drive : Drive} {fs : FATFS} {clusters cs : List Nat} {rs : List DirRecord} {r : DirRecord}
  {stop fuel fontBuf buf : Nat} {heap : Mem} {s : Terminal Console}

end Screen

end Raincloud
