import Raincloud.Display.Console
import Raincloud.Fs.FatDir
import Raincloud.Klibc.StdoutTexts

/-!
# Printing on the screen

Once there is a screen `__stdout` is `WriteLine`. What is printed is laid out behind what was
printed before, and the screen shows the last rows of it.
-/

set_option linter.style.nameCheck false

namespace Raincloud

open Infra

namespace Screen

inductive ScreenFault where
  | display (err : DisplayFault)
  /-- A loop that does not end in the given number of rounds. -/
  | endless
  /-- A fault of what is printed. -/
  | format (err : Printf.Fault)
  /-- A fault of reading the font. -/
  | font (err : FatFault)
  /-- No volume to read the font from. -/
  | noVolume

abbrev ScreenM := Program Unit ScreenFault (Terminal Console)

/-- A step of the console. -/
def step (f : Console → Except DisplayFault Console) : ScreenM Unit := fun _ s =>
  match f s.device with
  | .ok c => .ok ((), { s with device := c })
  | .error err => .error (.display err)

variable (font : List UInt8)

variable {font}

end Screen

end Raincloud
