import Raincloud.Arch.SerialRuns
import Raincloud.Klibc.StdoutTexts

/-!
# Printing over the serial port

Before there is a screen `__stdout` writes to the serial port. What is printed goes onto the line,
one text behind the other.
-/

set_option linter.style.nameCheck false

namespace Raincloud

open Infra

namespace Serial

/-! ## `early_print.c` -/

end Serial

end Raincloud
