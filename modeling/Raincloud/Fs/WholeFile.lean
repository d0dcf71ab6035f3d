import Raincloud.Fs.ChainEnds
import Raincloud.Fs.ReadFile

/-!
# Reading a file as a whole

`fatfs_readfile` compares the buffer with the size of the file in bytes, and its loop moves
whole clusters. The last cluster of the file is read only if the buffer has room for all of it.
-/

set_option linter.style.nameCheck false

namespace Raincloud

open Infra

variable {drive : Drive} {fs : FATFS} {file : FATFile} {cs : List Nat} {buf bufsize : Nat}

end Raincloud
