import Raincloud.Infra.Memory

/-!
# Words on a stack

Words are pushed from an address downwards and read from an address upwards: what is read is what
was pushed, latest first, and then what was there before.
-/

namespace Infra

namespace Mem

variable {m m' : Mem} {a sp : Nat} {ws : List Nat}

end Mem

end Infra
