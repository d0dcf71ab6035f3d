import Raincloud.Infra.Scan
import Raincloud.Kernel.Objects

/-!
# `pci.c`: the devices on the bus

`pci_init` reads the configuration space of bus 0 through the two ports of the host bridge and
links a `PCI_Device_t` for each function into `pci_dev_list`. An empty slot reads all ones. The
test for it is `reg & 0xffff == 0xffff`, which is `reg & (0xffff == 0xffff)`, and at an empty slot
the loop is left: so a function is found only if its vendor id is even and no slot before it is
empty.
-/

set_option linter.style.nameCheck false

namespace Raincloud

open Infra Infra.LinkStore

namespace Pci

/-! ## The bus -/

/-- The vendor id in the first word of a configuration space. -/
def vendorId (word : Nat) : Nat := word % 2 ^ 16

/-- The configuration space of bus 0: the words of each device, function and register. -/
structure ConfSpace where
  word : Nat → Nat → Nat → Nat
  word_lt : ∀ dev func reg, word dev func reg < 2 ^ 32
  /-- A function that is not there reads all ones. -/
  absent : ∀ dev func reg, vendorId (word dev func 0) = 0xffff → word dev func reg = 0xffffffff
  /-- A device has a function 0. -/
  first : ∀ dev func, vendorId (word dev func 0) ≠ 0xffff → vendorId (word dev 0 0) ≠ 0xffff

namespace ConfSpace

variable (conf : ConfSpace)

def Present (dev func : Nat) : Prop := vendorId (conf.word dev func 0) ≠ 0xffff

instance (dev func : Nat) : Decidable (conf.Present dev func) := inferInstanceAs (Decidable (_ ≠ _))

/-- What the host bridge reads at the address in its address register. -/
def read (addr : Nat) : Nat :=
  if addr / 2 ^ 31 % 2 = 1 ∧ addr / 2 ^ 16 % 2 ^ 8 = 0 then
    conf.word (addr / 2 ^ 11 % 2 ^ 5) (addr / 2 ^ 8 % 2 ^ 3) (addr / 2 ^ 2 % 2 ^ 6)
  else 0xffffffff

end ConfSpace

/-! ## The state -/

/-- A `list_head_t`. -/
inductive PciRef where
  | null
  | devList (list : Ptr)
  | list (device : Ptr)
  deriving DecidableEq

/-- `PCI_Device_t`, with its header as 16 words. -/
structure PciDevice where
  bus : Nat
  device : Nat
  function : Nat
  confHeader : Nat → Nat

structure PciState where
  /-- The address register of the host bridge. -/
  confAddr : Nat
  next : PciRef → PciRef
  prev : PciRef → PciRef
  devices : Ptr → PciDevice
  pciDevList : Ptr
  /-- The blocks in use. -/
  live : List Ptr

instance : LinkStore PciState PciRef where
  next s := s.next
  prev s := s.prev
  setNext s x v := { s with next := Function.update s.next x v }
  setPrev s x v := { s with prev := Function.update s.prev x v }

theorem pciState_lawful : LawfulOn PciState (Set.univ : Set PciRef) where
  next_setNext s x v y _ _ _ := Function.update_apply s.next x v y
  prev_setNext _ _ _ _ _ _ _ := rfl
  next_setPrev _ _ _ _ _ _ _ := rfl
  prev_setPrev s x v y _ _ _ := Function.update_apply s.prev x v y

def PciState.setDevice (p : Ptr) (f : PciDevice → PciDevice) (s : PciState) : PciState :=
  { s with devices := Function.update s.devices p (f (s.devices p)) }

structure PciEnv where
  conf : ConfSpace
  /-- What the next `malloc` returns. -/
  malloc : PciState → Ptr

/-- `malloc` finds a block that is not in use. -/
def PciEnv.MallocSucceeds (e : PciEnv) : Prop := ∀ s, e.malloc s ≠ NULL ∧ e.malloc s ∉ s.live

inductive PciFault where
  /-- An assertion. -/
  | halted
  /-- A write through the `NULL` that `malloc` returned. -/
  | nullPointer
  /-- A loop that does not end in the given number of rounds. -/
  | endless
  /-- Not a fault of the code: the environment gave a block that was in use. -/
  | environment
  deriving DecidableEq

abbrev PciM := Program PciEnv PciFault PciState

/-! ## `pci.h` -/

def pciConfAddrRegAddr : Nat := 0x0cf8

def pciConfDataRegAddr : Nat := 0x0cfc

/-- A write to the port of the address register. -/
def __ioWrite32 (addr data : Nat) : PciM Unit :=
  Program.modify fun s => if addr = pciConfAddrRegAddr then { s with confAddr := data } else s

/-- A read from the port of the data register. -/
def __ioRead32 (addr : Nat) : PciM Nat :=
  Program.ask fun e s => if addr = pciConfDataRegAddr then e.conf.read s.confAddr else 0xffffffff

def __pciConfAddrRegWrite (bus dev func reg : Nat) : PciM Unit := do
  Program.check (dev >>> 5 = 0) .halted
  Program.check (func >>> 3 = 0) .halted
  Program.check (reg >>> 6 = 0) .halted
  __ioWrite32 pciConfAddrRegAddr
    (1 <<< 31 ||| bus <<< 16 ||| dev <<< 11 ||| func <<< 8 ||| reg <<< 2)

def __pciConfDataRegRead : PciM Nat := __ioRead32 pciConfDataRegAddr

def __pciReadReg (bus dev func reg : Nat) : PciM Nat := do
  __pciConfAddrRegWrite bus dev func reg
  __pciConfDataRegRead

/-! ## `pci.c` -/

def malloc : PciM Ptr := do
  let p ← Program.ask PciEnv.malloc
  Program.check (p ≠ NULL) .nullPointer
  Program.check (p ∉ (← Program.gets PciState.live)) .environment
  Program.modify fun s => { s with live := p :: s.live }
  return p

/-- `==` binds tighter than `&`. -/
def noDevice (word : Nat) : Bool := word &&& (0xffff == 0xffff : Bool).toNat ≠ 0

/-- The test of both loops. -/
def emptySlot (dev func : Nat) : PciM Bool := do
  return noDevice (← __pciReadReg 0 dev func 0)

/-- The loop over the words of the header, with `n` of them left. -/
def readHeader (dev func : Nat) (pciDevice : Ptr) : Nat → PciM Unit
  | 0 => return ()
  | n + 1 => do
    let reg := 16 - (n + 1)
    let word ← __pciReadReg 0 dev func reg
    Program.modify fun s => s.setDevice pciDevice fun d =>
      { d with confHeader := Function.update d.confHeader reg word }
    readHeader dev func pciDevice n

/-- The body of the loop over the functions. -/
def addDevice (dev func : Nat) : PciM Unit := do
  let pciDevice ← malloc
  Program.modify fun s => listInit s (.list pciDevice)
  Program.modify fun s => listAddBefore s (.devList s.pciDevList) (.list pciDevice)
  Program.modify fun s => s.setDevice pciDevice fun d =>
    { d with bus := 0, device := dev, function := func }
  readHeader dev func pciDevice 16

/-- The loop over the functions of a device. -/
def funcLoop (fuel dev : Nat) : PciM Unit :=
  Program.scanLoop .endless (emptySlot dev) (addDevice dev) fuel 0

/-- The loop over the devices. -/
def devLoop (fuel : Nat) : PciM Unit :=
  Program.scanLoop .endless (fun dev => emptySlot dev 0) (funcLoop fuel) fuel 0

def pciInit (fuel : Nat) : PciM Unit := do
  let list ← malloc
  Program.modify fun s => listInit { s with pciDevList := list } (.devList list)
  devLoop fuel

end Pci

end Raincloud
