import Raincloud.Infra.Word
import Raincloud.Mm.Layout

/-!
# The table of system calls

`syscall_init` of `syscall.c` and the call through the table in `syscall_handler`. The memory
is seen at its virtual addresses: `memset` clears the page by its physical address, which is
the page mapped at `SYSCALL_BASE` just before.
-/

set_option linter.style.nameCheck false

namespace Raincloud

open Infra

/-! ## The code -/

def syscallBase : Nat := 0xffffffffffff0000

/-- `SYS_CALL_TABLE_SIZE`: a number of pages, and the bound of `set_syscall`. -/
def sysCallTableSize : Nat := 1

/-- `PAGE_SIZE`. -/
def tablePageSize : Nat := 4096

/-- The functions that `syscall_init` registers. -/
inductive SysFunction where
  | sysSyscall
  | sysExit
  | sysFork
  | sysRead
  | sysWrite
  | sysOpen
  | sysClose
  | sysExec
  | sysLseek
  | sysFstat
  | sysIoctl
  deriving DecidableEq

/-- The number a function is registered under. -/
def SysFunction.number : SysFunction → Nat
  | sysSyscall => 0
  | sysExit => 1
  | sysFork => 2
  | sysRead => 3
  | sysWrite => 4
  | sysOpen => 5
  | sysClose => 6
  | sysExec => 11
  | sysLseek => 19
  | sysFstat => 62
  | sysIoctl => 54

/-- The address of an entry, as `*(%rbp, %rax, 8)` computes it. -/
def syscallEntry (number : Nat) : Nat := add64 syscallBase (number * 8)

def setSyscall (syscallNumber functionPtr : Nat) (m : Mem) : Mem :=
  if sysCallTableSize ≤ syscallNumber then m
  else m.store64 (syscallEntry syscallNumber) functionPtr

/-- `syscall_init`, once its page is mapped; `addr` gives the addresses of the functions. -/
def syscallInit (addr : SysFunction → Nat) (m : Mem) : Mem :=
  let m := memset m syscallBase 0 (sysCallTableSize * tablePageSize)
  let m := setSyscall SysFunction.sysSyscall.number (addr .sysSyscall) m
  let m := setSyscall SysFunction.sysExit.number (addr .sysExit) m
  let m := setSyscall SysFunction.sysFork.number (addr .sysFork) m
  let m := setSyscall SysFunction.sysRead.number (addr .sysRead) m
  let m := setSyscall SysFunction.sysWrite.number (addr .sysWrite) m
  let m := setSyscall SysFunction.sysOpen.number (addr .sysOpen) m
  let m := setSyscall SysFunction.sysClose.number (addr .sysClose) m
  let m := setSyscall SysFunction.sysExec.number (addr .sysExec) m
  let m := setSyscall SysFunction.sysLseek.number (addr .sysLseek) m
  let m := setSyscall SysFunction.sysFstat.number (addr .sysFstat) m
  setSyscall SysFunction.sysIoctl.number (addr .sysIoctl) m

/-- The address that `syscall_handler` calls. -/
def syscallTarget (m : Mem) (rax : Nat) : Nat := m.load64 (syscallEntry rax)

/-! ## The table -/

/-- The entry lies in the pages mapped for the table. -/
def InTable (rax : Nat) : Prop :=
  syscallBase ≤ syscallEntry rax ∧
    syscallEntry rax + 8 ≤ syscallBase + sysCallTableSize * tablePageSize

theorem setSyscall_zero (f : Nat) (m : Mem) : setSyscall 0 f m = m.store64 syscallBase f := rfl

/-- `set_syscall` drops every number but 0. -/
theorem setSyscall_pos {n : Nat} (h : 0 < n) (f : Nat) (m : Mem) : setSyscall n f m = m :=
  if_pos h

theorem syscallInit_eq (addr : SysFunction → Nat) (m : Mem) : syscallInit addr m
    = (memset m syscallBase 0 (sysCallTableSize * tablePageSize)).store64 syscallBase
      (addr .sysSyscall) := by
  unfold syscallInit
  simp only [SysFunction.number]
  rw [setSyscall_zero]
  repeat rw [setSyscall_pos (by decide)]

/-- The entry that a value of `RAX` selects: three bits of it are shifted out. -/
theorem syscallEntry_eq (rax : Nat) :
    syscallEntry rax = (syscallBase + rax % 2 ^ 61 * 8) % 2 ^ 64 := by
  unfold syscallEntry add64
  omega

theorem inTable_iff (rax : Nat) : InTable rax ↔ rax % 2 ^ 61 < 512 := by
  unfold InTable
  rw [syscallEntry_eq]
  unfold syscallBase sysCallTableSize tablePageSize
  omega

theorem syscallEntry_inTable {rax : Nat} (h : rax % 2 ^ 61 < 512) :
    syscallEntry rax = syscallBase + rax % 2 ^ 61 * 8 := by
  rw [syscallEntry_eq]
  unfold syscallBase
  omega

/-- The first entry holds the one function that was registered. -/
theorem syscallTarget_first {addr : SysFunction → Nat} (haddr : addr .sysSyscall < 2 ^ 64) (m : Mem)
    {rax : Nat} (h : rax % 2 ^ 61 = 0) : syscallTarget (syscallInit addr m) rax = addr .sysSyscall := by
  rw [syscallTarget, syscallEntry_inTable (by omega), syscallInit_eq, h, Nat.zero_mul, Nat.add_zero]
  exact Mem.load64_store64 haddr

theorem load64_memset_zero (m : Mem) {a b n : Nat} (h : a ≤ b ∧ b + 8 ≤ a + n) :
    (memset m a 0 n).load64 b = 0 := by
  rw [memset, Mem.load64]
  refine (Mem.load_eq_of_digits fun i hi => ?_).trans (Nat.zero_mod _)
  rw [Mem.fill_apply, if_pos (by omega), Nat.zero_div]
  rfl

/-- Every other entry is `NULL`. -/
theorem syscallTarget_rest (addr : SysFunction → Nat) (m : Mem) {rax : Nat}
    (h0 : rax % 2 ^ 61 ≠ 0) (h : rax % 2 ^ 61 < 512) :
    syscallTarget (syscallInit addr m) rax = NULL := by
  rw [syscallTarget, syscallEntry_inTable h, syscallInit_eq,
    Mem.load64_store64_of_disjoint (by omega), load64_memset_zero]
  · rfl
  · unfold sysCallTableSize tablePageSize
    omega

theorem SysFunction.number_lt (f : SysFunction) : f.number < 512 := by
  cases f <;> decide

/-! ## Dispatch -/

/--
A registered number calls its own function; any other value of `RAX` reads an entry of the
table and calls a registered function.
-/
structure DispatchClosed (addr : SysFunction → Nat) (m : Mem) (rax : Nat) : Prop where
  registered : ∀ f : SysFunction, rax = f.number → syscallTarget m rax = addr f
  others : (∀ f : SysFunction, rax ≠ f.number) → InTable rax ∧ ∃ f, syscallTarget m rax = addr f

/--
Dispatch is closed exactly for the values of `RAX` that select the first entry: no other
function is ever registered, and the value is not checked.
-/
theorem dispatchClosed_iff {addr : SysFunction → Nat} (hnull : ∀ f, addr f ≠ NULL)
    (hlt : ∀ f, addr f < 2 ^ 64) (m : Mem) {rax : Nat} (hrax : rax < 2 ^ 64) :
    DispatchClosed addr (syscallInit addr m) rax ↔ rax % 2 ^ 61 = 0 := by
  constructor
  · intro h
    by_contra h0
    by_cases hreg : ∃ f : SysFunction, rax = f.number
    · -- the number is one that `set_syscall` dropped
      obtain ⟨f, hf⟩ := hreg
      have hn := f.number_lt
      have htarget := h.registered f hf
      rw [syscallTarget_rest addr m h0 (by omega)] at htarget
      exact hnull f htarget.symm
    · obtain ⟨hin, f, htarget⟩ := h.others fun f hf => hreg ⟨f, hf⟩
      rw [syscallTarget_rest addr m h0 ((inTable_iff rax).mp hin)] at htarget
      exact hnull f htarget.symm
  · intro h
    have htarget := syscallTarget_first (hlt .sysSyscall) m h
    refine ⟨fun f hf => ?_, fun _ => ⟨(inTable_iff rax).mpr (by omega), .sysSyscall, htarget⟩⟩
    have hn := f.number_lt
    have hzero : f.number = 0 := by omega
    have hf : f = .sysSyscall := by cases f <;> first | rfl | exact absurd hzero (by decide)
    rw [hf]
    exact htarget

/-- An image with its functions 64 bytes apart. -/
def someAddr (f : SysFunction) : Nat := 0xffffffff80000000 + f.number * 64

theorem someAddr_ok (f : SysFunction) : someAddr f ≠ NULL ∧ someAddr f < 2 ^ 64 := by
  cases f <;> decide

theorem dispatchClosed_iff_zero :
    DispatchClosed someAddr (syscallInit someAddr fun _ => 0) 0 ↔ 0 % 2 ^ 61 = 0 :=
  dispatchClosed_iff (fun f => (someAddr_ok f).1) (fun f => (someAddr_ok f).2) _ (by decide)

/-- `sys_exit` is called by number 1, and the processor calls address 0. -/
theorem dispatch_exit : ¬ DispatchClosed someAddr (syscallInit someAddr fun _ => 0) 1 := by
  intro h
  have htarget := h.registered .sysExit rfl
  rw [syscallTarget_rest someAddr _ (by decide) (by decide)] at htarget
  exact absurd htarget (by decide)

end Raincloud
