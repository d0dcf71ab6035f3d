import Raincloud.Proc.Sched

/-!
# `context.c` and the interrupt handlers

At `__context_save` and `__context_load` the stack holds 23 words: the 17 registers that
`context_save` pushes, its return address, and the 5 words the processor pushed. The return
address is not part of a context.
-/

set_option linter.style.nameCheck false

namespace Raincloud

open Infra Kernel

/-! ## `context.c` -/

/-- `CONTEXT_REGISTER_COUNT`. -/
def contextRegisterCount : Nat := 22

/-- The words of the stack from `stack_top` on. -/
abbrev StackFrame := Fin 23 → Nat

/-- The loop of `__context_save`, for `n` more words: `save` and `top` are the two cursors. -/
def __contextSaveFrom (stack : StackFrame) : Nat → Nat → Nat → Nat → Context → Context
  | 0, _, _, _, c => c
  | n + 1, i, save, top, c =>
    if i = 17 then __contextSaveFrom stack n (i + 1) save (top + 1) c
    else
      __contextSaveFrom stack n (i + 1) (save + 1) (top + 1)
        (Function.update c (Fin.ofNat 22 save) (stack (Fin.ofNat 23 top)))

def __contextSave (c : Context) (stack : StackFrame) : Context :=
  __contextSaveFrom stack (contextRegisterCount + 1) 0 0 0 c

/-- The loop of `__context_load`. -/
def __contextLoadFrom (c : Context) : Nat → Nat → Nat → Nat → StackFrame → StackFrame
  | 0, _, _, _, stack => stack
  | n + 1, i, load, top, stack =>
    if i = 17 then __contextLoadFrom c n (i + 1) load (top + 1) stack
    else
      __contextLoadFrom c n (i + 1) (load + 1) (top + 1)
        (Function.update stack (Fin.ofNat 23 top) (c (Fin.ofNat 22 load)))

def __contextLoad (c : Context) (stack : StackFrame) : StackFrame :=
  __contextLoadFrom c (contextRegisterCount + 1) 0 0 0 stack

/-! ## `context_switch.S` -/

/-- Where a register lies in the frame. -/
def frameSlot (i : Fin 22) : Fin 23 := if i.val < 17 then i.castSucc else i.succ

/-- The frame that an interrupt and the pushes of `context_save` leave. -/
def pushFrame (regs : Context) (ret : Nat) : StackFrame := fun k =>
  if k.val < 17 then regs (Fin.ofNat 22 k) else if k.val = 17 then ret
  else regs (Fin.ofNat 22 (k - 1))

/-- The registers after the pops of `context_load` and `iretq`. -/
def popFrame (frame : StackFrame) : Context := fun i => frame (frameSlot i)

def contextSave (stack : StackFrame) : Kernel Unit :=
  Program.modify fun s =>
    if s.saveContext = NULL then s
    else s.setThread s.saveContext fun t => { t with context := __contextSave t.context stack }

def contextLoad (stack : StackFrame) : Kernel StackFrame :=
  Program.gets fun s =>
    if s.loadContext = NULL then stack else __contextLoad (s.threads s.loadContext).context stack

/-! ## `interrupt_handler.S` -/

/--
`systick_handler`, interrupted with the registers `regs`: the registers it returns to. `ret` is
the return address of `context_save`, `stack` what the stack holds at `__context_load`.
-/
def systickHandler (regs : Context) (ret : Nat) (stack : StackFrame) : Kernel Context := do
  contextSave (pushFrame regs ret)
  sched
  let frame ← contextLoad stack
  return popFrame frame

/-- `syscall_handler`; `call` is the function called, with the value it leaves in `RAX`. -/
def syscallHandler (regs : Context) (ret : Nat) (stack : StackFrame) (call : Kernel Nat) :
    Kernel Context := do
  contextSave (pushFrame regs ret)
  let rax ← call
  Program.modify fun s => s.setThread s.loadContext fun t =>
    { t with context := Function.update t.context Context.RAX rax }
  let frame ← contextLoad stack
  return popFrame frame

/-! ## What is saved is loaded -/

theorem contextSave_apply (c : Context) (stack : StackFrame) (i : Fin 22) :
    __contextSave c stack i = stack (frameSlot i) := by
  fin_cases i <;> rfl

theorem contextLoad_apply (c : Context) (stack : StackFrame) (i : Fin 22) :
    __contextLoad c stack (frameSlot i) = c i := by
  fin_cases i <;> rfl

/-- The return address stays on the stack. -/
theorem contextLoad_ret (c : Context) (stack : StackFrame) : __contextLoad c stack 17 = stack 17 :=
  rfl

theorem pushFrame_apply (regs : Context) (ret : Nat) (i : Fin 22) :
    pushFrame regs ret (frameSlot i) = regs i := by
  fin_cases i <;> rfl

/-- A frame saved is the registers it was pushed from. -/
theorem contextSave_pushFrame (c regs : Context) (ret : Nat) :
    __contextSave c (pushFrame regs ret) = regs := by
  funext i
  rw [contextSave_apply, pushFrame_apply]

/-- A context loaded is what the registers become, whatever was on the stack. -/
theorem popFrame_contextLoad (c : Context) (stack : StackFrame) :
    popFrame (__contextLoad c stack) = c := by
  funext i
  exact contextLoad_apply c stack i

end Raincloud
