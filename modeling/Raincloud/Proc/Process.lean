import Raincloud.Mm.VmMap

/-!
# `id.c`, `thread.c` and `proc.c`

Making and duplicating threads and processes.
-/

set_option linter.style.nameCheck false

namespace Raincloud

open Infra Infra.LinkStore Kernel

/-! ## `id.c` -/

def maxPid : Nat := 256

def maxTid : Nat := 1024

/-- The first free id below a bound, which is then taken, or -1. -/
def __idAlloc (bound : Nat) (table : Nat → Nat) : Int × (Nat → Nat) :=
  match (List.range bound).find? fun i => table i = 0 with
  | some i => (i, Function.update table i 1)
  | none => (-1, table)

def pidAlloc (s : KernelState) : Int × KernelState :=
  let r := __idAlloc maxPid s.pidTable
  (r.1, { s with pidTable := r.2 })

/-- The loop runs to `MAX_PID` in the source too. -/
def tidAlloc (s : KernelState) : Int × KernelState :=
  let r := __idAlloc maxPid s.tidTable
  (r.1, { s with tidTable := r.2 })

/-! ## `thread.c` -/

def regFlagsIfMask : Nat := 0x200

/-- The context `thread_init` sets up. -/
def initialContext (proc : Ptr) (entrypoint stackTop : Nat) : Context :=
  let c := Context.zero
  let c := Function.update c Context.RIP entrypoint
  let c := Function.update c Context.RSP stackTop
  let c := Function.update c Context.SS (if proc = NULL then 0x8 else 0x20 ||| 0x3)
  let c := Function.update c Context.FS 0x8
  let c := Function.update c Context.GS 0x8
  let c := Function.update c Context.CS (if proc = NULL then 0x28 else 0x40 ||| 0x3)
  Function.update c Context.RFLAGS regFlagsIfMask

/-- `memset(thread, 0, sizeof(thread_t))`. -/
def clearThread (thread : Ptr) (s : KernelState) : KernelState :=
  let s := s.setThread thread fun _ => Thread.zero
  let s := setNext s (.threadNode thread) .null
  setPrev s (.threadNode thread) .null

def threadInit (thread proc : Ptr) (entrypoint stackTop : Nat) (s : KernelState) : KernelState :=
  let s := clearThread thread s
  let r := tidAlloc s
  let s := r.2
  let s := listInit s (.threadNode thread)
  let s := s.setThread thread fun _ => ⟨r.1, 0, proc, initialContext proc entrypoint stackTop⟩
  let s := { s with created := s.created.insert thread }
  if proc ≠ NULL then listAddBefore s (.procThreads proc) (.threadNode thread) else s

def threadAttach (thread proc : Ptr) (s : KernelState) : KernelState :=
  let s := s.setThread thread fun t => { t with proc := proc }
  listAddBefore s (.procThreads proc) (.threadNode thread)

def threadDup (new old : Ptr) (s : KernelState) : KernelState :=
  let s := s.setThread new fun _ => s.threads old
  let r := tidAlloc s
  let s := r.2.setThread new fun t => { t with tid := r.1 }
  let s := listInit s (.threadNode new)
  { s with created := s.created.insert new }

/-! ## `proc.c` -/

/-- The loop of `pargs_dup`, from argument `i` on. -/
def pargsDupFrom (new old : Ptr) : Nat → Nat → Kernel Unit
  | 0, _ => pure ()
  | n + 1, i => do
    let str ← Kernel.malloc
    Program.modify fun s =>
      let argv := (s.pargs new).argv
      { s with
        argv := Function.update s.argv argv (Function.update (s.argv argv) i str)
        strings := Function.update s.strings str (s.strings (s.argv (s.pargs old).argv i)) }
    pargsDupFrom new old n (i + 1)

def pargsDup (new old : Ptr) : Kernel Unit := do
  let argv ← Kernel.malloc
  Program.modify fun s =>
    { s with pargs := Function.update s.pargs new { s.pargs new with argv := argv } }
  let argc ← Program.gets fun s => (s.pargs old).argc
  pargsDupFrom new old argc.toNat 0

def penvsDup (new old : Ptr) : Kernel Unit := do
  let pwd ← Kernel.malloc
  Program.modify fun s =>
    { s with
      pwd := Function.update s.pwd new pwd
      strings := Function.update s.strings pwd (s.strings (s.pwd old)) }

def procInit (proc parent args envs vmMap : Ptr) (s : KernelState) : KernelState :=
  let r := pidAlloc s
  let s := r.2
  let s := listInit s (.procNode proc)
  let s := listInit s (.procThreads proc)
  let s := listInit s (.procChild proc)
  let s := s.setProc proc fun p =>
    { p with
      pid := r.1, parent := parent, nice := 0, status := 0, args := args, envs := envs
      vmMap := vmMap
      fdTable := if parent ≠ NULL then (s.procs parent).fdTable else fun _ => NULL }
  if parent ≠ NULL then listAddBefore s (.procChild parent) (.procNode proc) else s

/-- A zeroed `pargs_t`. -/
def mallocPargs : Kernel Ptr := do
  let p ← Kernel.malloc
  Program.modify fun s => { s with pargs := Function.update s.pargs p ⟨0, NULL⟩ }
  return p

def procDup (new old : Ptr) : Kernel Unit := do
  let args ← mallocPargs
  pargsDup args (← Program.gets fun s => (s.procs old).args)
  let envs ← Kernel.malloc
  penvsDup envs (← Program.gets fun s => (s.procs old).envs)
  let vmMap ← Kernel.malloc
  vmMapDup vmMap (← Program.gets fun s => (s.procs old).vmMap)
  Program.modify (procInit new old args envs vmMap)

end Raincloud
