import Raincloud.Klibc.Queue
import Raincloud.Proc.Process

/-!
# `sched.c`, `fork.c`, `exit.c` and `exec.c`

The scheduler and the calls that change which threads it runs.
-/

set_option linter.style.nameCheck false

namespace Raincloud

open Infra Infra.LinkStore Kernel

/-! ## `sched.c` -/

/-- A zeroed `thread_t`. -/
def mallocThread : Kernel Ptr := do
  let p ← Kernel.malloc
  Program.modify fun s => s.setThread p fun _ => Thread.zero
  return p

/-- The global variables, before the queue is made. -/
def schedInitLists (s : KernelState) : KernelState :=
  let s := { s with currentProc := NULL }
  listInit (listInit s .threadList) .procList

def schedInitQueue (readyQueue : Ptr) (s : KernelState) : KernelState :=
  queueInit readyQueue { s with readyQueue := readyQueue }

/-- The default thread, with its block allocated. -/
def schedInitThread (thread : Ptr) (s : KernelState) : KernelState :=
  let s := { s with currentThread := thread, created := s.created.insert thread }
  let r := tidAlloc s
  let s := r.2.setThread thread fun t => { t with tid := r.1 }
  let s := listAddBefore s .threadList (.threadNode thread)
  s.setThread thread fun t => { t with proc := NULL, status := 0, context := Context.zero }

def schedInit : Kernel Unit := do
  Program.modify schedInitLists
  let readyQueue ← Kernel.malloc
  Program.modify (schedInitQueue readyQueue)
  let thread ← mallocThread
  Program.modify (schedInitThread thread)
  queueEnqueue readyQueue thread
  Program.modify fun s => { s with saveContext := thread, loadContext := thread }

/-- The loop of `sched`: the first thread of the queue that is not stopped. -/
def schedLoop : Nat → Kernel Ptr
  | 0 => Program.fault .endless
  | fuel + 1 => do
    let loadThread ← queueDequeue (← Program.gets KernelState.readyQueue)
    Program.check (loadThread ≠ NULL) .noThread
    if (← Program.gets fun s => (s.threads loadThread).status) = -1 then schedLoop fuel
    else return loadThread

/-- `sched` up to the mapping of the process. -/
def schedSwitch : Kernel Unit := do
  let loadThread ← schedLoop walkFuel
  Program.modify fun s => { s with loadContext := loadThread, saveContext := loadThread }
  queueEnqueue (← Program.gets KernelState.readyQueue) loadThread
  Program.modify fun s => { s with currentThread := loadThread }
  Program.modify fun s => { s with currentProc := (s.threads loadThread).proc }

def sched : Kernel Unit := do
  schedSwitch
  let currentProc ← Program.gets KernelState.currentProc
  if currentProc ≠ NULL then
    vmMapDoMapping (← Program.gets fun s => (s.procs currentProc).vmMap)

/-! ## `fork.c` -/

def fork : Kernel Int := do
  let currentThread ← Program.gets KernelState.currentThread
  let currentProc ← Program.gets KernelState.currentProc
  let readyQueue ← Program.gets KernelState.readyQueue
  let newThread ← Kernel.malloc
  if newThread = NULL then return -1
  Program.modify (threadDup newThread currentThread)
  let newProc ← Kernel.malloc
  if newProc = NULL then return -1
  procDup newProc currentProc
  Program.modify (threadAttach newThread newProc)
  queueEnqueue readyQueue newThread
  Program.modify fun s =>
    let pid := ((s.procs newProc).pid % 2 ^ 64).toNat
    s.setThread newThread fun t => { t with context := Function.update t.context Context.RAX pid }
  return 0

/-! ## `exit.c` -/

/-- Mark threads stopped. -/
def exitThreads (currentProc : Ptr) : Kernel Unit :=
  listForEach (.procThreads currentProc) fun it => do
    let entry ← listEntry it.thread?
    Program.modify fun s => s.setThread entry fun t => { t with status := -1 }

/-- Modify its children's parent pointer. -/
def exitChildren (currentProc : Ptr) : Kernel Unit :=
  listForEach (.procChild currentProc) fun it => do
    let entry ← listEntry it.proc?
    Program.modify fun s => s.setProc entry fun p =>
      { p with parent := (s.procs currentProc).parent }

def exit (status : Int) : Kernel Unit := do
  let currentProc ← Program.gets KernelState.currentProc
  Program.modify fun s => s.setProc currentProc fun p =>
    { p with status := -1, xstat := (status % 256).toNat }
  exitThreads currentProc
  exitChildren currentProc
  sched

/-! ## `exec.c` -/

def defaultUserTextPteFlags : Nat := 0x1f

/-- The map with one page at 0 that `exec` builds, and its entry. -/
def execMap : Kernel (Ptr × Ptr) := do
  let newMap ← Kernel.malloc
  Program.modify (vmMapInit newMap)
  let newEntry ← Kernel.malloc
  let phyAddr ← Kernel.pageAlloc 1
  Program.modify fun s => s.setEntry newEntry ⟨0, phyAddr, 1, defaultUserTextPteFlags, 1⟩
  let _ ← vmMapAdd newMap newEntry
  vmMapDoMapping newMap
  return (newMap, newEntry)

/-- Up to 4096 bytes of the file read to the page of an entry. -/
def execRead (path : List UInt8) (entry : Ptr) : Kernel Unit := do
  let phyAddr ← Program.gets fun s => (s.entries entry).phyAddr
  match convertPhyToVirt phyAddr with
  | some ptr =>
    let mem ← Program.ask fun e s => e.readFile path ptr s.paging.mem
    Program.modify fun s => { s with paging := { s.paging with mem := mem } }
  | none => Program.fault .halted

/-- The blocks for the volume and the file, freed when the file is read. -/
def withFile {α : Type} (body : Kernel α) : Kernel α := do
  let fs ← Kernel.malloc
  let file ← Kernel.malloc
  let r ← body
  Kernel.free file
  Kernel.free fs
  return r

/-- The argument vector and the environment of a first process. -/
def execArgs (path : List UInt8) : Kernel (Ptr × Ptr) := do
  let pargs ← Kernel.malloc
  let argv ← Kernel.malloc
  let arg ← Kernel.malloc
  Program.modify fun s =>
    { s with
      pargs := Function.update s.pargs pargs ⟨1, argv⟩
      argv := Function.update s.argv argv (Function.update (s.argv argv) 0 arg)
      strings := Function.update s.strings arg path }
  let penvs ← Kernel.malloc
  let pwd ← Kernel.malloc
  Program.modify fun s =>
    { s with
      pwd := Function.update s.pwd penvs pwd
      strings := Function.update s.strings pwd path }
  return (pargs, penvs)

/-- `exec` from the kernel thread: a first process. -/
def execKernel (path : List UInt8) : Kernel Unit := do
  let (newMap, newEntry) ← execMap
  withFile (execRead path newEntry)
  let (pargs, penvs) ← execArgs path
  let newProc ← Kernel.malloc
  Program.modify (procInit newProc NULL pargs penvs newMap)
  let newThread ← Kernel.malloc
  Program.modify (threadInit newThread newProc 0 4096)
  queueEnqueue (← Program.gets KernelState.readyQueue) newThread

/-- `exec` from a process: a new program for it. -/
def execProc (path : List UInt8) (proc : Ptr) : Kernel Unit := do
  let newMap ← withFile do
    let (newMap, newEntry) ← execMap
    execRead path newEntry
    return newMap
  Program.modify fun s => s.setProc proc fun p => { p with vmMap := newMap }
  vmMapDoMapping newMap
  let thread ← Program.gets KernelState.currentThread
  Program.check (thread ≠ NULL) .halted
  Program.modify (threadInit thread proc 0 4096)

def exec (path : List UInt8) : Kernel Unit := do
  let currentProc ← Program.gets KernelState.currentProc
  if currentProc = NULL then execKernel path else execProc path currentProc

end Raincloud
