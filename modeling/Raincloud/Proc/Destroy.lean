import Raincloud.Proc.SchedRun

/-!
# `proc_destroy`

The loop moves the child it stands on to the list of the parent and then follows the node's own
`next`. That leads to the list head inside the parent, which the next round takes for a process.
-/

set_option linter.style.nameCheck false

namespace Raincloud

open Infra Infra.LinkStore Kernel

variable {e : Env} {s s' : KernelState} {p c : Ptr} {qs rs : List Ptr}

def freedPid (id : Int) (s : KernelState) : KernelState :=
  { s with pidTable := Function.update s.pidTable id.toNat 0 }

/-- `pid_free`; the table has an entry for each id below `MAX_PID`. -/
def pidFree (id : Int) : Kernel Unit := do
  Program.check (0 ≤ id ∧ id < maxPid) .wildPointer
  Program.modify (freedPid id)

/-- A round of the loop of `proc_destroy`. -/
def procDestroyRound (proc : Ptr) (it : ListRef) : Kernel Unit := do
  let childProc ← listEntry it.proc?
  Program.modify fun s => s.setProc childProc fun c => { c with parent := (s.procs proc).parent }
  Program.modify fun s => listDel s (.procNode childProc)
  Program.modify fun s => listAddBefore s (.procChild (s.procs proc).parent) (.procNode childProc)

def procDestroy (proc : Ptr) : Kernel Unit := do
  let parent ← Program.gets fun s => (s.procs proc).parent
  Program.check (parent ≠ NULL) .halted
  pidFree (← Program.gets fun s => (s.procs proc).pid)
  if !(← Program.gets fun s => listEmpty s (.procChild proc)) then
    listForEach (.procChild proc) (procDestroyRound proc)

/-- The children of a process and those of its parent. -/
structure Heir (s : KernelState) (p : Ptr) (qs rs : List Ptr) : Prop where
  parent : (s.procs p).parent ≠ NULL
  children : Ring s (.procChild p) (qs.map .procNode)
  siblings : Ring s (.procChild (s.procs p).parent) (rs.map .procNode)

/-- `proc_destroy` returns, the children `qs` are behind `rs`, and the id is free. -/
def HandsOver (e : Env) (s : KernelState) (p : Ptr) (qs rs : List Ptr) : Prop :=
  ∃ s', procDestroy p e s = .ok ((), s') ∧
    Ring s' (.procChild (s.procs p).parent) ((rs ++ qs).map .procNode) ∧
    Ring s' (.procChild p) [] ∧
    (∀ c ∈ qs, (s'.procs c).parent = (s.procs p).parent) ∧
    s'.pidTable (s.procs p).pid.toNat = 0

/-- After a round the node it was at leads to the parent's list head. -/
theorem procDestroyRound_next (p c : Ptr) (s : KernelState) : ∃ s',
    procDestroyRound p (.procNode c) e s = .ok ((), s') ∧
      s'.next (.procNode c) = .procChild (s'.procs p).parent ∧
      (s'.procs p).parent = (s.procs p).parent := by
  refine ⟨_, rfl, ?_, ?_⟩
  · exact (next_listAdd (kernelState_lawfulOn Set.univ) trivial trivial trivial trivial).trans
      (if_pos rfl)
  · show (Function.update s.procs c _ p).parent = _
    by_cases hpc : p = c
    · rw [hpc, Function.update_self]
    · rw [Function.update_of_ne hpc]

/-- From a child on, the loop goes wrong in its second round. -/
theorem procDestroy_loop (hne : p ≠ (s.procs p).parent) (c : Ptr) (fuel : Nat) :
    listForEachFrom (.procChild p) (procDestroyRound p) (fuel + 2) (.procNode c) e s
      = .error .wildPointer := by
  obtain ⟨s₁, hround, hnext, hparent⟩ := procDestroyRound_next (e := e) p c s
  have hhead : ListRef.procChild (s₁.procs p).parent ≠ .procChild p := fun he => by
    rw [hparent] at he
    exact hne (ListRef.procChild.inj he).symm
  rw [listForEachFrom, if_neg (by simp), Program.bind_of_ok hround,
    Program.bind_of_ok Program.gets_apply, hnext, listForEachFrom, if_neg hhead]
  rfl

/-- What is left to do when the id is free. -/
theorem procDestroy_ok (h : Heir s p qs rs) (hrun : procDestroy p e s = .ok ((), s')) :
    (0 ≤ (s.procs p).pid ∧ (s.procs p).pid < maxPid) ∧
      (qs ≠ [] → listForEach (.procChild p) (procDestroyRound p) e (freedPid (s.procs p).pid s)
        = .ok ((), s')) := by
  rw [procDestroy, Program.bind_of_ok Program.gets_apply,
    Program.bind_of_ok (Program.check_of h.parent), Program.bind_of_ok Program.gets_apply] at hrun
  obtain ⟨u, s₁, hfree, hrun⟩ := Program.bind_ok.mp hrun
  obtain ⟨v, s₂, hcheck, hfree⟩ := Program.bind_ok.mp hfree
  obtain ⟨hpid, rfl⟩ := Program.check_ok.mp hcheck
  cases hfree
  refine ⟨hpid, fun hne => ?_⟩
  have hring : Ring (freedPid (s₂.procs p).pid s₂) (.procChild p) (qs.map .procNode) :=
    h.children.congr fun _ _ => ⟨rfl, rfl⟩
  have hfull : listEmpty (freedPid (s₂.procs p).pid s₂) (ListRef.procChild p) = false := by
    rw [Bool.eq_false_iff, ne_eq, listEmpty_iff hring]
    simpa using hne
  rw [Program.bind_of_ok Program.gets_apply, hfull] at hrun
  exact hrun

/-- A process with children does not hand them over. -/
theorem Heir.not_handsOver (h : Heir s p (c :: qs) rs) : ¬ HandsOver e s p (c :: qs) rs := by
  rintro ⟨s', hrun, hparent, hempty, -⟩
  by_cases hne : p = (s.procs p).parent
  · -- its own parent: the list is empty and has its children on it
    rw [← hne] at hparent
    have hlen := congrArg List.length (hparent.unique hempty)
    simp at hlen
  · obtain ⟨fuel, hfuel⟩ : ∃ fuel, walkFuel = fuel + 2 := ⟨2 ^ 64 - 2, by decide⟩
    have hloop := (procDestroy_ok h hrun).2 (List.cons_ne_nil c qs)
    have hfirst : (freedPid (s.procs p).pid s).next (.procChild p) = .procNode c :=
      h.children.next_head
    have hfail : listForEachFrom (.procChild p) (procDestroyRound p) (fuel + 2) (.procNode c) e
        (freedPid (s.procs p).pid s) = .error .wildPointer :=
      procDestroy_loop (show p ≠ ((freedPid _ s).procs p).parent from hne) c fuel
    rw [listForEach, Program.bind_of_ok Program.gets_apply, hfirst, hfuel] at hloop
    cases hfail.symm.trans hloop

/-- A process without children only gives back its id. -/
theorem procDestroy_childless (h : Heir s p [] rs)
    (hpid : 0 ≤ (s.procs p).pid ∧ (s.procs p).pid < maxPid) :
    procDestroy p e s = .ok ((), freedPid (s.procs p).pid s) := by
  have hempty : listEmpty (freedPid (s.procs p).pid s) (ListRef.procChild p) = true :=
    (listEmpty_iff (h.children.congr fun _ _ => ⟨rfl, rfl⟩)).mpr rfl
  have hfree : pidFree (s.procs p).pid e s = .ok ((), freedPid (s.procs p).pid s) := by
    rw [pidFree, Program.bind_of_ok (Program.check_of hpid)]
    rfl
  rw [procDestroy, Program.bind_of_ok Program.gets_apply,
    Program.bind_of_ok (Program.check_of h.parent), Program.bind_of_ok Program.gets_apply,
    Program.bind_of_ok hfree, Program.bind_of_ok Program.gets_apply, hempty]
  rfl

/--
A process hands over its children, and gives its id back, exactly if it has none and has got an
id.
-/
theorem handsOver_iff (h : Heir s p qs rs) : HandsOver e s p qs rs ↔
    qs = [] ∧ 0 ≤ (s.procs p).pid ∧ (s.procs p).pid < maxPid := by
  cases qs with
  | cons c qs => exact iff_of_false h.not_handsOver (by simp)
  | nil =>
    constructor
    · rintro ⟨s', hrun, -⟩
      exact ⟨rfl, (procDestroy_ok h hrun).1⟩
    · rintro ⟨-, hpid⟩
      refine ⟨_, procDestroy_childless h hpid, ?_, h.children.congr fun _ _ => ⟨rfl, rfl⟩,
        fun c hc => absurd hc List.not_mem_nil, Function.update_self ..⟩
      rw [List.append_nil]
      exact h.siblings.congr fun _ _ => ⟨rfl, rfl⟩

/-! ## Three generations -/

/-- Process 1 is the parent of 2, and 2 that of 3. -/
def generations : KernelState :=
  { bootState with
    next := fun
      | .procChild 1 => .procNode 2
      | .procNode 2 => .procChild 1
      | .procChild 2 => .procNode 3
      | .procNode 3 => .procChild 2
      | r => r
    prev := fun
      | .procChild 1 => .procNode 2
      | .procNode 2 => .procChild 1
      | .procChild 2 => .procNode 3
      | .procNode 3 => .procChild 2
      | r => r
    procs := fun p => { bootState.procs p with pid := p, parent := p - 1 } }

theorem generations_heir : Heir generations 2 [3] [2] ∧ Heir generations 3 [] [3] := by
  constructor
  · exact ⟨by decide, ⟨by decide, .cons_cons ⟨rfl, rfl⟩ (.cons_cons ⟨rfl, rfl⟩ (.singleton _))⟩,
      ⟨by decide, .cons_cons ⟨rfl, rfl⟩ (.cons_cons ⟨rfl, rfl⟩ (.singleton _))⟩⟩
  · exact ⟨by decide, ⟨by decide, .cons_cons ⟨rfl, rfl⟩ (.singleton _)⟩,
      ⟨by decide, .cons_cons ⟨rfl, rfl⟩ (.cons_cons ⟨rfl, rfl⟩ (.singleton _))⟩⟩

/-- The youngest has no children. -/
theorem handsOver_youngest : HandsOver bumpEnv generations 3 [] [3] :=
  (handsOver_iff generations_heir.2).mpr ⟨rfl, by decide, by decide⟩

/-- Process 2 has one. -/
theorem handsOver_fails : Heir generations 2 [3] [2] ∧ ¬ HandsOver bumpEnv generations 2 [3] [2] :=
  ⟨generations_heir.1, generations_heir.1.not_handsOver⟩

end Raincloud
