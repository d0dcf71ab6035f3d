import Raincloud.Proc.Family

/-!
# A `fork` that fails

`fork` looks at what `malloc` returns twice. The first time there is nothing to undo; the second
time the thread it has duplicated is left behind. Everything else that can fail is not looked at.
-/

set_option linter.style.nameCheck false

namespace Raincloud

open Infra Infra.LinkStore Kernel

variable {e : Env} {s s' t : KernelState} {p : Ptr}

/-- Lists, queues, ids, blocks and pages are as they were. -/
structure NoTrace (s s' : KernelState) : Prop where
  lists : s'.next = s.next ∧ s'.prev = s.prev
  queue : s'.queueLength = s.queueLength ∧ s'.content = s.content
  pids : s'.pidTable = s.pidTable
  tids : s'.tidTable = s.tidTable
  live : ∀ p, p ∈ s'.live ↔ p ∈ s.live
  pages : s'.paging = s.paging

/-- `fork` returns -1 and nothing of it is left. -/
def ForkFailsClean (e : Env) (s : KernelState) : Prop :=
  ∃ s', fork e s = .ok (-1, s') ∧ NoTrace s s'

/-- A block that `fork` got for the thread is not given back. -/
theorem fork_keeps_thread (hp : e.malloc s ≠ NULL) (hrun : fork e s = .ok (-1, s')) :
    e.malloc s ∉ s.live ∧ e.malloc s ∈ s'.live := by
  rw [fork, Program.bind_of_ok Program.gets_apply, Program.bind_of_ok Program.gets_apply,
    Program.bind_of_ok Program.gets_apply] at hrun
  obtain ⟨p, t, hmalloc, hrun⟩ := Program.bind_ok.mp hrun
  obtain ⟨rfl, ⟨hnull, -⟩ | ⟨hnew, -, -, rfl⟩⟩ := malloc_cases hmalloc
  · exact absurd hnull hp
  refine ⟨hnew, ?_⟩
  rw [if_neg hp, Program.bind_of_ok Program.modify_apply] at hrun
  obtain ⟨q, u, hmalloc', hrun⟩ := Program.bind_ok.mp hrun
  by_cases hq : q = NULL
  · obtain ⟨-, ⟨-, rfl⟩ | ⟨-, hpos, -⟩⟩ := malloc_cases hmalloc'
    · rw [if_pos hq] at hrun
      cases hrun
      exact List.mem_cons_self
    · exact absurd hq (Nat.pos_iff_ne_zero.mp hpos)
  · -- from here on `fork` returns 0, whatever fails
    rw [if_neg hq] at hrun
    obtain ⟨_, _, -, hrun⟩ := Program.bind_ok.mp hrun
    rw [Program.bind_of_ok Program.modify_apply] at hrun
    obtain ⟨_, _, -, hrun⟩ := Program.bind_ok.mp hrun
    rw [Program.bind_of_ok Program.modify_apply] at hrun
    cases hrun

/--
In every state `fork` fails without a trace exactly if the first block it asks for, the one for
the thread, is not to be had.
-/
theorem fork_failsClean_iff (e : Env) (s : KernelState) :
    ForkFailsClean e s ↔ e.malloc s = NULL := by
  constructor
  · rintro ⟨s', hrun, hclean⟩
    by_contra hp
    obtain ⟨hnew, hlive⟩ := fork_keeps_thread hp hrun
    exact hnew ((hclean.live _).mp hlive)
  · intro hnull
    have hmalloc : Kernel.malloc e s = .ok (NULL, s) := by
      rw [Kernel.malloc, Program.bind_of_ok Program.ask_apply, if_pos hnull]
      rfl
    refine ⟨s, ?_, ⟨rfl, rfl⟩, ⟨rfl, rfl⟩, rfl, rfl, fun _ => Iff.rfl, rfl⟩
    rw [fork, Program.bind_of_ok Program.gets_apply, Program.bind_of_ok Program.gets_apply,
      Program.bind_of_ok Program.gets_apply, Program.bind_of_ok hmalloc, if_pos rfl]
    rfl

/-! ## One block left -/

/-- A heap with room for `n` blocks. -/
def scarceEnv (e : Env) (n : Nat) : Env :=
  { e with malloc := fun s => if s.live.length < n then e.malloc s else NULL }

/-- When there is a block for the thread and none for the process, `fork` fails. -/
theorem fork_scarce (hmalloc : Kernel.malloc e s = .ok (p, t)) (hp : p ≠ NULL) :
    ∃ s', fork (scarceEnv e (s.live.length + 1)) s = .ok (-1, s') := by
  obtain ⟨rfl, ⟨hnull, -⟩ | ⟨hnew, -, hlt, rfl⟩⟩ := malloc_cases hmalloc
  · exact absurd hnull hp
  have hfirst : Kernel.malloc (scarceEnv e (s.live.length + 1)) s
      = .ok (e.malloc s, { s with live := e.malloc s :: s.live }) := by
    have hask : (scarceEnv e (s.live.length + 1)).malloc s = e.malloc s :=
      if_pos (Nat.lt_succ_self _)
    rw [Kernel.malloc, Program.bind_of_ok Program.ask_apply, hask, if_neg hp,
      Program.bind_of_ok Program.gets_apply, Program.bind_of_ok (Program.check_of ⟨hnew, hlt⟩)]
    rfl
  have hsecond : ∀ u : KernelState, u.live = e.malloc s :: s.live →
      Kernel.malloc (scarceEnv e (s.live.length + 1)) u = .ok (NULL, u) := by
    intro u hu
    have hask : (scarceEnv e (s.live.length + 1)).malloc u = NULL :=
      if_neg (by rw [hu, List.length_cons]; exact Nat.lt_irrefl _)
    rw [Kernel.malloc, Program.bind_of_ok Program.ask_apply, hask, if_pos rfl]
    rfl
  rw [fork, Program.bind_of_ok Program.gets_apply, Program.bind_of_ok Program.gets_apply,
    Program.bind_of_ok Program.gets_apply, Program.bind_of_ok hfirst, if_neg hp,
    Program.bind_of_ok Program.modify_apply, Program.bind_of_ok (hsecond _ rfl), if_pos rfl]
  exact ⟨_, rfl⟩

/-- A process forks when there is one block left. -/
theorem fork_leaves_thread : ∃ e s s', schedMachine.Reachable s ∧ s.currentProc ≠ NULL ∧
    fork e s = .ok (-1, s') ∧ ¬ ForkFailsClean e s := by
  obtain ⟨s0, s1, s2, s3, s4, s5, hrun⟩ := orphanRun_ok
  have h0 : schedMachine.Reachable s0 := .start hrun.start
  have h1 : schedMachine.Reachable s1 :=
    .step (a := .exec []) h0 ⟨trivial, bumpEnv, bumpEnv_malloc, hrun.exec⟩
  have h2 : schedMachine.Reachable s2 :=
    .step (a := .tick) h1 ⟨trivial, bumpEnv, bumpEnv_malloc, hrun.tick1⟩
  have h3 : schedMachine.Reachable s3 :=
    .step (a := .tick) h2 ⟨trivial, bumpEnv, bumpEnv_malloc, hrun.tick2⟩
  -- with the blocks of the run this `fork` succeeds, so its first call of `malloc` does
  obtain ⟨r, u, hfork, -⟩ := Program.bind_ok.mp hrun.fork
  rw [fork, Program.bind_of_ok Program.gets_apply, Program.bind_of_ok Program.gets_apply,
    Program.bind_of_ok Program.gets_apply] at hfork
  obtain ⟨p, t, hmalloc, -⟩ := Program.bind_ok.mp hfork
  have hp : p ≠ NULL := (malloc_cases hmalloc).1 ▸ bumpEnv_malloc s3
  obtain ⟨s', hfail⟩ := fork_scarce hmalloc hp
  refine ⟨_, s3, s', h3, hrun.procs.1, hfail, ?_⟩
  rintro ⟨v, hrun', hclean⟩
  have hask : (scarceEnv bumpEnv (s3.live.length + 1)).malloc s3 ≠ NULL := by
    show (if s3.live.length < s3.live.length + 1 then bumpEnv.malloc s3 else NULL) ≠ NULL
    rw [if_pos (Nat.lt_succ_self _)]
    exact bumpEnv_malloc s3
  obtain ⟨hnew, hlive⟩ := fork_keeps_thread hask hrun'
  exact hnew ((hclean.live _).mp hlive)

end Raincloud
