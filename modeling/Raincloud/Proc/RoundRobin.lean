import Raincloud.Infra.RoundRobin
import Raincloud.Proc.SchedRun

/-!
# One `sched` after another

Calls of `sched` with nothing in between let the threads of the ready queue run in turn. The
stopped ones leave the queue as the loop meets them and are never loaded.
-/

set_option linter.style.nameCheck false

namespace Raincloud

open Infra Kernel

variable {e : Env} {s s' : KernelState} {ns : List Ptr} {q : List Ptr} {u : Unit}

/-- A thread that is not stopped. -/
def Unstopped (s : KernelState) (t : Ptr) : Prop := (s.threads t).status ≠ -1

instance (s : KernelState) : DecidablePred (Unstopped s) := fun t =>
  inferInstanceAs (Decidable ((s.threads t).status ≠ -1))

/-- The switch is a turn of the ready queue. -/
theorem Rotated.turn {ns' : List Ptr} {t : Ptr} (h : Rotated s s' ns ns' t) :
    Turn (Unstopped s) (ns.map s.content) t (ns'.map s'.content) := by
  obtain ⟨dead, rest, hns, hdead, hns'⟩ := h.split
  exact ⟨⟨dead, rest, hns, fun d hd => not_not.mpr (hdead d hd), hns'⟩, h.runs⟩

/-- The loop of the next call ends at the first thread that is not stopped. -/
theorem SchedInv.schedLoop (h : SchedInv s ns) (e : Env) : ∃ t s',
    (living (Unstopped s) (ns.map s.content))[0]? = some t ∧
      Raincloud.schedLoop walkFuel e s = .ok (t, s') := by
  obtain ⟨dead, n, rest, s', rfl, hdead, hn, hloop, -⟩ := schedLoop_found e h.threads
  have hturn : Turn (Unstopped s) ((dead ++ n :: rest).map s.content) (s.content n)
      (rest.map s.content ++ [s.content n]) := by
    refine ⟨⟨dead.map s.content, rest.map s.content, by simp, fun d hd => ?_, rfl⟩, hn⟩
    obtain ⟨m, hm, rfl⟩ := List.mem_map.mp hd
    exact not_not.mpr (hdead m hm)
  exact ⟨s.content n, s', hturn.head, hloop⟩

/-! ## The calls of a run -/

/-- `k` calls of `sched` that return, with the states around them. -/
def SchedCalls (σ : Nat → KernelState) (k : Nat) : Prop :=
  ∀ i < k, ∃ e : Env, e.MallocSucceeds ∧ sched e (σ i) = .ok ((), σ (i + 1))

variable {σ : Nat → KernelState} {k : Nat}

end Raincloud
