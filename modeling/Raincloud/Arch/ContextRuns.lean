import Raincloud.Arch.Context
import Raincloud.Infra.Run
import Raincloud.Infra.WordCopy

/-!
# `context.c` in memory

The contexts and the frames on the stack are words in memory, and each function goes through a
context and a frame with a cursor in each. From any start, and whatever else the kernel does
outside of the contexts, a frame that is loaded is the one saved last.
-/

set_option linter.style.nameCheck false

namespace Raincloud.ContextMemory

open Infra Infra.Mem

/-! ## The functions -/

structure ContextState where
  mem : Mem
  saveContext : Nat
  loadContext : Nat

/--
The loop of both functions, for `n` more words. `move` is the statement that moves a word between
the cursor in the context and the one in the frame.
-/
def contextLoop (move : Nat → Nat → Mem → Mem) : Nat → Nat → Nat → Nat → Mem → Mem
  | 0, _, _, _, m => m
  | n + 1, i, location, stackTop, m =>
    if i = 17 then contextLoop move n (i + 1) location (stackTop + 8) m
    else contextLoop move n (i + 1) (location + 8) (stackTop + 8) (move location stackTop m)

/-- `*save_location = *stack_top` -/
def saveWord (saveLocation stackTop : Nat) (m : Mem) : Mem :=
  m.store64 saveLocation (m.load64 stackTop)

/-- `*stack_top = *load_location` -/
def loadWord (loadLocation stackTop : Nat) (m : Mem) : Mem :=
  m.store64 stackTop (m.load64 loadLocation)

def __contextSave (stackTop : Nat) (s : ContextState) : ContextState :=
  if s.saveContext = NULL ∨ stackTop = NULL then s
  else { s with
    mem := contextLoop saveWord (contextRegisterCount + 1) 0 s.saveContext stackTop s.mem }

def __contextLoad (stackTop : Nat) (s : ContextState) : ContextState :=
  if s.loadContext = NULL ∨ stackTop = NULL then s
  else { s with
    mem := contextLoop loadWord (contextRegisterCount + 1) 0 s.loadContext stackTop s.mem }

/-! ## Contexts and frames -/

/-- The context at an address. -/
def contextAt (m : Mem) (c : Nat) : Context := fun i => m.load64 (c + 8 * i)

/-- The frame at an address. -/
def frameAt (m : Mem) (top : Nat) : StackFrame := fun k => m.load64 (top + 8 * k)

def contextBytes (c : Nat) : Set Nat := Set.Ico c (c + 176)

def frameBytes (top : Nat) : Set Nat := Set.Ico top (top + 184)

/-- Objects that do not overlap, none of them at `NULL`. -/
structure ContextsApart (C : Set Nat) : Prop where
  not_null : NULL ∉ C
  apart : ∀ c ∈ C, ∀ d ∈ C, c ≠ d → c + 176 ≤ d ∨ d + 176 ≤ c

/-- A frame is no part of a context. -/
structure OnStack (C : Set Nat) (top : Nat) : Prop where
  not_null : top ≠ NULL
  apart : ∀ c ∈ C, top + 184 ≤ c ∨ c + 176 ≤ top

/-! ## The loops -/

variable {m m' : Mem} {c top n i k : Nat} {move : Nat → Nat → Mem → Mem}

/-- Both cursors go on word by word. -/
def moveWords (move : Nat → Nat → Mem → Mem) : Nat → Nat → Nat → Mem → Mem
  | 0, _, _, m => m
  | n + 1, location, stackTop, m =>
    moveWords move n (location + 8) (stackTop + 8) (move location stackTop m)

theorem contextLoop_before (h : i + n ≤ 17) (c top : Nat) (m : Mem) :
    contextLoop move (n + k) i c top m =
      contextLoop move k (i + n) (c + 8 * n) (top + 8 * n) (moveWords move n c top m) := by
  induction n generalizing i c top m with
  | zero => rw [Nat.zero_add]; rfl
  | succ n ih =>
    have hi : i ≠ 17 := by omega
    have hi' : i + 1 + n = i + (n + 1) := by omega
    have hc : c + 8 + 8 * n = c + 8 * (n + 1) := by omega
    have ht : top + 8 + 8 * n = top + 8 * (n + 1) := by omega
    rw [Nat.add_right_comm, contextLoop, if_neg hi, ih (by omega), moveWords, hi', hc, ht]

theorem contextLoop_after (h : 17 < i) (c top : Nat) (m : Mem) :
    contextLoop move n i c top m = moveWords move n c top m := by
  induction n generalizing i c top m with
  | zero => rfl
  | succ n ih => rw [contextLoop, if_neg (Nat.ne_of_gt h), ih (Nat.lt_succ_of_lt h), moveWords]

/-- 17 words, and 5 words behind the one that is left out of the frame. -/
theorem contextLoop_eq (move : Nat → Nat → Mem → Mem) (c top : Nat) (m : Mem) :
    contextLoop move (contextRegisterCount + 1) 0 c top m =
      moveWords move 5 (c + 136) (top + 144) (moveWords move 17 c top m) := by
  have hbefore : contextLoop move (17 + 6) 0 c top m = contextLoop move 6 (0 + 17) (c + 8 * 17)
      (top + 8 * 17) (moveWords move 17 c top m) := contextLoop_before (Nat.le_refl 17) c top m
  refine hbefore.trans ?_
  -- at 17 the cursor in the frame goes on alone
  rw [contextLoop, if_pos rfl]
  exact contextLoop_after (Nat.lt_succ_self 17) _ _ _

theorem moveWords_save (n c top : Nat) (m : Mem) :
    moveWords saveWord n c top m = copyWords m c top n := by
  induction n generalizing c top m with
  | zero => rfl
  | succ n ih => exact ih (c + 8) (top + 8) _

theorem moveWords_load (n c top : Nat) (m : Mem) :
    moveWords loadWord n c top m = copyWords m top c n := by
  induction n generalizing c top m with
  | zero => rfl
  | succ n ih => exact ih (c + 8) (top + 8) _

/-! ## What they do to a context and a frame -/

/-- A slot of the frame is that of the return address or that of a register. -/
theorem slot_cases (k : Fin 23) : k = 17 ∨ ∃ i, k = frameSlot i := by
  revert k
  decide

/-- In the first 17 words the cursors are at the same index, behind them they are one apart. -/
theorem frameSlot_val (i : Fin 22) :
    (i.val < 17 ∧ (frameSlot i).val = i) ∨ (17 ≤ i.val ∧ (frameSlot i).val = i + 1) := by
  revert i
  decide

/-- The words of two copies, of 17 words and of 5 words further on, that do not overlap. -/
theorem load64_copies {d p q : Nat} (hp : 17 ≤ p) (hq : 17 ≤ q)
    (h : d + 8 * (p + 5) ≤ c ∨ c + 8 * (q + 5) ≤ d) :
    (∀ i < 17, load64 (copyWords (copyWords m d c 17) (d + 8 * p) (c + 8 * q) 5) (d + 8 * i)
      = load64 m (c + 8 * i)) ∧
    ∀ j < 5, load64 (copyWords (copyWords m d c 17) (d + 8 * p) (c + 8 * q) 5)
      (d + 8 * (p + j)) = load64 m (c + 8 * (q + j)) := by
  constructor
  · intro i hi
    rw [load64_copyWords_outside (by omega), load64_copyWords (by omega) hi]
  · intro j hj
    have hd : d + 8 * (p + j) = d + 8 * p + 8 * j := by omega
    have hc : c + 8 * (q + j) = c + 8 * q + 8 * j := by omega
    rw [hd, hc, load64_copyWords (by omega) hj, load64_copyWords_outside (by omega)]

theorem save_words (h : top + 184 ≤ c ∨ c + 176 ≤ top) :
    contextAt (contextLoop saveWord (contextRegisterCount + 1) 0 c top m) c =
      Raincloud.__contextSave (contextAt m c) (frameAt m top) := by
  rw [contextLoop_eq, moveWords_save, moveWords_save]
  funext i
  rw [contextSave_apply]
  unfold contextAt frameAt
  obtain ⟨hlow, hhigh⟩ := load64_copies (m := m) (d := c) (c := top) (p := 17) (q := 18)
    (by decide) (by decide) h.symm
  rcases frameSlot_val i with ⟨hlt, hslot⟩ | ⟨hle, hslot⟩
  · rw [hslot]
    exact hlow i hlt
  · obtain ⟨j, hj⟩ := Nat.exists_eq_add_of_le hle
    have hlt : j < 5 := by omega
    rw [hslot, hj, Nat.add_right_comm]
    exact hhigh j hlt

theorem save_outside (c top : Nat) (m : Mem) : m.SameOutside (contextBytes c)
    (contextLoop saveWord (contextRegisterCount + 1) 0 c top m) := by
  rw [contextLoop_eq, moveWords_save, moveWords_save]
  refine ((copyWords_sameOutside m c top 17).mono ?_).trans
    ((copyWords_sameOutside _ (c + 136) (top + 144) 5).mono ?_)
  · exact Set.Ico_subset_Ico_right (by omega)
  · exact Set.Ico_subset_Ico (Nat.le_add_right c 136) (by omega)

theorem load_words (h : top + 184 ≤ c ∨ c + 176 ≤ top) :
    frameAt (contextLoop loadWord (contextRegisterCount + 1) 0 c top m) top =
      Raincloud.__contextLoad (contextAt m c) (frameAt m top) := by
  rw [contextLoop_eq, moveWords_load, moveWords_load]
  funext k
  rcases slot_cases k with rfl | ⟨i, rfl⟩
  · rw [contextLoad_ret]
    change load64 _ (top + 136) = load64 m (top + 136)
    rw [load64_copyWords_outside (by omega), load64_copyWords_outside (by omega)]
  · rw [contextLoad_apply]
    unfold contextAt frameAt
    obtain ⟨hlow, hhigh⟩ := load64_copies (m := m) (p := 18) (q := 17) (by decide) (by decide) h
    rcases frameSlot_val i with ⟨hlt, hslot⟩ | ⟨hle, hslot⟩
    · rw [hslot]
      exact hlow i hlt
    · obtain ⟨j, hj⟩ := Nat.exists_eq_add_of_le hle
      have hlt : j < 5 := by omega
      rw [hslot, hj, Nat.add_right_comm]
      exact hhigh j hlt

theorem load_outside (c top : Nat) (m : Mem) : m.SameOutside (frameBytes top)
    (contextLoop loadWord (contextRegisterCount + 1) 0 c top m) := by
  rw [contextLoop_eq, moveWords_load, moveWords_load]
  refine ((copyWords_sameOutside m top c 17).mono ?_).trans
    ((copyWords_sameOutside _ (top + 144) (c + 136) 5).mono ?_)
  · exact Set.Ico_subset_Ico_right (by omega)
  · exact Set.Ico_subset_Ico (Nat.le_add_right top 144) (by omega)

/-! ## Calls -/

variable {C : Set Nat} {s : ContextState}

theorem contextAt_congr (h : ∀ x ∈ contextBytes c, m' x = m x) :
    contextAt m' c = contextAt m c := by
  funext i
  have hi := i.isLt
  exact load64_congr fun x h1 h2 => h x ⟨by omega, by omega⟩

theorem frameAt_congr (h : ∀ x ∈ frameBytes top, m' x = m x) : frameAt m' top = frameAt m top := by
  funext k
  have hk := k.isLt
  exact load64_congr fun x h1 h2 => h x ⟨by omega, by omega⟩

theorem contextSave_null (h : s.saveContext = NULL) : __contextSave top s = s := if_pos (.inl h)

theorem contextLoad_null (h : s.loadContext = NULL) : __contextLoad top s = s := if_pos (.inl h)

theorem contextSave_mem (hC : ContextsApart C) (ht : OnStack C top) (h : s.saveContext ∈ C) :
    (__contextSave top s).mem =
      contextLoop saveWord (contextRegisterCount + 1) 0 s.saveContext top s.mem := by
  have hne : s.saveContext ≠ NULL := fun he => hC.not_null (he ▸ h)
  exact congrArg ContextState.mem (if_neg (not_or.mpr ⟨hne, ht.not_null⟩))

theorem contextLoad_mem (hC : ContextsApart C) (ht : OnStack C top) (h : s.loadContext ∈ C) :
    (__contextLoad top s).mem =
      contextLoop loadWord (contextRegisterCount + 1) 0 s.loadContext top s.mem := by
  have hne : s.loadContext ≠ NULL := fun he => hC.not_null (he ▸ h)
  exact congrArg ContextState.mem (if_neg (not_or.mpr ⟨hne, ht.not_null⟩))

/-- The function on memory does to the two objects what the function on words does. -/
theorem contextSave_refines (hC : ContextsApart C) (ht : OnStack C top) (h : s.saveContext ∈ C) :
    contextAt (__contextSave top s).mem s.saveContext =
      Raincloud.__contextSave (contextAt s.mem s.saveContext) (frameAt s.mem top) := by
  rw [contextSave_mem hC ht h, save_words (ht.apart _ h)]

theorem contextLoad_refines (hC : ContextsApart C) (ht : OnStack C top) (h : s.loadContext ∈ C) :
    frameAt (__contextLoad top s).mem top =
      Raincloud.__contextLoad (contextAt s.mem s.loadContext) (frameAt s.mem top) := by
  rw [contextLoad_mem hC ht h, load_words (ht.apart _ h)]

theorem contextSave_outside (top : Nat) (s : ContextState) :
    s.mem.SameOutside (contextBytes s.saveContext) (__contextSave top s).mem := by
  unfold __contextSave
  split
  · exact .refl _ _
  · exact save_outside s.saveContext top s.mem

theorem contextLoad_outside (top : Nat) (s : ContextState) :
    s.mem.SameOutside (frameBytes top) (__contextLoad top s).mem := by
  unfold __contextLoad
  split
  · exact .refl _ _
  · exact load_outside s.loadContext top s.mem

theorem notMem_apart {a b n k x : Nat} (h : a + n ≤ b ∨ b + k ≤ a)
    (hx : x ∈ Set.Ico a (a + n)) : x ∉ Set.Ico b (b + k) := fun hxb => by
  have h1 := hx.1
  have h2 := hx.2
  have h3 := hxb.1
  have h4 := hxb.2
  omega

/-- A byte of another context is not one of this one. -/
theorem notMem_contextBytes (hC : ContextsApart C) (hc : c ∈ C) {d : Nat} (hd : d ∈ C)
    (hne : d ≠ c) : ∀ x ∈ contextBytes d, x ∉ contextBytes c := fun _ hx =>
  notMem_apart (hC.apart d hd c hc hne) hx

theorem OnStack.notMem_frameBytes (ht : OnStack C top) (hc : c ∈ C) :
    ∀ x ∈ contextBytes c, x ∉ frameBytes top := fun _ hx => notMem_apart (ht.apart c hc).symm hx

/-! ## Runs -/

inductive ContextCall where
  | setSave (c : Nat)
  | setLoad (c : Nat)
  | save (stackTop : Nat)
  | load (stackTop : Nat)
  /-- What the kernel writes elsewhere, such as the words of the next frame. -/
  | elsewhere (m : Mem)

structure ContextRun extends ContextState where
  /-- The frame saved last into each context. -/
  saved : Nat → Option StackFrame

def ContextStep (C : Set Nat) (s : ContextRun) (a : ContextCall) (s' : ContextRun) : Prop :=
  match a with
  | .setSave c => (c = NULL ∨ c ∈ C) ∧ s' = { s with saveContext := c }
  | .setLoad c => (c = NULL ∨ c ∈ C) ∧ s' = { s with loadContext := c }
  | .save top => OnStack C top ∧ s' =
      { toContextState := __contextSave top s.toContextState
        saved := if s.saveContext = NULL then s.saved
          else Function.update s.saved s.saveContext (some (frameAt s.mem top)) }
  | .load top => OnStack C top ∧ s' =
      { toContextState := __contextLoad top s.toContextState
        saved := s.saved }
  | .elsewhere m => (∀ c ∈ C, ∀ x ∈ contextBytes c, m x = s.mem x) ∧ s' = { s with mem := m }

/-- Nothing has been saved at the start. -/
def contextMachine (C : Set Nat) : Machine ContextRun ContextCall where
  start s := (s.saveContext = NULL ∨ s.saveContext ∈ C) ∧
    (s.loadContext = NULL ∨ s.loadContext ∈ C) ∧ s.saved = fun _ => none
  step := ContextStep C

/-- What is saved is in the context still. -/
structure ContextInv (C : Set Nat) (s : ContextRun) : Prop where
  save : s.saveContext = NULL ∨ s.saveContext ∈ C
  load : s.loadContext = NULL ∨ s.loadContext ∈ C
  saved : ∀ c w, s.saved c = some w → c ∈ C ∧ ∀ i, contextAt s.mem c i = w (frameSlot i)

variable {r r' : ContextRun} {a : ContextCall}

/-- A step that keeps the bytes of the contexts. -/
theorem ContextInv.kept (h : ContextInv C r) (hsave : r'.saveContext = NULL ∨ r'.saveContext ∈ C)
    (hload : r'.loadContext = NULL ∨ r'.loadContext ∈ C) (hsaved : r'.saved = r.saved)
    (hmem : ∀ c ∈ C, ∀ x ∈ contextBytes c, r'.mem x = r.mem x) : ContextInv C r' := by
  refine ⟨hsave, hload, fun c w hw => ?_⟩
  rw [hsaved] at hw
  obtain ⟨hc, hwords⟩ := h.saved c w hw
  rw [contextAt_congr (hmem c hc)]
  exact ⟨hc, hwords⟩

theorem contextSave_globals (top : Nat) (s : ContextState) :
    (__contextSave top s).saveContext = s.saveContext ∧
      (__contextSave top s).loadContext = s.loadContext := by
  unfold __contextSave
  split <;> exact ⟨rfl, rfl⟩

theorem contextLoad_globals (top : Nat) (s : ContextState) :
    (__contextLoad top s).saveContext = s.saveContext ∧
      (__contextLoad top s).loadContext = s.loadContext := by
  unfold __contextLoad
  split <;> exact ⟨rfl, rfl⟩

theorem ContextInv.step (hC : ContextsApart C) (h : ContextInv C r)
    (hstep : ContextStep C r a r') : ContextInv C r' := by
  cases a with
  | setSave c =>
    obtain ⟨hc, rfl⟩ := hstep
    exact h.kept hc h.load rfl fun _ _ _ _ => rfl
  | setLoad c =>
    obtain ⟨hc, rfl⟩ := hstep
    exact h.kept h.save hc rfl fun _ _ _ _ => rfl
  | save top =>
    obtain ⟨ht, rfl⟩ := hstep
    obtain ⟨hgs, hgl⟩ := contextSave_globals top r.toContextState
    rcases h.save with hnull | hmem
    · rw [contextSave_null hnull, if_pos hnull]
      exact h
    · have hne : r.saveContext ≠ NULL := fun he => hC.not_null (he ▸ hmem)
      rw [if_neg hne]
      refine ⟨hgs ▸ h.save, hgl ▸ h.load, fun c w hw => ?_⟩
      change Function.update r.saved r.saveContext (some (frameAt r.mem top)) c = some w at hw
      by_cases hc : c = r.saveContext
      · -- the context that is filled
        subst hc
        rw [Function.update_self] at hw
        obtain rfl := Option.some.inj hw
        refine ⟨hmem, fun i => ?_⟩
        rw [contextSave_refines hC ht hmem, contextSave_apply]
      · rw [Function.update_of_ne hc] at hw
        obtain ⟨hcC, hwords⟩ := h.saved c w hw
        refine ⟨hcC, fun i => ?_⟩
        rw [contextAt_congr fun x hx => contextSave_outside top r.toContextState x
          (notMem_contextBytes hC hmem hcC hc x hx), hwords]
  | load top =>
    obtain ⟨ht, rfl⟩ := hstep
    obtain ⟨hgs, hgl⟩ := contextLoad_globals top r.toContextState
    exact h.kept (hgs ▸ h.save) (hgl ▸ h.load) rfl fun c hc x hx =>
      contextLoad_outside top r.toContextState x (ht.notMem_frameBytes hc x hx)
  | elsewhere m =>
    obtain ⟨hm, rfl⟩ := hstep
    exact h.kept h.save h.load rfl hm

theorem contextMachine_inv (hC : ContextsApart C) (hr : (contextMachine C).Reachable r) :
    ContextInv C r := by
  refine hr.invariant (ContextInv C) ?_ fun _ _ _ h hstep => h.step hC hstep
  rintro s ⟨hsave, hload, hsaved⟩
  refine ⟨hsave, hload, fun c w hw => ?_⟩
  rw [hsaved] at hw
  cases hw

/-! ## What is saved is loaded -/

/-- The next call of `__context_save` fills its context from the frame, and nothing else. -/
structure SaveLawful (C : Set Nat) (r : ContextRun) (top : Nat) : Prop where
  words : r.saveContext ∈ C → ∀ i, contextAt (__contextSave top r.toContextState).mem r.saveContext i
    = frameAt r.mem top (frameSlot i)
  contexts : ∀ c ∈ C, c ≠ r.saveContext →
    contextAt (__contextSave top r.toContextState).mem c = contextAt r.mem c
  frame : frameAt (__contextSave top r.toContextState).mem top = frameAt r.mem top
  outside : r.mem.SameOutside (contextBytes r.saveContext) (__contextSave top r.toContextState).mem

/-- The next call of `__context_load` fills its frame from what was saved last, and nothing else. -/
structure LoadLawful (C : Set Nat) (r : ContextRun) (top : Nat) : Prop where
  words : ∀ w, r.saved r.loadContext = some w →
    ∀ k, k ≠ 17 → frameAt (__contextLoad top r.toContextState).mem top k = w k
  ret : frameAt (__contextLoad top r.toContextState).mem top 17 = frameAt r.mem top 17
  contexts : ∀ c ∈ C, contextAt (__contextLoad top r.toContextState).mem c = contextAt r.mem c
  outside : r.mem.SameOutside (frameBytes top) (__contextLoad top r.toContextState).mem

theorem ContextInv.saveLawful (hC : ContextsApart C) (h : ContextInv C r) (ht : OnStack C top) :
    SaveLawful C r top := by
  have hout := contextSave_outside top r.toContextState
  refine ⟨fun hmem i => ?_, fun c hc hne => ?_, ?_, hout⟩
  · rw [contextSave_refines hC ht hmem, contextSave_apply]
  · rcases h.save with hnull | hmem
    · rw [contextSave_null hnull]
    · exact contextAt_congr fun x hx => hout x (notMem_contextBytes hC hmem hc hne x hx)
  · rcases h.save with hnull | hmem
    · rw [contextSave_null hnull]
    · exact frameAt_congr fun x hx => hout x fun hxc => ht.notMem_frameBytes hmem x hxc hx

theorem ContextInv.loadLawful (hC : ContextsApart C) (h : ContextInv C r) (ht : OnStack C top) :
    LoadLawful C r top := by
  have hout := contextLoad_outside top r.toContextState
  refine ⟨fun w hw k hk => ?_, ?_, fun c hc => ?_, hout⟩
  · obtain ⟨hmem, hwords⟩ := h.saved _ w hw
    obtain ⟨i, rfl⟩ := (slot_cases k).resolve_left hk
    rw [contextLoad_refines hC ht hmem, contextLoad_apply, hwords]
  · rcases h.load with hnull | hmem
    · rw [contextLoad_null hnull]
    · rw [contextLoad_refines hC ht hmem, contextLoad_ret]
  · exact contextAt_congr fun x hx => hout x (ht.notMem_frameBytes hc x hx)

/--
Whatever was called before, a load puts the words saved last into the frame, all but that of the
return address, and each call changes its own context or frame alone.
-/
theorem context_reloads (hC : ContextsApart C) (hr : (contextMachine C).Reachable r)
    (ht : OnStack C top) : SaveLawful C r top ∧ LoadLawful C r top :=
  have hinv := contextMachine_inv hC hr
  ⟨hinv.saveLawful hC ht, hinv.loadLawful hC ht⟩

/-! ## Two contexts -/

def twoContexts : Set Nat := {0x1000, 0x2000}

theorem twoContexts_apart : ContextsApart twoContexts := by
  constructor
  · rintro (h | h) <;> cases h
  · rintro c (rfl | rfl) d (rfl | rfl) hne <;> omega

theorem onStack_twoContexts {top : Nat} (h : 0x3000 ≤ top) : OnStack twoContexts top := by
  constructor
  · rintro rfl
    exact absurd h (by decide)
  · rintro c (rfl | rfl) <;> omega

/-- A frame at 0x3000 is saved into the first one, and then there is another one at 0x4000. -/
theorem context_reloads_two : ∃ (r : ContextRun) (w : StackFrame),
    r.saved r.loadContext = some w ∧ SaveLawful twoContexts r 0x4000 ∧
      LoadLawful twoContexts r 0x4000 := by
  have hstart : (contextMachine twoContexts).Reachable ⟨⟨fun _ => 7, 0x1000, 0x1000⟩, fun _ => none⟩ :=
    .start ⟨.inr (.inl rfl), .inr (.inl rfl), rfl⟩
  have hsaved : (contextMachine twoContexts).Reachable _ :=
    .step (a := .save 0x3000) hstart ⟨onStack_twoContexts (by decide), rfl⟩
  exact ⟨_, _, rfl, context_reloads twoContexts_apart hsaved (onStack_twoContexts (by decide))⟩

end Raincloud.ContextMemory
