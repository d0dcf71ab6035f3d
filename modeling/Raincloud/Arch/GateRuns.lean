import Raincloud.Arch.SegmentTables

/-!
# Gates over runs

`int_reg` and `int_unreg` work on the gate of their vector alone. The table of gates is thus a
map from vectors, which `init_dsc_tables` fills with the exceptions and every call then changes
at one place; the segments, the task state and the rest of the memory stay as they are.
-/

set_option linter.style.nameCheck false

namespace Raincloud

open Infra

namespace Segments

variable {m m' : Mem} {a b v handle handler type : Nat}

/-! ## One gate -/

/-- The gate at an address. -/
def gateIn (m : Mem) (a : Nat) : Gate where
  p := m.field a IntTrapSegDsc.p
  dpl := m.field a IntTrapSegDsc.dpl
  type := m.field a IntTrapSegDsc.type
  ist := m.field a IntTrapSegDsc.ist
  selector := m.field a IntTrapSegDsc.segSel
  offset := m.field a IntTrapSegDsc.offset0_15 + m.field a IntTrapSegDsc.offset16_31 * 2 ^ 16 +
    m.field a IntTrapSegDsc.offset32_63 * 2 ^ 32

/-- The fields of a gate are in its 16 bytes. -/
theorem gateIn_eq_of_fields
    (h : ∀ f : Field, f.offset + f.bytes ≤ 16 → m'.field b f = m.field a f) :
    gateIn m' b = gateIn m a := by
  unfold gateIn
  rw [h IntTrapSegDsc.p (by decide), h IntTrapSegDsc.dpl (by decide),
    h IntTrapSegDsc.type (by decide), h IntTrapSegDsc.ist (by decide),
    h IntTrapSegDsc.segSel (by decide), h IntTrapSegDsc.offset0_15 (by decide),
    h IntTrapSegDsc.offset16_31 (by decide), h IntTrapSegDsc.offset32_63 (by decide)]

theorem gateIn_congr (h : ∀ x, a ≤ x → x < a + 16 → m' x = m x) : gateIn m' a = gateIn m a :=
  gateIn_eq_of_fields fun _ hf => Mem.field_congr fun x h1 h2 => h x (by omega) (by omega)

theorem gateIn_put : gateIn (m.put a 16 fun j => m' (b + j)) a = gateIn m' b :=
  gateIn_eq_of_fields fun _ hf => Mem.field_put hf

/-- An offset comes back from its three parts. -/
theorem offset_parts (h : handle < 2 ^ 64) : handle % 2 ^ 16 + handle / 2 ^ 16 % 2 ^ 16 * 2 ^ 16 +
    handle / 2 ^ 32 % 2 ^ 32 * 2 ^ 32 = handle := by
  omega

theorem gateIn_setOffset (h : handle < 2 ^ 64) :
    gateIn (setOffset a handle m) a = { gateIn m a with offset := handle } := by
  unfold gateIn setOffset
  simp (disch := decide) only [Mem.field_setField, Mem.field_setField_of_apart]
  congr 1
  exact offset_parts h

/-- What `exception_handler_dsc` is for a handler. -/
def exceptionGate (handler : Nat) : Gate := ⟨1, 0, dscTypeInit, 0, segSelWord 0 0 5, handler⟩

theorem gateIn_exceptionHandlerDsc (h : handler < 2 ^ 64) :
    gateIn (exceptionHandlerDsc a handler m) a = exceptionGate handler := by
  unfold exceptionHandlerDsc
  rw [gateIn_setOffset h]
  unfold gateIn exceptionGate
  simp (disch := decide) only [Mem.field_setField, Mem.field_setField_of_apart]
  rfl

/-- What `int_reg` makes of a gate. -/
def handlerGate (handle dscType : Nat) : Gate := ⟨1, 3, dscType, 0, segSelWord 0 0 5, handle⟩

theorem gateIn_writeGate {dscType : Nat} (hhandle : handle < 2 ^ 64) (htype : dscType < 2 ^ 4) :
    gateIn (writeGate a handle dscType m) a = handlerGate handle dscType := by
  have hmod : dscType % 2 ^ IntTrapSegDsc.type.width = dscType := Nat.mod_eq_of_lt htype
  unfold gateIn writeGate handlerGate
  simp (disch := decide) only [Mem.field_setField, Mem.field_setField_of_apart, hmod]
  congr 1
  rw [show IntTrapSegDsc.offset0_15.width = 16 from rfl,
    show IntTrapSegDsc.offset16_31.width = 16 from rfl,
    show IntTrapSegDsc.offset32_63.width = 32 from rfl, Nat.mod_mod, Nat.mod_mod, Nat.mod_mod]
  exact offset_parts hhandle

theorem writeGate_sameOutside (a handle dscType : Nat) (m : Mem) :
    Mem.SameOutside (Set.Ico a (a + 16)) m (writeGate a handle dscType m) :=
  ((((((((((Mem.SameOutside.refl _ m).setField (by decide)).setField (by decide)).setField
    (by decide)).setField (by decide)).setField (by decide)).setField (by decide)).setField
    (by decide)).setField (by decide)).setField (by decide)).setField (by decide)

theorem gateIn_intUnreg : gateIn (intUnreg v m) (gateAddr v)
    = { gateIn m (gateAddr v) with p := 0 } := by
  unfold gateIn intUnreg
  simp (disch := decide) only [Mem.field_setField, Mem.field_setField_of_apart]
  rfl

theorem intUnreg_sameOutside (v : Nat) (m : Mem) :
    Mem.SameOutside (Set.Ico (gateAddr v) (gateAddr v + 16)) m (intUnreg v m) :=
  (Mem.SameOutside.refl _ m).setField (by decide)

/-! ## Calls -/

inductive IntCall where
  | reg (vector handle type : Nat)
  | unreg (vector : Nat)

namespace IntCall

def vector : IntCall → Nat
  | reg vector _ _ => vector
  | unreg vector => vector

/-- The arguments are of their types. -/
def Valid : IntCall → Prop
  | reg vector handle _ => vector < 256 ∧ handle < 2 ^ 64
  | unreg vector => vector < 256

def run : IntCall → Mem → Option Mem
  | reg vector handle type, m => intReg vector handle type m
  | unreg vector, m => some (intUnreg vector m)

/-- The type is one of `enum INT_TYPE`. -/
def TypeOk : IntCall → Prop
  | reg _ _ type => type < 2
  | unreg _ => True

/-- What a call makes of the gate of its vector. -/
def change (g : Gate) : IntCall → Gate
  | reg _ handle type => handlerGate handle (dscTypeInit + type)
  | unreg _ => { g with p := 0 }

end IntCall

/-- The calls one after another, until one halts. -/
def runCalls : List IntCall → Mem → Option Mem
  | [], m => some m
  | c :: cs, m => (c.run m).bind (runCalls cs)

theorem gateAddr_apart {w : Nat} (h : v ≠ w) :
    gateAddr v + 16 ≤ gateAddr w ∨ gateAddr w + 16 ≤ gateAddr v := by
  unfold gateAddr IntTrapSegDsc.size
  omega

theorem gateAt_of_sameOutside (h : Mem.SameOutside (Set.Ico (gateAddr v) (gateAddr v + 16)) m m')
    {w : Nat} (hne : w ≠ v) : gateAt m' w = gateAt m w :=
  gateIn_congr fun x h1 h2 => h x fun hin => by
    have h3 := hin.1
    have h4 := hin.2
    have happart := gateAddr_apart hne
    omega

theorem intDscType_eq (type : Nat) :
    intDscType type = if type < 2 then some (dscTypeInit + type) else none := by
  match type with
  | 0 => rfl
  | 1 => rfl
  | type + 2 =>
    rw [if_neg (by omega)]
    rfl

/-- A call halts just if its type is wrong, and writes nothing but its gate. -/
theorem IntCall.run_cases {c : IntCall} (hc : c.Valid) (m : Mem) :
    (¬ c.TypeOk ∧ c.run m = none) ∨
    ∃ m', c.TypeOk ∧ c.run m = some m' ∧
      Mem.SameOutside (Set.Ico (gateAddr c.vector) (gateAddr c.vector + 16)) m m' ∧
      gateAt m' c.vector = c.change (gateAt m c.vector) := by
  cases c with
  | reg vector handle type =>
    show (¬ type < 2 ∧ (intDscType type).map _ = none) ∨ ∃ m', type < 2 ∧
      (intDscType type).map _ = some m' ∧ _
    rw [intDscType_eq]
    by_cases htype : type < 2
    · have hlt : dscTypeInit + type < 2 ^ 4 := by
        unfold dscTypeInit
        omega
      rw [if_pos htype]
      exact .inr ⟨_, htype, rfl, writeGate_sameOutside _ _ _ m, gateIn_writeGate hc.2 hlt⟩
    · rw [if_neg htype]
      exact .inl ⟨htype, rfl⟩
  | unreg vector =>
    exact .inr ⟨_, trivial, rfl, intUnreg_sameOutside vector m, gateIn_intUnreg⟩

/-- The memory of the gates. -/
def gateArea : Set Nat := Set.Ico idtBase (idtBase + idtSize)

theorem IntCall.Valid.vector_lt {c : IntCall} (h : c.Valid) : c.vector < 256 := by
  cases c with
  | reg vector handle type => exact h.1
  | unreg vector => exact h

theorem gate_subset (h : v < 256) : Set.Ico (gateAddr v) (gateAddr v + 16) ⊆ gateArea := by
  refine Set.Ico_subset_Ico (Nat.le_add_right _ _) ?_
  unfold gateAddr idtSize IntTrapSegDsc.size
  omega

/-- A gate is what the calls for its vector make of it, and no call writes outside the table. -/
theorem runCalls_some {calls : List IntCall} (hcalls : ∀ c ∈ calls, c.Valid) : ∀ m m',
    runCalls calls m = some m' → Mem.SameOutside gateArea m m' ∧ ∀ v,
      gateAt m' v = (calls.filter fun c => c.vector = v).foldl IntCall.change (gateAt m v) := by
  induction calls with
  | nil =>
    rintro m m' ⟨⟩
    exact ⟨.refl _ m, fun v => rfl⟩
  | cons c cs ih =>
    intro m m' hrun
    have hc := hcalls c List.mem_cons_self
    rw [runCalls] at hrun
    rcases c.run_cases hc m with ⟨-, hnone⟩ | ⟨t, -, hsome, hframe, hgate⟩
    · rw [hnone] at hrun
      cases hrun
    · rw [hsome] at hrun
      obtain ⟨hrest, hgates⟩ := ih (fun c' hc' => hcalls c' (List.mem_cons_of_mem c hc')) t m' hrun
      refine ⟨(hframe.mono (gate_subset hc.vector_lt)).trans hrest, fun v => ?_⟩
      rw [hgates]
      by_cases hv : c.vector = v
      · subst hv
        rw [List.filter_cons_of_pos (by simp), List.foldl_cons, hgate]
      · rw [List.filter_cons_of_neg (by simpa using hv),
          gateAt_of_sameOutside hframe (Ne.symm hv)]

theorem runCalls_isSome {calls : List IntCall} (hcalls : ∀ c ∈ calls, c.Valid) : ∀ m,
    (runCalls calls m).isSome ↔ ∀ c ∈ calls, c.TypeOk := by
  induction calls with
  | nil => exact fun m => iff_of_true rfl fun c hc => by cases hc
  | cons c cs ih =>
    intro m
    rw [runCalls, List.forall_mem_cons]
    rcases c.run_cases (hcalls c List.mem_cons_self) m with ⟨htype, hnone⟩ | ⟨t, htype, hsome, -⟩
    · rw [hnone]
      exact iff_of_false Bool.false_ne_true fun h => htype h.1
    · rw [hsome, and_iff_right htype]
      exact ih (fun c' hc' => hcalls c' (List.mem_cons_of_mem c hc')) t

/-! ## The table behind `init_dsc_tables` -/

/-- No gate. -/
def noGate : Gate := ⟨0, 0, 0, 0, 0, 0⟩

theorem gateIn_zero (h : ZeroFrom m a 16) : gateIn m a = noGate := by
  have hzero : ∀ f : Field, f.offset + f.bytes ≤ 16 → m.field a f = 0 := fun f hf => h.field hf
  unfold gateIn
  simp (disch := decide) only [hzero]
  rfl

theorem add64_add (h k j : Nat) : add64 (add64 h k) j = add64 h (k + j) := by
  unfold add64
  omega

/-- The loop makes a gate for each exception, four bytes of handler apart. -/
theorem idtInitLoop_gates : ∀ n i handlerAddr dsc m, handlerAddr < 2 ^ 64 →
    gateIn dsc 0 = exceptionGate handlerAddr →
    Mem.SameOutside (Set.Ico (gateAddr i) (gateAddr (i + n))) m
      (idtInitLoop n i handlerAddr dsc m) ∧
    ∀ j < n, gateAt (idtInitLoop n i handlerAddr dsc m) (i + j)
      = exceptionGate (add64 handlerAddr (4 * j))
  | 0, i, handlerAddr, dsc, m, _, _ => ⟨.refl _ m, fun j hj => absurd hj (Nat.not_lt_zero j)⟩
  | n + 1, i, handlerAddr, dsc, m, hlt, hdsc => by
    have hnext : gateIn (setOffset 0 (add64 handlerAddr 4) dsc) 0
        = exceptionGate (add64 handlerAddr 4) := by
      rw [gateIn_setOffset (add64_lt _ _), hdsc]
      rfl
    have hput : Mem.SameOutside (Set.Ico (gateAddr i) (gateAddr i + 16)) m
        (m.put (gateAddr i) 16 fun j => dsc (0 + j)) := fun x hx => if_neg hx
    obtain ⟨hframe, hgates⟩ := idtInitLoop_gates n (i + 1) (add64 handlerAddr 4)
      (setOffset 0 (add64 handlerAddr 4) dsc) (m.put (gateAddr i) 16 fun j => dsc (0 + j))
      (add64_lt _ _) hnext
    refine ⟨(hput.mono ?_).trans (hframe.mono ?_), fun j hj => ?_⟩
    · refine Set.Ico_subset_Ico_right ?_
      unfold gateAddr IntTrapSegDsc.size
      omega
    · refine Set.Ico_subset_Ico ?_ ?_
      all_goals
        unfold gateAddr IntTrapSegDsc.size
        omega
    · cases j with
      | zero =>
        -- The rest of the loop does not come back to this gate.
        have hkeep : gateAt (idtInitLoop (n + 1) i handlerAddr dsc m) i
            = gateIn (m.put (gateAddr i) 16 fun j => dsc (0 + j)) (gateAddr i) :=
          gateIn_congr fun x h1 h2 => hframe x fun hin => by
            have hle := hin.1
            unfold gateAddr IntTrapSegDsc.size at hle h2
            omega
        rw [Nat.add_zero i, hkeep, gateIn_put, hdsc, Nat.mul_zero, add64,
          Nat.add_zero handlerAddr, Nat.mod_eq_of_lt hlt]
      | succ j =>
        have hstep := hgates j (Nat.lt_of_succ_lt_succ hj)
        rw [add64_add, show 4 + 4 * j = 4 * (j + 1) by omega] at hstep
        rw [← hstep]
        show gateAt _ (i + (j + 1)) = gateAt _ (i + 1 + j)
        rw [Nat.add_comm j 1, Nat.add_assoc]
        rfl

end Segments

end Raincloud
