import Raincloud.Arch.BootMap
import Raincloud.Arch.GateRuns

/-!
# Selectors, vectors and ports over runs

After `init_dsc_tables` and `init_int_stack` the kernel only registers and unregisters handlers.
Whatever it registers, a selector stands for the same segment, a vector leads to what was last
registered for it, and the same ports are open to programs: `__tss_init` sets `IO_base` to zero,
so the processor takes the task state itself for the map of permitted ports.
-/

set_option linter.style.nameCheck false

namespace Raincloud

open Infra

namespace Segments

variable {m m' : Mem} {v handler : Nat} {dsc : Mem}

/-! ## The task state -/

/-- The bytes of the task state, with the stack for interrupts at `stackTop`. -/
def tssByte (stackTop k : Nat) : Nat :=
  if 4 ≤ k ∧ k < 12 then stackTop / 256 ^ (k - 4) % 256
  else if 12 ≤ k ∧ k < 28 ∨ 36 ≤ k ∧ k < 92 then 255
  else 0

theorem setField_half (o : Nat) : m.setField tssBase (TssSeg.half o) v
    = m.store (tssBase + o) 4 (v % 2 ^ 32) :=
  Mem.setField_whole rfl rfl

theorem setHalves_apply (offsets : List Nat) : ∀ m x, setHalves offsets m x
    = if ∃ o ∈ offsets, tssBase + o ≤ x ∧ x < tssBase + o + 4 then 0xff else m x := by
  induction offsets with
  | nil => exact fun m x => (if_neg (by simp)).symm
  | cons o offsets ih =>
    intro m x
    have hstore : m.setField tssBase (TssSeg.half o) 0xffffffff x
        = if tssBase + o ≤ x ∧ x < tssBase + o + 4 then 0xff else m x := by
      rw [setField_half]
      unfold Mem.store
      by_cases hin : tssBase + o ≤ x ∧ x < tssBase + o + 4
      · rw [if_pos hin, if_pos hin]
        obtain ⟨k, hk, hxk⟩ : ∃ k < 4, x - (tssBase + o) = k := ⟨x - (tssBase + o), by omega, rfl⟩
        rw [hxk]
        interval_cases k <;> rfl
      · rw [if_neg hin, if_neg hin]
    rw [setHalves, ih, hstore]
    by_cases hrest : ∃ o ∈ offsets, tssBase + o ≤ x ∧ x < tssBase + o + 4
    · obtain ⟨o', ho', hx⟩ := hrest
      rw [if_pos ⟨o', ho', hx⟩, if_pos ⟨o', List.mem_cons_of_mem o ho', hx⟩]
    · rw [if_neg hrest]
      by_cases hin : tssBase + o ≤ x ∧ x < tssBase + o + 4
      · rw [if_pos hin, if_pos ⟨o, List.mem_cons_self, hin⟩]
      · rw [if_neg hin, if_neg]
        rintro ⟨o', ho', hx⟩
        rcases List.mem_cons.mp ho' with rfl | hmem
        · exact hin hx
        · exact hrest ⟨o', hmem, hx⟩

theorem halves_iff {k : Nat} : (∃ o ∈ TssSeg.halves, tssBase + o ≤ tssBase + k ∧
    tssBase + k < tssBase + o + 4) ↔ 4 ≤ k ∧ k < 28 ∨ 36 ≤ k ∧ k < 92 := by
  unfold TssSeg.halves
  simp only [List.mem_cons, List.not_mem_nil, or_false, exists_eq_or_imp, exists_eq_left]
  omega

/-- The task state that `__tss_init` and `init_int_stack` leave. -/
theorem tss_bytes {stackTop k : Nat} (hk : k < tssSize) :
    (setIntStack stackTop (__tssInit m) (tssBase + k)).toNat = tssByte stackTop k := by
  have hinit : __tssInit m (tssBase + k)
      = if 4 ≤ k ∧ k < 28 ∨ 36 ≤ k ∧ k < 92 then 0xff else 0 := by
    have hfill : m.fill tssBase 0 tssSize (tssBase + k) = 0 := by
      rw [Mem.fill_apply]
      exact if_pos ⟨Nat.le_add_right _ _, Nat.add_lt_add_left hk _⟩
    have hhalves := setHalves_apply TssSeg.halves (m.fill tssBase 0 tssSize) (tssBase + k)
    unfold __tssInit
    rw [Mem.setField_whole rfl rfl, Mem.store]
    split
    · rename_i hio
      rw [show TssSeg.ioBase.offset = 102 from rfl] at hio
      rw [if_neg (by omega), Nat.zero_mod, Nat.zero_div]
      rfl
    · rw [hhalves, hfill]
      exact if_congr halves_iff rfl rfl
  have hlower : TssSeg.rsp0Lower = TssSeg.half 4 := rfl
  have hupper : TssSeg.rsp0Upper = TssSeg.half 8 := rfl
  unfold setIntStack tssByte
  simp only [hlower, hupper, setField_half, Mem.store, Nat.add_sub_add_left]
  by_cases h8 : 8 ≤ k ∧ k < 12
  · rw [if_pos (by omega), if_pos (by omega), UInt8.toNat_ofNat']
    obtain ⟨h1, h2⟩ := h8
    interval_cases k <;> norm_num <;> omega
  · rw [if_neg (by omega)]
    by_cases h4 : 4 ≤ k ∧ k < 8
    · rw [if_pos (by omega), if_pos (by omega), UInt8.toNat_ofNat']
      obtain ⟨h1, h2⟩ := h4
      interval_cases k <;> norm_num <;> omega
    · rw [if_neg (by omega), if_neg (by omega), hinit]
      by_cases hone : 12 ≤ k ∧ k < 28 ∨ 36 ≤ k ∧ k < 92
      · rw [if_pos (by omega), if_pos hone]
        rfl
      · rw [if_neg (by omega), if_neg hone]
        rfl

/-! ## The tables as a whole -/

/-- The stack of `init_int_stack`. -/
def intStackTop : Nat := InitMmMap.kernelStackTop - 0x100000

/-- The memory when the kernel begins to register handlers. -/
def bootTables (handler : Nat) (dsc m : Mem) : Mem :=
  setIntStack intStackTop (initDscTables handler dsc m)

/-- The gates that `__idt_init` makes. -/
def bootGate (handler v : Nat) : Gate :=
  if v < 16 then exceptionGate (add64 (add64 handler kernelImageBase) (4 * v)) else noGate

theorem tssInit_sameOutside (m : Mem) :
    Mem.SameOutside (Set.Ico tssBase (tssBase + tssSize)) m (__tssInit m) := by
  intro x hx
  have hbounds : x < tssBase ∨ tssBase + tssSize ≤ x := by
    by_contra hin
    exact hx ⟨by omega, by omega⟩
  have hhalves : setHalves TssSeg.halves (m.fill tssBase 0 tssSize) x = m x := by
    rw [setHalves_apply, if_neg, Mem.fill_sameOutside m tssBase 0 tssSize x hx]
    rintro ⟨o, ho, h1, h2⟩
    have hle : o ≤ 88 := by
      unfold TssSeg.halves at ho
      simp only [List.mem_cons, List.not_mem_nil, or_false] at ho
      omega
    have hsize : tssSize = 104 := rfl
    omega
  unfold __tssInit
  rw [Mem.setField_apply_of_not_mem, hhalves]
  rw [show TssSeg.ioBase.offset = 102 from rfl, show TssSeg.ioBase.bytes = 2 from rfl]
  have hsize : tssSize = 104 := rfl
  omega

theorem setIntStack_sameOutside (stackTop : Nat) (m : Mem) :
    Mem.SameOutside (Set.Ico tssBase (tssBase + tssSize)) m (setIntStack stackTop m) :=
  ((Mem.SameOutside.refl _ m).setField (by decide)).setField (by decide)

theorem idtInit_sameOutside (handler : Nat) (dsc m : Mem) :
    Mem.SameOutside gateArea m (__idtInit handler dsc m) := by
  have hdsc := gateIn_exceptionHandlerDsc (a := 0) (m := dsc) (add64_lt handler kernelImageBase)
  obtain ⟨hframe, -⟩ := idtInitLoop_gates 16 0 _ _ (m.fill idtBase 0 idtSize) (add64_lt _ _) hdsc
  refine (Mem.fill_sameOutside m idtBase 0 idtSize).trans (hframe.mono ?_)
  exact Set.Ico_subset_Ico (by decide) (by decide)

theorem idtInit_gate (hv : v < 256) :
    gateAt (__idtInit handler dsc m) v = bootGate handler v := by
  have hdsc := gateIn_exceptionHandlerDsc (a := 0) (m := dsc) (add64_lt handler kernelImageBase)
  obtain ⟨hframe, hgates⟩ :=
    idtInitLoop_gates 16 0 _ _ (m.fill idtBase 0 idtSize) (add64_lt _ _) hdsc
  unfold bootGate
  by_cases hlt : v < 16
  · rw [if_pos hlt, ← hgates v hlt, Nat.zero_add]
    rfl
  · rw [if_neg hlt]
    refine gateIn_zero fun x h1 h2 => ?_
    unfold gateAddr IntTrapSegDsc.size at h1 h2
    have hout : __idtInit handler dsc m x = m.fill idtBase 0 idtSize x := hframe x fun hin => by
      have hend := hin.2
      unfold gateAddr IntTrapSegDsc.size at hend
      omega
    rw [hout, Mem.fill_apply]
    refine if_pos ⟨by omega, ?_⟩
    rw [show idtSize = 4096 from rfl]
    omega

/-- What the tables are for, at the end of `int_init` and ever after. -/
structure TablesReady (m : Mem) : Prop where
  gdt : GdtReady m
  task : ∀ k < tssSize, (m (tssBase + k)).toNat = tssByte intStackTop k

theorem bootTables_ready (handler : Nat) (dsc m : Mem) :
    TablesReady (bootTables handler dsc m) ∧
      ∀ v < 256, gateAt (bootTables handler dsc m) v = bootGate handler v := by
  have htss : Mem.SameOutside (Set.Ico tssBase (tssBase + tssSize))
      (__idtInit handler dsc (__gdtInit m)) (bootTables handler dsc m) :=
    (tssInit_sameOutside _).trans (setIntStack_sameOutside _ _)
  have hgdt : ∀ x < gdtSize, bootTables handler dsc m x = __gdtInit m x := fun x hx => by
    rw [htss x fun hin => by
        have hle : tssBase ≤ x := hin.1
        unfold tssBase at hle
        unfold gdtSize at hx
        omega]
    exact idtInit_sameOutside handler dsc (__gdtInit m) x fun hin => by
      have hle : idtBase ≤ x := hin.1
      unfold idtBase at hle
      unfold gdtSize at hx
      omega
  refine ⟨⟨(gdtInit_ready m).congr hgdt, fun k hk => tss_bytes hk⟩, fun v hv => ?_⟩
  have hsame : gateAt (bootTables handler dsc m) v
      = gateAt (__idtInit handler dsc (__gdtInit m)) v :=
    gateIn_congr fun x h1 h2 => htss x fun hin => by
      have hle := hin.1
      unfold gateAddr IntTrapSegDsc.size idtBase at h2
      unfold tssBase at hle
      omega
  rw [hsame]
  exact idtInit_gate hv

/-- The calls do not reach the other two tables. -/
theorem TablesReady.congr (h : TablesReady m) (hsame : Mem.SameOutside gateArea m m') :
    TablesReady m' := by
  have hout : ∀ x, x < idtBase ∨ idtBase + idtSize ≤ x → m' x = m x := fun x hx =>
    hsame x fun hin => by
      have h1 := hin.1
      have h2 := hin.2
      omega
  refine ⟨h.gdt.congr fun x hx => hout x (.inl hx), fun k hk => ?_⟩
  rw [← h.task k hk]
  exact congrArg UInt8.toNat (hout (tssBase + k) (.inr (Nat.le_add_right _ _)))

/-! ## Runs -/

section Runs

variable {calls : List IntCall}

theorem tablesReady_of_run (hcalls : ∀ c ∈ calls, c.Valid)
    (hrun : runCalls calls (bootTables handler dsc m) = some m') : TablesReady m' :=
  (bootTables_ready handler dsc m).1.congr (runCalls_some hcalls _ _ hrun).1

theorem gateAt_of_run (hcalls : ∀ c ∈ calls, c.Valid)
    (hrun : runCalls calls (bootTables handler dsc m) = some m') (hv : v < 256) : gateAt m' v
      = (calls.filter fun c => c.vector = v).foldl IntCall.change (bootGate handler v) := by
  rw [(runCalls_some hcalls _ _ hrun).2 v, (bootTables_ready handler dsc m).2 v hv]

/-- The calls of `int_init`, for handlers at these addresses. -/
def intInitCalls (systickHandler syscallHandler : Nat) : List IntCall :=
  [.reg 0x20 systickHandler 0, .reg 0x80 syscallHandler 1]

theorem intInitCalls_valid : ∀ c ∈ intInitCalls 0xffff900000103000 0xffff900000103100, c.Valid := by
  unfold intInitCalls
  rw [List.forall_mem_cons, List.forall_mem_singleton]
  exact ⟨⟨by decide, by decide⟩, by decide, by decide⟩

theorem intInitCalls_run (m : Mem) :
    ∃ m', runCalls (intInitCalls 0xffff900000103000 0xffff900000103100) m = some m' := by
  refine Option.isSome_iff_exists.mp ((runCalls_isSome intInitCalls_valid m).mpr ?_)
  unfold intInitCalls
  rw [List.forall_mem_cons, List.forall_mem_singleton]
  exact ⟨Nat.zero_lt_two, Nat.one_lt_two⟩

/-- A gate that is present leads into the code segment of the kernel. -/
def KernelGate (g : Gate) : Prop := g.p = 1 → g.selector = 0x28 ∧ g.ist = 0

theorem kernelGate_change (g : Gate) (c : IntCall) : KernelGate (c.change g) := by
  cases c with
  | reg vector handle type => exact fun _ => ⟨rfl, rfl⟩
  | unreg vector => exact fun h => absurd h Nat.zero_ne_one

theorem kernelGate_boot (handler v : Nat) : KernelGate (bootGate handler v) := by
  unfold bootGate
  split
  · exact fun _ => ⟨rfl, rfl⟩
  · exact fun h => absurd h Nat.zero_ne_one

theorem kernelGate_foldl (cs : List IntCall) : ∀ g, KernelGate g →
    KernelGate (cs.foldl IntCall.change g) := by
  induction cs with
  | nil => exact fun g hg => hg
  | cons c cs ih => exact fun g _ => ih (c.change g) (kernelGate_change g c)

/--
**Every selector stands for the same segment ever after**, and the gates that are present all
lead into the 64-bit code segment of the kernel, on the stack of the task state. The type in the
descriptor of the task state itself is left to the processor, which marks it busy in `ltr`.
-/
theorem segments_of_run (handler : Nat) (dsc m : Mem) (hcalls : ∀ c ∈ calls, c.Valid)
    (hrun : runCalls calls (bootTables handler dsc m) = some m') :
    (∀ sel < 2 ^ 16, sel / 2 ^ 3 ≠ 13 → segmentAt m' sel = segmentOf sel) ∧
    taskState m' 0x68 = (tssBase + phyMapBase, tssSize - 1) ∧
    ∀ v < 256, (gateAt m' v).p = 1 → (gateAt m' v).ist = 0 ∧
      segmentAt m' (gateAt m' v).selector = some ⟨1, segTCExRA, 0, 1, 0⟩ := by
  have hready := tablesReady_of_run hcalls hrun
  refine ⟨fun sel hsel _ => hready.gdt.segmentAt hsel, hready.gdt.taskState, fun v hv hp => ?_⟩
  have hsel := kernelGate_foldl (calls.filter fun c => c.vector = v) _ (kernelGate_boot handler v)
  rw [← gateAt_of_run hcalls hrun hv] at hsel
  specialize hsel hp
  refine ⟨hsel.2, ?_⟩
  rw [hsel.1, hready.gdt.segmentAt (by decide)]
  rfl

/-- Selector `0x43` of the programs is 64-bit code for them, and no gate leads there. -/
theorem segments_of_run_intInit :
    ∃ m', runCalls (intInitCalls 0xffff900000103000 0xffff900000103100)
        (bootTables 0x2000 (fun _ => 0) fun _ => 0) = some m' ∧
      segmentAt m' 0x43 = some ⟨1, segTCExRA, 3, 1, 0⟩ ∧
      ((gateAt m' 0x80).p = 1 →
        segmentAt m' (gateAt m' 0x80).selector = some ⟨1, segTCExRA, 0, 1, 0⟩) := by
  obtain ⟨m', hm'⟩ := intInitCalls_run (bootTables 0x2000 (fun _ => 0) fun _ => 0)
  obtain ⟨hsel, -, hgates⟩ :=
    segments_of_run 0x2000 (fun _ => 0) (fun _ => 0) intInitCalls_valid hm'
  exact ⟨m', hm', hsel 0x43 (by decide) (by decide), fun hp => (hgates 0x80 (by decide) hp).2⟩

/-- The bits of the stack address that are clear. -/
theorem intStackTop_bit {i : Nat} (hi : i < 64) :
    intStackTop / 2 ^ i % 2 = 0 ↔ i < 20 ∨ 40 ≤ i ∧ i < 44 := by
  have hall : ∀ i < 64, intStackTop / 2 ^ i % 2 = 0 ↔ i < 20 ∨ 40 ≤ i ∧ i < 44 := by
    decide +kernel
  exact hall i hi

theorem tssByte_bit {k r : Nat} (hr : r < 8) : tssByte intStackTop k / 2 ^ r % 2 = 0 ↔
    k < 4 ∨ 4 ≤ k ∧ k < 12 ∧ (8 * k + r < 52 ∨ 72 ≤ 8 * k + r ∧ 8 * k + r < 76) ∨
      28 ≤ k ∧ k < 36 ∨ 92 ≤ k := by
  unfold tssByte
  by_cases hstack : 4 ≤ k ∧ k < 12
  · obtain ⟨j, rfl⟩ : ∃ j, k = j + 4 := ⟨k - 4, by omega⟩
    have hbit : intStackTop / 256 ^ j % 256 / 2 ^ r % 2 = intStackTop / 2 ^ (8 * j + r) % 2 := by
      have hpow : (256 : Nat) ^ j = 2 ^ (8 * j) := by
        rw [pow_mul]
        rfl
      have hr8 : r = 0 ∨ r = 1 ∨ r = 2 ∨ r = 3 ∨ r = 4 ∨ r = 5 ∨ r = 6 ∨ r = 7 := by omega
      rw [pow_add, ← Nat.div_div_eq_div_mul, hpow]
      rcases hr8 with rfl | rfl | rfl | rfl | rfl | rfl | rfl | rfl <;> omega
    rw [if_pos hstack, Nat.add_sub_cancel, hbit, intStackTop_bit (by omega)]
    omega
  · rw [if_neg hstack]
    by_cases hone : 12 ≤ k ∧ k < 28 ∨ 36 ≤ k ∧ k < 92
    · have hbit : 255 / 2 ^ r % 2 = 1 := by
        interval_cases r <;> rfl
      rw [if_pos hone, hbit]
      omega
    · rw [if_neg hone, Nat.zero_div, Nat.zero_mod]
      omega

/--
**The ports that are open to programs** are the ones whose bits are clear in the task state
itself: besides those where it is zero, the ports of the low bits of the stack address, among
them both ports of the first interrupt controller.
-/
theorem ports_of_run (handler : Nat) (dsc m : Mem) (hcalls : ∀ c ∈ calls, c.Valid)
    (hrun : runCalls calls (bootTables handler dsc m) = some m') (port : Nat) :
    ioAllowed m' 0x68 port = true ↔
      port < 52 ∨ 72 ≤ port ∧ port < 76 ∨ 224 ≤ port ∧ port < 288 ∨ 736 ≤ port ∧ port < 824 := by
  have hready := tablesReady_of_run hcalls hrun
  have hio : m'.field tssBase TssSeg.ioBase = 0 := by
    have hbyte : ∀ x, tssBase + 102 ≤ x → x < tssBase + 104 → m' x = 0 := fun x h1 h2 => by
      have hk := hready.task (x - tssBase) (by
        rw [show tssSize = 104 from rfl]
        omega)
      rw [Nat.add_sub_cancel' (by omega)] at hk
      refine UInt8.toNat.inj (hk.trans ?_)
      unfold tssByte
      rw [if_neg (by omega), if_neg (by omega)]
      rfl
    exact Mem.field_eq_zero hbyte
  have hbase : tssBase + phyMapBase - phyMapBase = tssBase := Nat.add_sub_cancel _ _
  unfold ioAllowed
  rw [hready.gdt.taskState]
  simp only [hbase, hio, Nat.zero_add, decide_eq_true_eq]
  have hsize : tssSize = 104 := rfl
  by_cases hlimit : port / 8 + 1 ≤ tssSize - 1
  · rw [hready.task (port / 8) (by omega), tssByte_bit (Nat.mod_lt port (by decide))]
    omega
  · omega

/-- The mask of the first interrupt controller is open, the ports of the disk are not. -/
theorem ports_of_run_intInit :
    ∃ m', runCalls (intInitCalls 0xffff900000103000 0xffff900000103100)
        (bootTables 0x2000 (fun _ => 0) fun _ => 0) = some m' ∧
      ioAllowed m' 0x68 0x21 = true ∧ ¬ ioAllowed m' 0x68 0x1f0 = true := by
  obtain ⟨m', hm'⟩ := intInitCalls_run (bootTables 0x2000 (fun _ => 0) fun _ => 0)
  have hports := ports_of_run 0x2000 (fun _ => 0) (fun _ => 0) intInitCalls_valid hm'
  refine ⟨m', hm', (hports 0x21).mpr (by decide), fun h => ?_⟩
  have hopen := (hports 0x1f0).mp h
  omega

end Runs

end Segments

end Raincloud
