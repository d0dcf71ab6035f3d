import Raincloud.Arch.Pic8259
import Raincloud.Arch.TableRuns
import Mathlib.Data.List.Find

/-!
# The interrupt controllers over runs

Set up by `pic_8259_init`, the two chips and the driver are an arbiter of fifteen lines: the
lines of the second chip stand in the order of priority where its input is at the first. The
driver never ends an interrupt, and with automatic end of interrupt it need not: no request is
lost or taken twice, and none holds up another.
-/

set_option linter.style.nameCheck false

namespace Raincloud

open Infra

namespace Pic

variable {c : Chip} {v k : Nat} {en pe : Nat → Bool} {i j irq base : Nat} {s s' : Pair}
  {l : Lines Nat}

/-! ## One chip -/

/-- A chip at work, with these inputs enabled and these requests. -/
structure ChipOk (c : Chip) (v k : Nat) (en pe : Nat → Bool) : Prop where
  imr : ∀ i < 8, c.imr.testBit i = !en i
  irr : ∀ i < 8, c.irr.testBit i = pe i
  isr : c.isr = 0
  vector : c.vector = v
  cascade : c.cascade = k
  autoEoi : c.autoEoi = true
  mode86 : c.mode86 = true
  expects : c.expects = .ocw1

theorem testBit_bit (i j : Nat) : (1 <<< i).testBit j = decide (i = j) := by
  rw [Nat.one_shiftLeft, Nat.testBit_two_pow]

namespace ChipOk

theorem writeData (h : ChipOk c v k en pe) {data : Nat} {en' : Nat → Bool}
    (hdata : ∀ i < 8, data.testBit i = !en' i) :
    ChipOk (c.writeData (data % 2 ^ 8)) v k en' pe := by
  have hwrite : c.writeData (data % 2 ^ 8) = { c with imr := data % 2 ^ 8 } := by
    simp [Chip.writeData, h.expects]
  rw [hwrite]
  refine ⟨fun i hi => ?_, h.irr, h.isr, h.vector, h.cascade, h.autoEoi, h.mode86, h.expects⟩
  rw [Nat.testBit_mod_two_pow, hdata i hi]
  simp [hi]

theorem mask (h : ChipOk c v k en pe) {en' : Nat → Bool}
    (hen : ∀ i < 8, en' i = if i = j then false else en i) :
    ChipOk (c.writeData ((c.imr ||| 1 <<< j) % 2 ^ 8)) v k en' pe := by
  refine h.writeData fun i hi => ?_
  rw [Nat.testBit_or, h.imr i hi, testBit_bit, hen i hi]
  by_cases hij : i = j
  · simp [hij]
  · simp [hij, Ne.symm hij]

theorem unmask (h : ChipOk c v k en pe) {en' : Nat → Bool}
    (hen : ∀ i < 8, en' i = if i = j then true else en i) :
    ChipOk (c.writeData ((c.imr &&& (0xffffffff ^^^ 1 <<< j)) % 2 ^ 8)) v k en' pe := by
  refine h.writeData fun i hi => ?_
  have hones : (0xffffffff : Nat).testBit i = true := by
    rw [show (0xffffffff : Nat) = 2 ^ 32 - 1 from rfl, Nat.testBit_two_pow_sub_one]
    simp
    omega
  rw [Nat.testBit_and, h.imr i hi, Nat.testBit_xor, hones, testBit_bit, hen i hi]
  by_cases hij : i = j
  · simp [hij]
  · simp [hij, Ne.symm hij]

theorem edge (h : ChipOk c v k en pe) {pe' : Nat → Bool}
    (hpe : ∀ i < 8, pe' i = if i = j then true else pe i) :
    ChipOk (c.edge j) v k en pe' := by
  refine ⟨h.imr, fun i hi => ?_, h.isr, h.vector, h.cascade, h.autoEoi, h.mode86, h.expects⟩
  rw [Chip.edge, Nat.testBit_or, h.irr i hi, testBit_bit, hpe i hi]
  by_cases hij : i = j
  · simp [hij]
  · simp [hij, Ne.symm hij]

theorem serve (h : ChipOk c v k en pe) {pe' : Nat → Bool}
    (hpe : ∀ i < 8, pe' i = if i = j then false else pe i) :
    ChipOk (c.serve j) v k en pe' := by
  have hisr : (c.serve j).isr = 0 := by
    rw [Chip.serve, h.autoEoi]
    exact h.isr
  refine ⟨h.imr, fun i hi => ?_, hisr, h.vector, h.cascade, h.autoEoi, h.mode86, h.expects⟩
  rw [hpe i hi, ← h.irr i hi, Chip.serve]
  by_cases hbit : c.irr.testBit j = true
  · rw [if_pos hbit, Nat.testBit_xor, testBit_bit]
    by_cases hij : i = j
    · simp [hij, hbit]
    · simp [hij, Ne.symm hij]
  · rw [if_neg hbit]
    by_cases hij : i = j
    · simp [hij, hbit]
    · simp [hij]

theorem answer (h : ChipOk c v k en pe) (i : Nat) : c.answer i = some (v + i) := by
  rw [Chip.answer, h.mode86, h.vector]
  rfl

/-- Nothing is ever in service, so the mask alone decides. -/
theorem request (h : ChipOk c v k en pe) {lines : Nat} {q : Nat → Bool}
    (hlines : ∀ i < 8, lines.testBit i = q i) :
    c.request lines = (List.range 8).find? fun i => q i && en i := by
  refine List.find?_congr fun i hi => ?_
  have hlt := List.mem_range.mp hi
  simp [hlines i hlt, h.imr i hlt, h.isr]

end ChipOk

/-! ## The arbiter -/

/-- The lines with their priorities; those of the second chip need input 2 of the first. -/
def arbiter : Arbiter Nat where
  order := [0, 1] ++ (List.range 8).map (· + 8) ++ [3, 4, 5, 6, 7]
  through enabled i := enabled i && (decide (i < 8) || enabled 2)

/-- The vector of a line. -/
def vectorOf (base irq : Nat) : Nat :=
  if irq < 8 then (base &&& 0xf8) + irq else ((base &&& 0xf8) + 8) % 2 ^ 8 + (irq - 8)

/-- The chips behind `pic_8259_init(base)`, with these lines enabled and these requests. -/
structure Reflects (base : Nat) (s : Pair) (l : Lines Nat) : Prop where
  master : ChipOk s.master (base &&& 0xf8) 4 l.enabled l.pending
  slave : ChipOk s.slave (((base &&& 0xf8) + 8) % 2 ^ 8) 2 (fun i => l.enabled (i + 8))
    fun i => l.pending (i + 8)
  /-- There is no device at the input of the second chip. -/
  wire : l.pending 2 = false

/-- The lines that `pic_8259_init` leaves. -/
def initLines : Lines Nat where
  enabled i := decide (i = 2)
  pending _ := false

theorem and_0xf8 (a : Nat) : a &&& 0xf8 = a / 2 ^ 3 % 2 ^ 5 * 2 ^ 3 := and_field a 3 5

theorem reflects_init (base : Nat) (s : Pair) : Reflects base (pic8259Init base s) initLines := by
  have hmaster : (base &&& 0xf8) % 2 ^ 8 &&& 0xf8 = base &&& 0xf8 := by
    rw [and_0xf8, and_0xf8]
    omega
  have hslave : ((base &&& 0xf8) + 8) % 2 ^ 8 &&& 0xf8 = ((base &&& 0xf8) + 8) % 2 ^ 8 := by
    rw [and_0xf8, and_0xf8]
    omega
  have hzero : ∀ i < 8, (0 : Nat).testBit i = false := fun i _ => Nat.zero_testBit i
  refine ⟨⟨?_, hzero, rfl, hmaster, rfl, rfl, rfl, rfl⟩, ⟨?_, hzero, rfl, hslave, rfl, rfl, rfl,
    rfl⟩, rfl⟩
  · show ∀ i < 8, (0xfb : Nat).testBit i = !decide (i = 2)
    decide
  · show ∀ i < 8, (0xff : Nat).testBit i = !decide (i + 8 = 2)
    decide

/-! ## One event -/

/-- The input of the first chip that a line is at. -/
def inputOf (irq : Nat) : Nat := if irq < 8 then irq else 2

theorem Reflects.slave_request (h : Reflects base s l) : s.slave.request s.slave.irr
    = (List.range 8).find? fun i => l.pending (i + 8) && l.enabled (i + 8) :=
  h.slave.request h.slave.irr

/-- Behind input 2 are the lines of the second chip. -/
theorem find?_behind (l : Lines Nat) : ((List.range 8).map (· + 8)).find? (fun i =>
      l.pending i && arbiter.through l.enabled i)
    = if l.enabled 2 = true then
        ((List.range 8).find? fun i => l.pending (i + 8) && l.enabled (i + 8)).map (· + 8)
      else none := by
  have hthrough : ∀ i, arbiter.through l.enabled (i + 8)
      = (l.enabled (i + 8) && l.enabled 2) := fun i => by
    simp [arbiter]
  rw [List.find?_map]
  by_cases h2 : l.enabled 2 = true
  · rw [if_pos h2]
    refine congrArg _ (List.find?_congr fun i _ => ?_)
    simp [hthrough, h2]
  · rw [if_neg h2, Option.map_eq_none_iff, List.find?_eq_none]
    intro i _
    simp [hthrough, h2]

/-- The first chip has a request at the input of the line that is to be taken. -/
theorem Reflects.master_request (h : Reflects base s l) :
    s.master.request s.lines = (arbiter.next l).map inputOf := by
  have hlines : ∀ i < 8, s.lines.testBit i = if i = 2 then
      (s.slave.request s.slave.irr).isSome else l.pending i := by
    intro i hi
    unfold Pair.lines
    by_cases hsome : (s.slave.request s.slave.irr).isSome
    · rw [if_pos hsome, Nat.testBit_or, h.master.irr i hi, testBit_bit, hsome, Pair.wire]
      by_cases h2 : i = 2
      · simp [h2]
      · simp [h2, Ne.symm h2]
    · rw [if_neg hsome, h.master.irr i hi]
      by_cases h2 : i = 2
      · rw [if_pos h2, h2, h.wire]
        simpa using hsome
      · rw [if_neg h2]
  rw [h.master.request hlines]
  show ([0, 1] ++ [2] ++ [3, 4, 5, 6, 7]).find? _ = _
  have hout : ∀ i ∈ [0, 1] ++ [3, 4, 5, 6, 7], i < 8 ∧ i ≠ 2 := by decide
  refine find?_cascade inputOf (fun i hi => ?_) ?_ (fun i hi => if_pos (hout i hi).1)
    fun i hi => ?_
  · obtain ⟨hlt, hne⟩ := hout i hi
    simp [arbiter, hlt, hne]
  · rw [find?_behind, h.slave_request, if_pos rfl]
    by_cases h2 : l.enabled 2 = true
    · simp [h2]
    · simp [h2]
  · obtain ⟨j, -, rfl⟩ := List.mem_map.mp hi
    exact if_neg (by omega)

theorem Reflects.slave_next (h : Reflects base s l) (hnext : arbiter.next l = some i)
    (hi : 8 ≤ i) : s.slave.request s.slave.irr = some (i - 8) := by
  have hout : i ∉ [0, 1] ++ [3, 4, 5, 6, 7] := by
    simp
    omega
  have hbehind := find?_sub hnext hout
  rw [find?_behind] at hbehind
  by_cases h2 : l.enabled 2 = true
  · rw [if_pos h2, ← h.slave_request, Option.map_eq_some_iff] at hbehind
    obtain ⟨j, hj, rfl⟩ := hbehind
    exact hj
  · rw [if_neg h2] at hbehind
    cases hbehind

section Update

variable {f : Nat → Bool} {b : Bool}

theorem update_low (hlt : irq < 8) (i : Nat) : Function.update f irq b (i + 8) = f (i + 8) :=
  Function.update_of_ne (by omega) b f

theorem update_high (hle : 8 ≤ irq) (hi : i < 8) : Function.update f irq b i = f i :=
  Function.update_of_ne (by omega) b f

theorem update_high_add (hle : 8 ≤ irq) (i : Nat) :
    Function.update f irq b (i + 8) = if i = irq - 8 then b else f (i + 8) := by
  rw [Function.update_apply]
  exact if_congr (by omega) rfl rfl

end Update

/-- A line of the first chip is nothing to the second, and the other way round. -/
theorem ChipOk.congr (h : ChipOk c v k en pe) {en' pe' : Nat → Bool}
    (hen : ∀ i < 8, en' i = en i) (hpe : ∀ i < 8, pe' i = pe i) : ChipOk c v k en' pe' := by
  refine ⟨fun i hi => ?_, fun i hi => ?_, h.isr, h.vector, h.cascade, h.autoEoi, h.mode86,
    h.expects⟩
  · rw [hen i hi, h.imr i hi]
  · rw [hpe i hi, h.irr i hi]

/-- The driver reads the mask of the chip of a line, changes its bit and writes it back. -/
theorem Reflects.setMask (h : Reflects base s l) (op : Nat → Nat → Nat) (b : Bool)
    (hop : ∀ {c v k en pe j en'}, ChipOk c v k en pe →
      (∀ i < 8, en' i = if i = j then b else en i) →
      ChipOk (c.writeData (op c.imr j % 2 ^ 8)) v k en' pe) :
    Reflects base (__ioWrite8 (if irq < 8 then 0x21 else 0xa1)
      (op (__ioRead8 (if irq < 8 then 0x21 else 0xa1) s) (if irq < 8 then irq else irq - 8)) s)
      { l with enabled := Function.update l.enabled irq b } := by
  by_cases hlt : irq < 8
  · rw [if_pos hlt, if_pos hlt]
    exact ⟨hop h.master fun i _ => Function.update_apply l.enabled irq b i,
      h.slave.congr (fun i _ => update_low hlt i) fun _ _ => rfl, h.wire⟩
  · rw [if_neg hlt, if_neg hlt]
    exact ⟨h.master.congr (fun i hi => update_high (not_lt.mp hlt) hi) fun _ _ => rfl,
      hop h.slave fun i _ => update_high_add (not_lt.mp hlt) i, h.wire⟩

theorem Reflects.raise (h : Reflects base s l) (hwire : irq ≠ 2) :
    Reflects base (s.raise irq) { l with pending := Function.update l.pending irq true } := by
  have h2 : Function.update l.pending irq true 2 = false := by
    rw [Function.update_of_ne (Ne.symm hwire), h.wire]
  unfold Pair.raise
  by_cases hlt : irq < 8
  · rw [if_pos hlt]
    exact ⟨h.master.edge fun i _ => Function.update_apply l.pending irq true i,
      h.slave.congr (fun _ _ => rfl) fun i _ => update_low hlt i, h2⟩
  · rw [if_neg hlt]
    exact ⟨h.master.congr (fun _ _ => rfl) fun i hi => update_high (not_lt.mp hlt) hi,
      h.slave.edge fun i _ => update_high_add (not_lt.mp hlt) i, h2⟩

/-- The vector is that of the line the arbiter takes. -/
theorem Reflects.acknowledge (h : Reflects base s l) :
    s.acknowledge.1 = (arbiter.step l .acknowledge).1.map (vectorOf base) ∧
      Reflects base s.acknowledge.2 (arbiter.step l .acknowledge).2 := by
  have hrequest := h.master_request
  have hcascade : ∀ i, s.master.cascade.testBit i = decide (i = 2) := fun i => by
    rw [h.master.cascade]
    show (1 <<< 2).testBit i = _
    rw [testBit_bit]
    exact decide_eq_decide.mpr eq_comm
  unfold Pair.acknowledge Arbiter.step
  cases hnext : arbiter.next l with
  | none =>
    rw [hnext] at hrequest
    rw [hrequest]
    exact ⟨rfl, h⟩
  | some irq =>
    rw [hnext, Option.map_some] at hrequest
    have h2 : Function.update l.pending irq false 2 = false := by
      rw [Function.update_apply, h.wire, ite_self]
    by_cases hlt : irq < 8
    · have hne : irq ≠ 2 := fun he => by
        obtain ⟨-, hp, -⟩ := arbiter.next_some hnext
        rw [he, h.wire] at hp
        cases hp
      have hinput : inputOf irq = irq := if_pos hlt
      rw [hinput] at hrequest
      simp only [hrequest, hcascade, hne, decide_false, Bool.false_eq_true, if_false]
      refine ⟨?_, h.master.serve fun i _ => Function.update_apply l.pending irq false i,
        h.slave.congr (fun _ _ => rfl) fun i _ => update_low hlt i, h2⟩
      rw [h.master.answer, Option.map_some, vectorOf, if_pos hlt]
    · have hinput : inputOf irq = 2 := if_neg hlt
      have hle : 8 ≤ irq := not_lt.mp hlt
      rw [hinput] at hrequest
      simp only [hrequest, hcascade, decide_true, if_true, h.slave_next hnext hle]
      refine ⟨?_, h.master.serve fun i hi => ?_,
        h.slave.serve fun i _ => update_high_add hle i, h2⟩
      · rw [h.slave.cascade, if_pos rfl, h.slave.answer, Option.map_some, vectorOf, if_neg hlt]
      · -- the wire is no request of the first chip itself
        show Function.update l.pending irq false i = _
        rw [update_high hle hi]
        by_cases hi2 : i = 2
        · rw [if_pos hi2, hi2, h.wire]
        · rw [if_neg hi2]

/-! ## Runs -/

/-- The driver asserts that a line is one of sixteen. -/
def InRange : LineEvent Nat → Prop
  | .mask irq | .unmask irq => irq ≤ 15
  | .raise _ | .acknowledge => True

/-- No device is at the input of the second chip. -/
def Wired : LineEvent Nat → Prop
  | .raise irq => irq ≤ 15 ∧ irq ≠ 2
  | _ => True

theorem Reflects.event (h : Reflects base s l) {e : LineEvent Nat} (hwired : Wired e) :
    (InRange e → ∃ s', runEvent s e = some ((arbiter.step l e).1.map (vectorOf base), s') ∧
      Reflects base s' (arbiter.step l e).2) ∧
    (¬ InRange e → runEvent s e = none) := by
  cases e with
  | mask irq =>
    refine ⟨fun hirq => ⟨_, ?_, h.setMask (fun r j => r ||| 1 <<< j) false
      fun hc hen => hc.mask hen⟩, fun hirq => ?_⟩
    · exact congrArg (Option.map fun s => (none, s)) (if_pos (show irq ≤ 15 from hirq))
    · exact congrArg (Option.map fun s => (none, s)) (if_neg (show ¬ irq ≤ 15 from hirq))
  | unmask irq =>
    refine ⟨fun hirq => ⟨_, ?_, h.setMask (fun r j => r &&& (0xffffffff ^^^ 1 <<< j)) true
      fun hc hen => hc.unmask hen⟩, fun hirq => ?_⟩
    · exact congrArg (Option.map fun s => (none, s)) (if_pos (show irq ≤ 15 from hirq))
    · exact congrArg (Option.map fun s => (none, s)) (if_neg (show ¬ irq ≤ 15 from hirq))
  | raise irq => exact ⟨fun _ => ⟨_, rfl, h.raise hwired.2⟩, fun hirq => absurd trivial hirq⟩
  | acknowledge =>
    obtain ⟨hvector, hreflects⟩ := h.acknowledge
    refine ⟨fun _ => ⟨_, ?_, hreflects⟩, fun hirq => absurd trivial hirq⟩
    rw [← hvector]
    rfl

theorem Reflects.events : ∀ (es : List (LineEvent Nat)) (s : Pair) (l : Lines Nat),
    Reflects base s l → (∀ e ∈ es, Wired e) →
    ((∀ e ∈ es, InRange e) → ∃ s',
      runEvents es s = some ((arbiter.run es l).1.map (vectorOf base), s') ∧
      Reflects base s' (arbiter.run es l).2) ∧
    ((∃ e ∈ es, ¬ InRange e) → runEvents es s = none) := by
  intro es
  induction es with
  | nil =>
    intro s l h _
    exact ⟨fun _ => ⟨s, rfl, h⟩, fun ⟨e, he, _⟩ => by cases he⟩
  | cons e es ih =>
    intro s l h hwired
    obtain ⟨hin, hout⟩ := h.event (hwired e List.mem_cons_self)
    have hrest := fun s' h' => ih s' (arbiter.step l e).2 h' fun e' he' =>
      hwired e' (List.mem_cons_of_mem e he')
    rw [runEvents]
    by_cases he : InRange e
    · obtain ⟨s', hrun, h'⟩ := hin he
      obtain ⟨hins, houts⟩ := hrest s' h'
      rw [hrun, Option.bind_some]
      refine ⟨fun hall => ?_, fun ⟨e', he', hne⟩ => ?_⟩
      · obtain ⟨s'', hruns, h''⟩ := hins fun e' he' => hall e' (List.mem_cons_of_mem e he')
        refine ⟨s'', ?_, h''⟩
        rw [hruns, Option.map_some, Arbiter.run, List.map_append, Option.toList_map]
      · rcases List.mem_cons.mp he' with rfl | hmem
        · exact absurd he hne
        · rw [houts ⟨e', hmem, hne⟩]
          rfl
    · rw [hout he]
      exact ⟨fun hall => absurd (hall e List.mem_cons_self) he, fun _ => rfl⟩

section Runs

variable {es : List (LineEvent Nat)} {vectors : List Nat}

/--
**The two chips and their driver are one arbiter.** Whatever state the chips were in, behind
`pic_8259_init` every run of calls, requests and acknowledgements gives the processor the vectors
of the lines that the arbiter takes, and leaves the chips with its masks and requests and nothing
in service; a run halts just if a line is none of sixteen.
-/
theorem run_refines (base : Nat) (s : Pair) (hwired : ∀ e ∈ es, Wired e) :
    ((∀ e ∈ es, InRange e) → ∃ s', runEvents es (pic8259Init base s)
        = some ((arbiter.run es initLines).1.map (vectorOf base), s') ∧
      Reflects base s' (arbiter.run es initLines).2) ∧
    ((∃ e ∈ es, ¬ InRange e) → runEvents es (pic8259Init base s) = none) :=
  Reflects.events es _ _ (reflects_init base s) hwired

/-- Both chips before anything is written to them. -/
def resetPair : Pair :=
  let c : Chip := ⟨0, 0xff, 0xff, 0, 0, false, false, false, false, .ocw1⟩
  ⟨c, c⟩

/-- Line 8 comes before line 3, and a line 16 halts the run. -/
theorem run_refines_small : (∃ s', runEvents
      [.unmask 3, .unmask 8, .raise 3, .raise 8, .acknowledge, .acknowledge, .acknowledge]
      (pic8259Init 0x20 resetPair) = some ([0x28, 0x23], s')) ∧
    runEvents [.unmask 16, .acknowledge] (pic8259Init 0x20 resetPair) = none := by
  refine ⟨?_, (run_refines 0x20 resetPair ?_).2 ⟨.unmask 16, by simp, by simp [InRange]⟩⟩
  · have hrange : ∀ e ∈ ([.unmask 3, .unmask 8, .raise 3, .raise 8, .acknowledge, .acknowledge,
        .acknowledge] : List (LineEvent Nat)), InRange e := by simp [InRange]
    obtain ⟨s', hrun, -⟩ := (run_refines 0x20 resetPair (by simp [Wired])).1 hrange
    exact ⟨s', hrun⟩
  · simp [Wired]

theorem reflects_of_run (base : Nat) (s : Pair) (hwired : ∀ e ∈ es, Wired e)
    (hrun : runEvents es (pic8259Init base s) = some (vectors, s')) :
    vectors = (arbiter.run es initLines).1.map (vectorOf base) ∧
      Reflects base s' (arbiter.run es initLines).2 := by
  obtain ⟨hin, hout⟩ := Reflects.events es _ _ (reflects_init base s) hwired
  by_cases hrange : ∀ e ∈ es, InRange e
  · obtain ⟨t, hsome, h⟩ := hin hrange
    rw [hrun] at hsome
    obtain ⟨rfl, rfl⟩ := Prod.mk.inj (Option.some.inj hsome)
    exact ⟨rfl, h⟩
  · push Not at hrange
    rw [hout hrange] at hrun
    cases hrun

theorem order_cases (h : i ∈ arbiter.order) : i ≤ 15 ∧ i ≠ 2 := by
  have hall : ∀ i ∈ arbiter.order, i ≤ 15 ∧ i ≠ 2 := by decide
  exact hall i h

theorem vectorOf_inj (hi : i ≤ 15) (hj : j ≤ 15) (h : vectorOf base i = vectorOf base j) :
    i = j := by
  unfold vectorOf at h
  rw [and_0xf8] at h
  split at h <;> split at h <;> omega

/-- Whether a line has a request that waits in its chip. -/
def Pair.waits (irq : Nat) (s : Pair) : Bool :=
  if irq < 8 then s.master.irr.testBit irq else s.slave.irr.testBit (irq - 8)

theorem Reflects.waits (h : Reflects base s l) (hirq : irq ≤ 15) : s.waits irq = l.pending irq := by
  unfold Pair.waits
  by_cases hlt : irq < 8
  · rw [if_pos hlt, h.master.irr irq hlt]
  · rw [if_neg hlt, h.slave.irr (irq - 8) (by omega), Nat.sub_add_cancel (not_lt.mp hlt)]

/-- The vectors of a line are as many as the times the arbiter takes it. -/
theorem count_vectorOf (hirq : irq ≤ 15) :
    ((arbiter.run es l).1.map (vectorOf base)).count (vectorOf base irq)
      = (arbiter.run es l).1.count irq := by
  rw [List.count_eq_countP, List.countP_map, List.count_eq_countP]
  refine List.countP_congr fun i hi => ?_
  obtain ⟨hle, -⟩ := order_cases (arbiter.mem_order_of_mem_run es l hi)
  simp only [Function.comp_apply, beq_iff_eq]
  exact ⟨fun h => vectorOf_inj hle hirq h, fun h => h ▸ rfl⟩

/--
**No interrupt is lost, made up or let through a mask.** Of the requests of a line that found
none waiting, each was delivered once or still waits; a line that the driver never unmasked is
never delivered; and fifteen acknowledgements leave none that could be.
-/
theorem deliveries_of_run (base : Nat) (s : Pair) (hwired : ∀ e ∈ es, Wired e)
    (hrun : runEvents es (pic8259Init base s) = some (vectors, s')) :
    (∀ irq ≤ 15, irq ≠ 2 →
      vectors.count (vectorOf base irq) + (s'.waits irq).toNat = arbiter.fresh irq es initLines ∧
      (.unmask irq ∉ es → vectorOf base irq ∉ vectors)) ∧
    ∃ more s'', runEvents (List.replicate 15 .acknowledge) s' = some (more, s'') ∧
      s''.acknowledge.1 = none := by
  obtain ⟨rfl, h⟩ := reflects_of_run base s hwired hrun
  refine ⟨fun irq hirq hne => ⟨?_, fun hmask hmem => ?_⟩, ?_⟩
  · have hcount := arbiter.run_count irq es initLines
    rw [count_vectorOf hirq, h.waits hirq, hcount]
    exact Nat.zero_add _
  · obtain ⟨i, hi, heq⟩ := List.mem_map.mp hmem
    obtain ⟨hle, -⟩ := order_cases (arbiter.mem_order_of_mem_run es initLines hi)
    obtain rfl := vectorOf_inj hle hirq heq
    refine arbiter.not_mem_run (fun enabled hen => ?_) es initLines (decide_eq_false hne) hmask hi
    simp [arbiter, hen]
  · have hack : ∀ e ∈ List.replicate 15 (.acknowledge : LineEvent Nat), Wired e ∧ InRange e :=
      fun e he => by
        obtain rfl := List.eq_of_mem_replicate he
        exact ⟨trivial, trivial⟩
    obtain ⟨s'', hmore, h''⟩ := (Reflects.events _ s' _ h fun e he => (hack e he).1).1
      fun e he => (hack e he).2
    refine ⟨_, s'', hmore, ?_⟩
    have hnone : arbiter.next (arbiter.run (List.replicate 15 .acknowledge)
        (arbiter.run es initLines).2).2 = none :=
      arbiter.next_run_acknowledge 15 _ (List.length_filter_le _ arbiter.order)
    rw [h''.acknowledge.1, Arbiter.step, hnone]
    rfl

/-- A request that finds one waiting is delivered with it. -/
theorem deliveries_of_run_small : ∃ vectors s',
    runEvents [.raise 1, .raise 1, .unmask 1, .acknowledge, .acknowledge]
      (pic8259Init 0x20 resetPair) = some (vectors, s') ∧
    vectors.count 0x21 + (s'.waits 1).toNat = 1 ∧ 0x20 ∉ vectors := by
  obtain ⟨vectors, s', hrun⟩ : ∃ vectors s',
      runEvents [.raise 1, .raise 1, .unmask 1, .acknowledge, .acknowledge]
        (pic8259Init 0x20 resetPair) = some (vectors, s') := ⟨_, _, rfl⟩
  obtain ⟨hlines, -⟩ := deliveries_of_run 0x20 resetPair (by simp [Wired]) hrun
  exact ⟨vectors, s', hrun, (hlines 1 (by decide) (by decide)).1,
    (hlines 0 (by decide) (by decide)).2 (by simp)⟩

/--
**The only interrupt of a device is the tick.** With the handlers of `int_init` and only line 0
unmasked, as `main` has it, every vector that the processor gets is `0x20` and its gate leads to
`systick_handler`.
-/
theorem ticks_of_run {systickHandler syscallHandler : Nat} (handler : Nat) (dsc m : Mem)
    {m' : Mem} (hsystick : systickHandler < 2 ^ 64) (hsyscall : syscallHandler < 2 ^ 64)
    (hm : Segments.runCalls (Segments.intInitCalls systickHandler syscallHandler)
      (Segments.bootTables handler dsc m) = some m')
    (s : Pair) (hwired : ∀ e ∈ es, Wired e) (hmain : ∀ irq, .unmask irq ∈ es → irq = 0)
    (hrun : runEvents es (pic8259Init 0x20 s) = some (vectors, s')) :
    ∀ v ∈ vectors, v = 0x20 ∧ Segments.gateAt m' v
      = Segments.handlerGate systickHandler Segments.dscTypeInit := by
  intro v hv
  obtain ⟨rfl, -⟩ := reflects_of_run 0x20 s hwired hrun
  obtain ⟨irq, hirq, rfl⟩ := List.mem_map.mp hv
  obtain ⟨-, hne⟩ := order_cases (arbiter.mem_order_of_mem_run es initLines hirq)
  have hzero : irq = 0 := by
    by_contra hnz
    refine arbiter.not_mem_run (fun enabled hen => ?_) es initLines (decide_eq_false hne)
      (fun hmask => hnz (hmain irq hmask)) hirq
    simp [arbiter, hen]
  subst hzero
  have hvalid : ∀ c ∈ Segments.intInitCalls systickHandler syscallHandler, c.Valid := by
    unfold Segments.intInitCalls
    rw [List.forall_mem_cons, List.forall_mem_singleton]
    exact ⟨⟨by decide, hsystick⟩, by decide, hsyscall⟩
  have hvector : vectorOf 0x20 0 = 0x20 := rfl
  rw [hvector, Segments.gateAt_of_run hvalid hm (by decide)]
  exact ⟨rfl, rfl⟩

theorem ticks_of_run_small : ∃ m' vectors s',
    runEvents [.unmask 0, .raise 0, .raise 9, .acknowledge, .acknowledge]
      (pic8259Init 0x20 resetPair) = some (vectors, s') ∧
    ∀ v ∈ vectors, v = 0x20 ∧ Segments.gateAt m' v
      = Segments.handlerGate 0xffff900000103000 Segments.dscTypeInit := by
  obtain ⟨m', hm⟩ := Segments.intInitCalls_run (Segments.bootTables 0x2000 (fun _ => 0) fun _ => 0)
  obtain ⟨vectors, s', hrun⟩ : ∃ vectors s',
      runEvents [.unmask 0, .raise 0, .raise 9, .acknowledge, .acknowledge]
        (pic8259Init 0x20 resetPair) = some (vectors, s') := ⟨_, _, rfl⟩
  exact ⟨m', vectors, s', hrun, ticks_of_run 0x2000 (fun _ => 0) (fun _ => 0) (by decide)
    (by decide) hm resetPair (by simp [Wired]) (by simp) hrun⟩

end Runs

end Pic

end Raincloud
