import Raincloud.Arch.Segments

/-!
# The tables behind `init_dsc_tables`

What a selector, a vector and a port stand for once the tables are filled, whatever was in the
memory before. The segments are described one by one and the description of the whole table is
put together along the list of them.
-/

set_option linter.style.nameCheck false

namespace Raincloud

open Infra

namespace Segments

variable {m m' : Mem} {a seg dpl l v : Nat} {f : Field}

/-! ## One descriptor -/

/-- The present bit and the segment of a descriptor. -/
def descriptorAt (m : Mem) (a : Nat) : Nat × Segment :=
  (m.field a SegDsc.p,
    { s := m.field a SegDsc.s
      type := m.field a SegDsc.type
      dpl := m.field a SegDsc.dpl
      l := m.field a SegDsc.l
      d_b := m.field a SegDsc.d_b })

theorem descriptorAt_congr (h : ∀ x, a ≤ x → x < a + 8 → m' x = m x) :
    descriptorAt m' a = descriptorAt m a := by
  have hfield : ∀ f : Field, f.offset + f.bytes ≤ 8 → m'.field a f = m.field a f :=
    fun f hf => Mem.field_congr fun i h1 h2 => h i (by omega) (by omega)
  unfold descriptorAt
  rw [hfield SegDsc.p (by decide), hfield SegDsc.s (by decide), hfield SegDsc.type (by decide),
    hfield SegDsc.dpl (by decide), hfield SegDsc.l (by decide), hfield SegDsc.d_b (by decide)]

/-- Memory that is zero from `a` on. -/
def ZeroFrom (m : Mem) (a n : Nat) : Prop := ∀ x, a ≤ x → x < a + n → m x = 0

theorem ZeroFrom.field {n : Nat} (h : ZeroFrom m a n) (hf : f.offset + f.bytes ≤ n) :
    m.field a f = 0 :=
  Mem.field_eq_zero fun x h1 h2 => h x (by omega) (by omega)

theorem dataSeg_sameOutside (dpl seg : Nat) (m : Mem) :
    Mem.SameOutside (Set.Ico seg (seg + 8)) m (dataSeg dpl seg m) :=
  ((((Mem.SameOutside.refl _ m).setField (by decide)).setField (by decide)).setField
    (by decide)).setField (by decide)

theorem codeSeg_sameOutside (l dpl seg : Nat) (m : Mem) :
    Mem.SameOutside (Set.Ico seg (seg + 8)) m (codeSeg l dpl seg m) :=
  (((((Mem.SameOutside.refl _ m).setField (by decide)).setField (by decide)).setField
    (by decide)).setField (by decide)).setField (by decide)

theorem tssDsc_sameOutside (seg : Nat) (m : Mem) :
    Mem.SameOutside (Set.Ico seg (seg + 16)) m (tssDsc seg m) :=
  ((((((((Mem.SameOutside.refl _ m).setField (by decide)).setField (by decide)).setField
    (by decide)).setField (by decide)).setField (by decide)).setField (by decide)).setField
    (by decide)).setField (by decide)

theorem descriptorAt_dataSeg (h : ZeroFrom m seg 8) (hdpl : dpl < 4) :
    descriptorAt (dataSeg dpl seg m) seg = (1, ⟨1, segTDRWA, dpl, 0, 0⟩) := by
  have hl : m.field seg SegDsc.l = 0 := h.field (by decide)
  have hd_b : m.field seg SegDsc.d_b = 0 := h.field (by decide)
  have hmod : dpl % 2 ^ SegDsc.dpl.width = dpl := Nat.mod_eq_of_lt hdpl
  unfold descriptorAt dataSeg
  simp (disch := decide) only [Mem.field_setField, Mem.field_setField_of_apart, hl, hd_b, hmod]
  rfl

theorem descriptorAt_codeSeg (h : ZeroFrom m seg 8) (hl : l < 2) (hdpl : dpl < 4) :
    descriptorAt (codeSeg l dpl seg m) seg = (1, ⟨1, segTCExRA, dpl, l, 0⟩) := by
  have hd_b : m.field seg SegDsc.d_b = 0 := h.field (by decide)
  have hmod : dpl % 2 ^ SegDsc.dpl.width = dpl := Nat.mod_eq_of_lt hdpl
  have hlmod : l % 2 ^ SegDsc.l.width = l := Nat.mod_eq_of_lt hl
  unfold descriptorAt codeSeg
  simp (disch := decide) only [Mem.field_setField, Mem.field_setField_of_apart, hd_b, hmod, hlmod]
  rfl

theorem descriptorAt_tssDsc (h : ZeroFrom m seg 16) :
    descriptorAt (tssDsc seg m) seg = (1, ⟨0, dscTypeTss, 0, 0, 0⟩) := by
  have hzero : ∀ f : Field, f.offset + f.bytes ≤ 16 → m.field seg f = 0 := fun f hf => h.field hf
  unfold descriptorAt tssDsc
  simp (disch := decide) only [Mem.field_setField, Mem.field_setField_of_apart, hzero]
  rfl

theorem taskState_tssDsc (h : ZeroFrom m seg 16) (hseg : seg = gdtBase + v / 2 ^ 3 * 8) :
    taskState (tssDsc seg m) v = (tssBase + phyMapBase, tssSize - 1) := by
  have hzero : ∀ f : Field, f.offset + f.bytes ≤ 16 → m.field seg f = 0 := fun f hf => h.field hf
  unfold taskState tssDsc
  rw [← hseg]
  simp (disch := decide) only [Mem.field_setField, Mem.field_setField_of_apart, hzero]
  rfl

/-! ## The table of segments -/

/-- A function of the source writes this segment, and nothing but its descriptor. -/
structure Describes (write : Nat → Mem → Mem) (d : Segment) : Prop where
  inside : ∀ seg m, Mem.SameOutside (Set.Ico seg (seg + 8)) m (write seg m)
  descriptor : ∀ seg m, ZeroFrom m seg 8 → descriptorAt (write seg m) seg = (1, d)

/-- The segments are described by the list, one after another. -/
theorem writeSegs_describes {writes : List (Nat → Mem → Mem)} {ds : List Segment}
    (h : List.Forall₂ Describes writes ds) :
    ∀ seg m, ZeroFrom m seg (8 * ds.length) →
      Mem.SameOutside (Set.Ico seg (seg + 8 * ds.length)) m (writeSegs seg writes m) ∧
      ∀ k d, ds[k]? = some d →
        descriptorAt (writeSegs seg writes m) (seg + 8 * k) = (1, d) := by
  induction h with
  | nil => exact fun seg m _ => ⟨.refl _ _, fun k d hk => by cases hk⟩
  | @cons write d writes ds hd _ ih =>
    intro seg m hzero
    rw [List.length_cons] at hzero ⊢
    have hkeep : ∀ x, seg + 8 ≤ x → write seg m x = m x := fun x hx =>
      hd.inside seg m x fun hin => by
        have hlt := hin.2
        omega
    have hrest : ZeroFrom (write seg m) (seg + 8) (8 * ds.length) := fun x h1 h2 => by
      rw [hkeep x h1]
      exact hzero x (by omega) (by omega)
    obtain ⟨hsame, hdesc⟩ := ih (seg + 8) (write seg m) hrest
    refine ⟨((hd.inside seg m).mono ?_).trans (hsame.mono ?_), fun k d' hk => ?_⟩
    · exact Set.Ico_subset_Ico_right (by omega)
    · exact Set.Ico_subset_Ico (by omega) (by omega)
    · cases k with
      | zero =>
        obtain rfl : d = d' := Option.some.inj hk
        rw [writeSegs, Nat.mul_zero, Nat.add_zero,
          ← hd.descriptor seg m fun x h1 h2 => hzero x h1 (by omega)]
        exact descriptorAt_congr fun x h1 h2 => hsame x fun hin => by
          have hle := hin.1
          omega
      | succ k =>
        rw [List.getElem?_cons_succ] at hk
        rw [writeSegs, ← hdesc k d' hk]
        congr 1
        omega

/-- The twelve segments of `__gdt_init`. -/
def segments : List Segment :=
  [⟨1, segTDRWA, 0, 0, 0⟩, ⟨1, segTDRWA, 1, 0, 0⟩, ⟨1, segTDRWA, 2, 0, 0⟩, ⟨1, segTDRWA, 3, 0, 0⟩,
    ⟨1, segTCExRA, 0, 1, 0⟩, ⟨1, segTCExRA, 1, 1, 0⟩, ⟨1, segTCExRA, 2, 1, 0⟩,
    ⟨1, segTCExRA, 3, 1, 0⟩, ⟨1, segTCExRA, 0, 0, 0⟩, ⟨1, segTCExRA, 1, 0, 0⟩,
    ⟨1, segTCExRA, 2, 0, 0⟩, ⟨1, segTCExRA, 3, 0, 0⟩]

theorem describes_dataSeg (h : dpl < 4) : Describes (dataSeg dpl) ⟨1, segTDRWA, dpl, 0, 0⟩ :=
  ⟨dataSeg_sameOutside dpl, fun _ _ hzero => descriptorAt_dataSeg hzero h⟩

theorem describes_codeSeg (hl : l < 2) (h : dpl < 4) :
    Describes (codeSeg l dpl) ⟨1, segTCExRA, dpl, l, 0⟩ :=
  ⟨codeSeg_sameOutside l dpl, fun _ _ hzero => descriptorAt_codeSeg hzero hl h⟩

theorem describes_segments : List.Forall₂ Describes
    [dataSeg 0, dataSeg 1, dataSeg 2, dataSeg 3,
      codeSeg 1 0, codeSeg 1 1, codeSeg 1 2, codeSeg 1 3,
      codeSeg 0 0, codeSeg 0 1, codeSeg 0 2, codeSeg 0 3] segments := by
  unfold segments
  refine .cons (describes_dataSeg ?_) (.cons (describes_dataSeg ?_)
    (.cons (describes_dataSeg ?_) (.cons (describes_dataSeg ?_)
    (.cons (describes_codeSeg ?_ ?_) (.cons (describes_codeSeg ?_ ?_)
    (.cons (describes_codeSeg ?_ ?_) (.cons (describes_codeSeg ?_ ?_)
    (.cons (describes_codeSeg ?_ ?_) (.cons (describes_codeSeg ?_ ?_)
    (.cons (describes_codeSeg ?_ ?_) (.cons (describes_codeSeg ?_ ?_) .nil)))))))))))
  all_goals decide

/-- What `__gdt_init` leaves in the table. -/
structure GdtReady (m : Mem) : Prop where
  segment : ∀ k d, segments[k]? = some d → descriptorAt m (8 + 8 * k) = (1, d)
  task : descriptorAt m (8 * 13) = (1, ⟨0, dscTypeTss, 0, 0, 0⟩)
  taskState : taskState m 0x68 = (tssBase + phyMapBase, tssSize - 1)
  /-- No other descriptor is present. -/
  absent : ∀ k, k = 0 ∨ 14 ≤ k → k < 8192 → m.field (8 * k) SegDsc.p = 0

theorem field_p_tssDsc (seg : Nat) (m : Mem) :
    (tssDsc seg m).field (seg + 8) SegDsc.p = m.field (seg + 8) SegDsc.p := by
  have happart : ∀ f : Field, f.offset + f.bytes ≤ 12 → ∀ (m : Mem) v,
      (m.setField seg f v).field (seg + 8) SegDsc.p = m.field (seg + 8) SegDsc.p :=
    fun f hf m v => Mem.field_setField_of_disjoint (.inr (by
      rw [show SegDsc.p.offset = 5 from rfl]
      omega))
  unfold tssDsc
  simp (disch := decide) only [happart]

theorem gdtInit_ready (m : Mem) : GdtReady (__gdtInit m) := by
  have hfill : ∀ a n, a + n ≤ gdtSize → ZeroFrom (m.fill gdtBase 0 gdtSize) a n :=
    fun a n hn x h1 h2 => by
      rw [Mem.fill_apply]
      exact if_pos ⟨Nat.zero_le x, by
        rw [gdtBase]
        omega⟩
  obtain ⟨hsame, hdesc⟩ := writeSegs_describes describes_segments 8 (m.fill gdtBase 0 gdtSize)
    (hfill _ _ (by decide))
  rw [show segments.length = 12 from rfl] at hsame
  generalize ht : writeSegs 8 _ (m.fill gdtBase 0 gdtSize) = t at hsame hdesc
  have hinit : __gdtInit m = tssDsc (8 * 13) t := by
    rw [← ht]
    rfl
  -- Behind the segments the memory is still zero, and so it is in front of them.
  have hrest : ∀ a n, a + n ≤ 8 ∨ 104 ≤ a → a + n ≤ gdtSize → ZeroFrom t a n :=
    fun a n ha hn x h1 h2 => by
      rw [hsame x fun hin => by
        have h3 := hin.1
        have h4 := hin.2
        omega]
      exact hfill a n hn x h1 h2
  have htask : ZeroFrom t (8 * 13) 16 := hrest _ _ (.inr (by decide)) (by decide)
  have hout : ∀ x, x < 8 * 13 ∨ 8 * 13 + 16 ≤ x → tssDsc (8 * 13) t x = t x := fun x hx =>
    tssDsc_sameOutside (8 * 13) t x fun hin => by
      have h1 := hin.1
      have h2 := hin.2
      omega
  rw [hinit]
  refine ⟨fun k d hk => ?_, descriptorAt_tssDsc htask, taskState_tssDsc htask rfl,
    fun k hk hlt => ?_⟩
  · have hlt : k < 12 := by
      obtain ⟨h, -⟩ := List.getElem?_eq_some_iff.mp hk
      exact h
    rw [← hdesc k d hk]
    exact descriptorAt_congr fun x h1 h2 => hout x (.inl (by omega))
  · have hsize : gdtSize = 65536 := rfl
    have hzero : t.field (8 * k) SegDsc.p = 0 :=
      (hrest (8 * k) 8 (by omega) (by omega)).field (by decide)
    rw [← hzero]
    by_cases h14 : k = 14
    · subst h14
      exact field_p_tssDsc (8 * 13) t
    · exact Mem.field_congr fun x h1 h2 => hout x (by
        rw [show SegDsc.p.offset = 5 from rfl] at h1 h2
        rw [show SegDsc.p.bytes = 1 from rfl] at h2
        omega)

/-- The segment that a selector stands for. -/
def segmentOf (sel : Nat) : Option Segment :=
  if sel / 2 ^ 2 % 2 = 1 ∨ sel / 2 ^ 3 = 0 then none
  else if sel / 2 ^ 3 = 13 then some ⟨0, dscTypeTss, 0, 0, 0⟩
  else segments[sel / 2 ^ 3 - 1]?

theorem segmentAt_of_descriptor {sel : Nat} {d : Segment} (hti : ¬ sel / 2 ^ 2 % 2 = 1)
    (hnull : sel / 2 ^ 3 ≠ 0) (hsel : sel < 2 ^ 16)
    (h : descriptorAt m (8 * (sel / 2 ^ 3)) = (1, d)) : segmentAt m sel = some d := by
  have haddr : gdtBase + sel / 2 ^ 3 * 8 = 8 * (sel / 2 ^ 3) := by
    rw [gdtBase, Nat.zero_add, Nat.mul_comm]
  have hsize : gdtSize = 65536 := rfl
  obtain ⟨hp, hd⟩ := Prod.mk.inj h
  unfold segmentAt
  rw [if_neg (by omega), haddr, if_neg (by rw [hp]; exact Nat.one_ne_zero)]
  exact congrArg some hd

theorem GdtReady.segmentAt (h : GdtReady m) {sel : Nat} (hsel : sel < 2 ^ 16) :
    segmentAt m sel = segmentOf sel := by
  have hlen : segments.length = 12 := rfl
  unfold segmentOf
  by_cases hnone : sel / 2 ^ 2 % 2 = 1 ∨ sel / 2 ^ 3 = 0
  · rw [if_pos hnone, Segments.segmentAt, if_pos (hnone.imp_right .inl)]
  · rw [if_neg hnone]
    push Not at hnone
    by_cases htask : sel / 2 ^ 3 = 13
    · rw [if_pos htask]
      refine segmentAt_of_descriptor hnone.1 hnone.2 hsel ?_
      rw [htask]
      exact h.task
    · rw [if_neg htask]
      cases hget : segments[sel / 2 ^ 3 - 1]? with
      | some d =>
        refine segmentAt_of_descriptor hnone.1 hnone.2 hsel ?_
        rw [← h.segment _ d hget]
        congr 1
        omega
      | none =>
        have hle := List.getElem?_eq_none_iff.mp hget
        have habsent := h.absent (sel / 2 ^ 3) (.inr (by omega)) (by omega)
        have haddr : gdtBase + sel / 2 ^ 3 * 8 = 8 * (sel / 2 ^ 3) := by
          rw [gdtBase, Nat.zero_add, Nat.mul_comm]
        have hsize : gdtSize = 65536 := rfl
        unfold Segments.segmentAt
        rw [if_neg (by omega), haddr, if_pos habsent]

/-- The table is the same where its memory is. -/
theorem GdtReady.congr (h : GdtReady m) (hsame : ∀ x < gdtSize, m' x = m x) : GdtReady m' := by
  have hsize : gdtSize = 65536 := rfl
  refine ⟨fun k d hk => ?_, ?_, ?_, fun k hk hlt => ?_⟩
  · have hlt : k < 12 := by
      obtain ⟨h, -⟩ := List.getElem?_eq_some_iff.mp hk
      exact h
    rw [← h.segment k d hk]
    exact descriptorAt_congr fun x h1 h2 => hsame x (by omega)
  · rw [← h.task]
    exact descriptorAt_congr fun x h1 h2 => hsame x (by omega)
  · have hfield : ∀ f : Field, f.offset + f.bytes ≤ 16 →
        m'.field (gdtBase + 0x68 / 2 ^ 3 * 8) f = m.field (gdtBase + 0x68 / 2 ^ 3 * 8) f :=
      fun f hf => Mem.field_congr fun i h1 h2 => hsame i (by
        rw [gdtBase] at h2
        omega)
    rw [← h.taskState]
    unfold Segments.taskState
    simp (disch := decide) only [hfield]
  · rw [← h.absent k hk hlt]
    refine Mem.field_congr fun x h1 h2 => hsame x ?_
    rw [show SegDsc.p.offset = 5 from rfl, show SegDsc.p.bytes = 1 from rfl] at h2
    omega

end Segments

end Raincloud
