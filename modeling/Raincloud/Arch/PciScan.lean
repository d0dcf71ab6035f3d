import Raincloud.Arch.Pci

/-!
# What `pci_init` finds

The loops take in the functions from the first slot on up to the first one that seems empty, and
the machine halts when they come to a slot that does not exist. That is all there is on the bus
just if the vendor ids are even and the functions stand without a gap, with a slot left behind
them.
-/

set_option linter.style.nameCheck false

namespace Raincloud

open Infra Infra.LinkStore

namespace Pci

variable {e : PciEnv} {s s' : PciState} {conf : ConfSpace} {dev func reg fuel : Nat} {p : Ptr}
  {ps : List Ptr} {slots : List (Nat × Nat)}

/-! ## Registers -/

theorem confAddr_eq (hfunc : func < 8) (hdev : dev < 32) (hreg : reg < 64) :
    1 <<< 31 ||| 0 <<< 16 ||| dev <<< 11 ||| func <<< 8 ||| reg <<< 2
      = 2 ^ 31 + (dev * 2 ^ 11 + (func * 2 ^ 8 + reg * 2 ^ 2)) := by
  have h2 : reg <<< 2 < 2 ^ 8 := by
    rw [Nat.shiftLeft_eq]
    omega
  have h8 : func <<< 8 + reg <<< 2 < 2 ^ 11 := by
    rw [Nat.shiftLeft_eq] at h2 ⊢
    omega
  have h11 : dev <<< 11 + (func <<< 8 + reg <<< 2) < 2 ^ 31 := by
    rw [Nat.shiftLeft_eq dev]
    omega
  rw [Nat.or_assoc, Nat.or_assoc, Nat.or_assoc, ← Nat.shiftLeft_add_eq_or_of_lt h2,
    ← Nat.shiftLeft_add_eq_or_of_lt h8, Nat.zero_shiftLeft, Nat.zero_or,
    ← Nat.shiftLeft_add_eq_or_of_lt h11]
  simp only [Nat.shiftLeft_eq, Nat.one_mul]

/-- The host bridge decodes the address. -/
theorem read_confAddr (hfunc : func < 8) (hdev : dev < 32) (hreg : reg < 64) :
    conf.read (1 <<< 31 ||| 0 <<< 16 ||| dev <<< 11 ||| func <<< 8 ||| reg <<< 2)
      = conf.word dev func reg := by
  rw [confAddr_eq hfunc hdev hreg, ConfSpace.read, if_pos (by omega)]
  congr 1
  all_goals omega

theorem __pciReadReg_ok (hdev : dev < 32) (hfunc : func < 8) {r : Nat} (hreg : r < 64) :
    ∃ addr, __pciReadReg 0 dev func r e s
      = .ok (e.conf.word dev func r, { s with confAddr := addr }) := by
  have h5 : dev >>> 5 = 0 := by rw [Nat.shiftRight_eq_div_pow]; omega
  have h3 : func >>> 3 = 0 := by rw [Nat.shiftRight_eq_div_pow]; omega
  have h6 : r >>> 6 = 0 := by rw [Nat.shiftRight_eq_div_pow]; omega
  refine ⟨1 <<< 31 ||| 0 <<< 16 ||| dev <<< 11 ||| func <<< 8 ||| r <<< 2, ?_⟩
  have hwrite : __pciConfAddrRegWrite 0 dev func r e s = .ok ((), { s with
      confAddr := 1 <<< 31 ||| 0 <<< 16 ||| dev <<< 11 ||| func <<< 8 ||| r <<< 2 }) := by
    unfold __pciConfAddrRegWrite
    rw [Program.bind_of_ok (Program.check_of h5), Program.bind_of_ok (Program.check_of h3),
      Program.bind_of_ok (Program.check_of h6)]
    rfl
  rw [← read_confAddr hfunc hdev hreg]
  unfold __pciReadReg
  rw [Program.bind_of_ok hwrite]
  rfl

/-- The first assertion fails. -/
theorem __pciReadReg_dev (hdev : 32 ≤ dev) : __pciReadReg 0 dev func reg e s = .error .halted := by
  have h5 : ¬ dev >>> 5 = 0 := by rw [Nat.shiftRight_eq_div_pow]; omega
  unfold __pciReadReg __pciConfAddrRegWrite
  rw [Program.bind_apply, Program.bind_apply, Program.check, if_neg h5]

/-- The second assertion fails. -/
theorem __pciReadReg_func (hdev : dev < 32) (hfunc : 8 ≤ func) :
    __pciReadReg 0 dev func reg e s = .error .halted := by
  have h5 : dev >>> 5 = 0 := by rw [Nat.shiftRight_eq_div_pow]; omega
  have h3 : ¬ func >>> 3 = 0 := by rw [Nat.shiftRight_eq_div_pow]; omega
  unfold __pciReadReg __pciConfAddrRegWrite
  rw [Program.bind_apply, Program.bind_of_ok (Program.check_of h5), Program.bind_apply,
    Program.check, if_neg h3]

/-- What the loops take for an empty slot: an odd word. -/
def ConfSpace.Odd (conf : ConfSpace) (dev func : Nat) : Bool := noDevice (conf.word dev func 0)

theorem ConfSpace.odd_iff : conf.Odd dev func = true ↔ conf.word dev func 0 % 2 = 1 := by
  unfold ConfSpace.Odd noDevice
  have hmask : (0xffff == 0xffff : Bool).toNat = 1 := rfl
  rw [hmask, Nat.and_one_is_mod, decide_eq_true_iff]
  omega

theorem emptySlot_ok (hdev : dev < 32) (hfunc : func < 8) :
    ∃ addr, emptySlot dev func e s = .ok (e.conf.Odd dev func, { s with confAddr := addr }) := by
  obtain ⟨addr, hrun⟩ := __pciReadReg_ok (e := e) (s := s) hdev hfunc (r := 0) (by decide)
  exact ⟨addr, Program.bind_of_ok hrun⟩

theorem emptySlot_error (h : __pciReadReg 0 dev func 0 e s = .error .halted) :
    emptySlot dev func e s = .error .halted := by
  unfold emptySlot
  rw [Program.bind_apply, h]

/-! ## A device -/

/-- The slot of a device. -/
def PciState.slot (s : PciState) (p : Ptr) : Nat × Nat :=
  ((s.devices p).device, (s.devices p).function)

/-- The devices on `pci_dev_list` have what the bus says. -/
structure BusList (conf : ConfSpace) (s : PciState) (ps : List Ptr) : Prop where
  ring : Ring s (.devList s.pciDevList) (ps.map .list)
  live : ∀ p ∈ ps, p ∈ s.live
  words : ∀ p ∈ ps, (s.devices p).bus = 0 ∧ ∀ reg < 16,
    (s.devices p).confHeader reg = conf.word (s.devices p).device (s.devices p).function reg

theorem BusList.congr (h : BusList conf s ps) (hlist : s'.pciDevList = s.pciDevList)
    (hnext : s'.next = s.next) (hprev : s'.prev = s.prev) (hlive : s'.live = s.live)
    (hdev : ∀ p ∈ ps, s'.devices p = s.devices p) : BusList conf s' ps := by
  refine ⟨?_, fun p hp => by rw [hlive]; exact h.live p hp, fun p hp => ?_⟩
  · rw [hlist]
    exact h.ring.congr fun r _ => ⟨congrFun hnext r, congrFun hprev r⟩
  · rw [hdev p hp]
    exact h.words p hp

theorem readHeader_ok (hdev : dev < 32) (hfunc : func < 8) : ∀ {n : Nat} {s : PciState}, n ≤ 16 →
    ∃ addr header, readHeader dev func p n e s
      = .ok ((), { s.setDevice p fun d => { d with confHeader := header } with confAddr := addr }) ∧
        ∀ reg < 16, header reg = if 16 - n ≤ reg then e.conf.word dev func reg
          else (s.devices p).confHeader reg
  | 0, s, _ => by
    refine ⟨s.confAddr, (s.devices p).confHeader, ?_, fun reg hreg => (if_neg (by omega)).symm⟩
    show Except.ok ((), s) = _
    simp [PciState.setDevice]
  | n + 1, s, hn => by
    obtain ⟨addr₁, hread⟩ :=
      __pciReadReg_ok (e := e) (s := s) hdev hfunc (r := 16 - (n + 1)) (by omega)
    obtain ⟨t, ht⟩ : ∃ t, t = PciState.setDevice p (fun d => { d with
      confHeader := Function.update d.confHeader (16 - (n + 1))
        (e.conf.word dev func (16 - (n + 1))) }) { s with confAddr := addr₁ } := ⟨_, rfl⟩
    obtain ⟨addr, header, hrest, hheader⟩ :=
      readHeader_ok hdev hfunc (n := n) (s := t) (Nat.le_of_succ_le hn)
    refine ⟨addr, header, ?_, fun reg hreg => ?_⟩
    · rw [readHeader, Program.bind_of_ok hread, Program.bind_of_ok Program.modify_apply, ← ht,
        hrest, ht]
      simp [PciState.setDevice]
    · rw [hheader reg hreg, ht]
      by_cases h1 : 16 - n ≤ reg
      · rw [if_pos h1, if_pos (by omega)]
      · rw [if_neg h1]
        by_cases h2 : reg = 16 - (n + 1)
        · simp [h2, PciState.setDevice]
        · rw [if_neg (by omega)]
          simp only [PciState.setDevice, Function.update_self, Function.update_of_ne h2]

/-- A fresh block. -/
theorem malloc_ok (he : e.MallocSucceeds) :
    malloc e s = .ok (e.malloc s, { s with live := e.malloc s :: s.live }) := by
  unfold malloc
  rw [Program.bind_of_ok Program.ask_apply, Program.bind_of_ok (Program.check_of (he s).1),
    Program.bind_of_ok Program.gets_apply, Program.bind_of_ok (Program.check_of (he s).2)]
  rfl

/-- One more device at the end of the list. -/
theorem addDevice_ok (he : e.MallocSucceeds) (hdev : dev < 32) (hfunc : func < 8)
    (h : BusList e.conf s ps) : ∃ s' p, addDevice dev func e s = .ok ((), s') ∧
      BusList e.conf s' (ps ++ [p]) ∧ (∀ q ∈ ps, s'.slot q = s.slot q) ∧
        s'.slot p = (dev, func) := by
  obtain ⟨p, hp⟩ : ∃ p, p = e.malloc s := ⟨_, rfl⟩
  have hnew : p ∉ s.live := hp ▸ (he s).2
  obtain ⟨s₁, hs₁⟩ : ∃ t, t = { s with live := p :: s.live } := ⟨_, rfl⟩
  obtain ⟨s₂, hs₂⟩ : ∃ t, t = listAddBefore (listInit s₁ (.list p)) (.devList s.pciDevList)
    (.list p) := ⟨_, rfl⟩
  obtain ⟨addr, header, hread, hheader⟩ := readHeader_ok (e := e) (p := p) hdev hfunc
    (s := s₂.setDevice p fun d => { d with bus := 0, device := dev, function := func })
    (Nat.le_refl 16)
  have hrun : addDevice dev func e s = readHeader dev func p 16 e
      (s₂.setDevice p fun d => { d with bus := 0, device := dev, function := func }) := by
    unfold addDevice
    rw [Program.bind_of_ok (malloc_ok he), ← hp, Program.bind_of_ok Program.modify_apply,
      Program.bind_of_ok Program.modify_apply, Program.bind_of_ok Program.modify_apply, hs₂, hs₁]
    rfl
  have hfresh : PciRef.list p ∉ PciRef.devList s.pciDevList :: ps.map .list := by
    simp only [List.mem_cons, reduceCtorEq, false_or, List.mem_map, PciRef.list.injEq, not_exists,
      not_and]
    rintro q hq rfl
    exact hnew (h.live q hq)
  have hring : Ring s₂ (.devList s.pciDevList) ((ps ++ [p]).map .list) := by
    have hinit : Ring (listInit s₁ (.list p)) (.devList s.pciDevList) (ps.map .list) := by
      rw [hs₁]
      refine h.ring.congr fun r hr => ?_
      have hne : r ≠ .list p := fun hrp => hfresh (hrp ▸ hr)
      exact sameLinks_listInit (s := { s with live := p :: s.live }) pciState_lawful trivial trivial
        hne
    rw [List.map_append, List.map_singleton, hs₂]
    exact ring_listAddBefore_head pciState_lawful hinit (fun _ _ => trivial) trivial hfresh
  have hne : ∀ q ∈ ps, q ≠ p := fun q hq he => hnew (he ▸ h.live q hq)
  have hold : s₂.devices = s.devices := by rw [hs₂, hs₁]; rfl
  refine ⟨_, p, hrun.trans hread, ⟨?_, fun q hq => ?_, fun q hq => ?_⟩, fun q hq => ?_, ?_⟩
  · have hlist : s₂.pciDevList = s.pciDevList := by rw [hs₂, hs₁]; rfl
    show Ring _ (PciRef.devList s₂.pciDevList) _
    rw [hlist]
    exact hring.congr fun _ _ => ⟨rfl, rfl⟩
  · have hlive : s₂.live = p :: s.live := by rw [hs₂, hs₁]; rfl
    show q ∈ s₂.live
    rw [hlive]
    rcases List.mem_append.mp hq with hq | hq
    · exact List.mem_cons_of_mem p (h.live q hq)
    · rw [List.mem_singleton.mp hq]
      exact List.mem_cons_self
  · rcases List.mem_append.mp hq with hq | hq
    · simp only [PciState.setDevice, Function.update_of_ne (hne q hq), hold]
      exact h.words q hq
    · rw [List.mem_singleton.mp hq]
      simp only [PciState.setDevice, Function.update_self]
      refine ⟨trivial, fun reg hreg => ?_⟩
      rw [hheader reg hreg, if_pos (by omega)]
  · simp only [PciState.slot, PciState.setDevice, Function.update_of_ne (hne q hq), hold]
  · simp only [PciState.slot, PciState.setDevice, Function.update_self]

/-! ## The loops -/

/-- The slots of the devices on the list. -/
def Listed (conf : ConfSpace) (slots : List (Nat × Nat)) (s : PciState) : Prop :=
  ∃ ps, BusList conf s ps ∧ ps.map s.slot = slots

/-- The functions of a device that are found, unless the loop goes too far. -/
def funcScan (conf : ConfSpace) (dev : Nat) : Option (List (Nat × Nat)) :=
  scan (conf.Odd dev) (fun func => some [(dev, func)]) 8 0

def busScan (conf : ConfSpace) : Option (List (Nat × Nat)) :=
  scan (fun dev => conf.Odd dev 0) (funcScan conf) 32 0

theorem Listed.confAddr {addr : Nat} (h : Listed conf slots s) :
    Listed conf slots { s with confAddr := addr } := by
  obtain ⟨ps, hps, hslots⟩ := h
  exact ⟨ps, hps.congr rfl rfl rfl rfl fun _ _ => rfl, hslots⟩

theorem Listed.emptySlot (hdev : dev < 32) (hfunc : func < 8) (h : Listed conf slots s) :
    ∃ s', emptySlot dev func e s = .ok (e.conf.Odd dev func, s') ∧ Listed conf slots s' := by
  obtain ⟨addr, hrun⟩ := emptySlot_ok (e := e) (s := s) hdev hfunc
  exact ⟨_, hrun, h.confAddr⟩

theorem Listed.addDevice (he : e.MallocSucceeds) (hdev : dev < 32) (hfunc : func < 8)
    (h : Listed e.conf slots s) : ∃ s', addDevice dev func e s = .ok ((), s') ∧
      Listed e.conf (slots ++ [(dev, func)]) s' := by
  obtain ⟨ps, hps, rfl⟩ := h
  obtain ⟨s', p, hrun, hps', hold, hnew⟩ := addDevice_ok he hdev hfunc hps
  refine ⟨s', hrun, ps ++ [p], hps', ?_⟩
  rw [List.map_append, List.map_singleton, hnew, List.map_congr_left hold]

theorem funcLoop_yields (he : e.MallocSucceeds) (hdev : dev < 32) (hfuel : 8 < fuel)
    (h : Listed e.conf slots s) : Program.Yields (funcLoop fuel dev) e s .halted
      (fun found s' => Listed e.conf (slots ++ found) s') (funcScan e.conf dev) := by
  refine Program.yields_scanLoop (Q := fun found s' => Listed e.conf (slots ++ found) s')
    (n := 8) (by decide) (fun func hfunc found t ht => ht.emptySlot hdev hfunc)
    (fun found t ht => emptySlot_error (__pciReadReg_func hdev (Nat.le_refl 8))) ?_ 8 0 fuel [] s
    rfl hfuel (by rwa [List.append_nil])
  intro func hfunc found t ht _
  obtain ⟨s', hrun, hs'⟩ := ht.addDevice he hdev hfunc
  exact ⟨s', hrun, by simpa only [List.append_assoc] using hs'⟩

theorem pciInit_yields (he : e.MallocSucceeds) (hfuel : 32 < fuel) :
    Program.Yields (pciInit fuel) e s .halted (Listed e.conf) (busScan e.conf) := by
  unfold pciInit
  refine Program.Yields.step (malloc_ok he) (Program.Yields.step Program.modify_apply ?_)
  refine Program.yields_scanLoop (Q := Listed e.conf) (n := 32) (by decide)
    (fun dev hdev found t ht => ht.emptySlot hdev (by decide))
    (fun found t ht => emptySlot_error (__pciReadReg_dev (Nat.le_refl 32)))
    (fun dev hdev found t ht _ => funcLoop_yields he hdev (by omega) ht) 32 0 fuel [] _ rfl hfuel ?_
  refine ⟨[], ⟨?_, fun p hp => absurd hp List.not_mem_nil,
    fun p hp => absurd hp List.not_mem_nil⟩, rfl⟩
  exact ring_listInit pciState_lawful trivial

/-- The slots that the loops get to. -/
def Reached (conf : ConfSpace) (dev func : Nat) : Prop :=
  (∀ d ≤ dev, conf.Odd d 0 = false) ∧ ∀ f ≤ func, conf.Odd dev f = false

theorem funcScan_eq_some : funcScan conf dev = some slots ↔ ∃ k < 8, conf.Odd dev k = true ∧
    (∀ f < k, conf.Odd dev f = false) ∧ slots = (List.range k).map fun f => (dev, f) := by
  have hmap : ∀ k, ((List.range' 0 k).flatMap fun f => (some [(dev, f)]).getD [])
      = (List.range k).map fun f => (dev, f) := fun k => by
    rw [List.range_eq_range', ← List.flatMap_pure_eq_map]
    rfl
  unfold funcScan
  simp only [scan_eq_some, Nat.zero_add, Nat.zero_le, true_implies, Option.isSome_some, and_true,
    hmap]

/-- An index is below the first odd one if no odd one is up to it. -/
theorem lt_first_iff {f : Nat → Bool} {n i : Nat} (hn : f n = true)
    (hbelow : ∀ j < n, f j = false) : i < n ↔ ∀ j ≤ i, f j = false := by
  constructor
  · intro hi j hj
    exact hbelow j (by omega)
  · intro hall
    by_contra hle
    have hodd := hall n (by omega)
    rw [hn] at hodd
    cases hodd

theorem busScan_eq_some (h : busScan conf = some slots) : slots.Nodup ∧
    (∀ dev func, (dev, func) ∈ slots ↔ Reached conf dev func) ∧
      (∃ n < 32, ∀ dev, dev < n ↔ Reached conf dev 0) ∧
      ∀ dev, Reached conf dev 0 → ∃ k < 8, ∀ func, func < k ↔ Reached conf dev func := by
  obtain ⟨n, hn, hend, hall, hslots⟩ := scan_eq_some.mp h
  simp only [Nat.zero_add, Nat.zero_le, true_implies] at hend hall hslots
  have hdevs : ∀ dev, dev < n ↔ ∀ d ≤ dev, conf.Odd d 0 = false := fun dev =>
    lt_first_iff (f := fun d => conf.Odd d 0) hend fun d hd => (hall d hd).1
  -- the functions of each device before the last one
  have hfuncs : ∀ dev < n, ∃ k < 8, (funcScan conf dev).getD []
      = ((List.range k).map fun f => (dev, f)) ∧
        ∀ func, func < k ↔ ∀ f ≤ func, conf.Odd dev f = false := fun dev hdev => by
    obtain ⟨found, hfound⟩ := Option.isSome_iff_exists.mp (hall dev hdev).2
    obtain ⟨k, hk, hodd, hbelow, rfl⟩ := funcScan_eq_some.mp hfound
    exact ⟨k, hk, by rw [hfound]; rfl, fun func => lt_first_iff hodd hbelow⟩
  refine ⟨?_, fun dev func => ?_, ⟨n, hn, fun dev => ?_⟩, fun dev hdev => ?_⟩
  · rw [hslots, ← List.range_eq_range', List.nodup_flatMap]
    refine ⟨fun dev hdev => ?_, ?_⟩
    · obtain ⟨k, -, hfound, -⟩ := hfuncs dev (List.mem_range.mp hdev)
      rw [hfound]
      exact List.nodup_range.map fun a b he => (Prod.mk.inj he).2
    · refine List.nodup_range.imp_of_mem fun {a b} ha hb hne => ?_
      obtain ⟨k, -, hfa, -⟩ := hfuncs a (List.mem_range.mp ha)
      obtain ⟨l, -, hfb, -⟩ := hfuncs b (List.mem_range.mp hb)
      show List.Disjoint ((funcScan conf a).getD []) ((funcScan conf b).getD [])
      rw [hfa, hfb]
      intro x hxa hxb
      obtain ⟨f, -, rfl⟩ := List.mem_map.mp hxa
      obtain ⟨g, -, he⟩ := List.mem_map.mp hxb
      exact hne (Prod.mk.inj he).1.symm
  · rw [hslots, ← List.range_eq_range', List.mem_flatMap]
    constructor
    · rintro ⟨d, hd, hmem⟩
      have hd := List.mem_range.mp hd
      obtain ⟨k, -, hfound, hk⟩ := hfuncs d hd
      rw [hfound] at hmem
      obtain ⟨f, hf, he⟩ := List.mem_map.mp hmem
      obtain ⟨rfl, rfl⟩ := Prod.mk.inj he
      exact ⟨(hdevs d).mp hd, (hk f).mp (List.mem_range.mp hf)⟩
    · rintro ⟨hdev, hfunc⟩
      have hlt := (hdevs dev).mpr hdev
      obtain ⟨k, -, hfound, hk⟩ := hfuncs dev hlt
      refine ⟨dev, List.mem_range.mpr hlt, ?_⟩
      rw [hfound]
      exact List.mem_map.mpr ⟨func, List.mem_range.mpr ((hk func).mpr hfunc), rfl⟩
  · rw [hdevs, Reached]
    refine (and_iff_left_of_imp fun hdev f hf => ?_).symm
    rw [Nat.le_zero.mp hf]
    exact hdev dev (Nat.le_refl dev)
  · obtain ⟨k, hk8, -, hk⟩ := hfuncs dev ((hdevs dev).mpr hdev.1)
    refine ⟨k, hk8, fun func => ?_⟩
    rw [hk, Reached, and_iff_right hdev.1]

/-! ## All functions -/

/-- `pci_dev_list` has an entry for each function on the bus and no others. -/
structure Inventory (conf : ConfSpace) (s : PciState) (ps : List Ptr) : Prop where
  ring : Ring s (.devList s.pciDevList) (ps.map .list)
  once : (ps.map s.slot).Nodup
  all : ∀ dev func, (dev, func) ∈ ps.map s.slot ↔ dev < 32 ∧ func < 8 ∧ conf.Present dev func
  words : ∀ p ∈ ps, (s.devices p).bus = 0 ∧ ∀ reg < 16,
    (s.devices p).confHeader reg = conf.word (s.devices p).device (s.devices p).function reg

/-- `pci_init` returns, and the list is the inventory of the bus. -/
def Enumerates (e : PciEnv) (fuel : Nat) (s : PciState) : Prop :=
  ∃ s' ps, pciInit fuel e s = .ok ((), s') ∧ Inventory e.conf s' ps

/-- Vendor ids are even, and the functions stand without a gap before a slot that is empty. -/
structure Compact (conf : ConfSpace) : Prop where
  even : ∀ dev < 32, ∀ func < 8, conf.Present dev func → vendorId (conf.word dev func 0) % 2 = 0
  devices : ∃ n < 32, ∀ dev < 32, conf.Present dev 0 ↔ dev < n
  functions : ∀ dev < 32, conf.Present dev 0 →
    ∃ n < 8, ∀ func < 8, conf.Present dev func ↔ func < n

theorem even_iff : conf.Odd dev func = false ↔ vendorId (conf.word dev func 0) % 2 = 0 := by
  rw [← Bool.not_eq_true, ConfSpace.odd_iff, vendorId]
  omega

/-- An even word is that of a function. -/
theorem present_of_even (h : conf.Odd dev func = false) : conf.Present dev func := by
  intro habsent
  have heven := even_iff.mp h
  rw [habsent] at heven
  exact absurd heven (by decide)

theorem Compact.present_iff (h : Compact conf) (hdev : dev < 32) (hfunc : func < 8) :
    conf.Present dev func ↔ conf.Odd dev func = false :=
  ⟨fun hp => even_iff.mpr (h.even dev hdev func hfunc hp), present_of_even⟩

theorem Compact.busScan (h : Compact conf) : ∃ slots, busScan conf = some slots ∧
    ∀ dev func, (dev, func) ∈ slots ↔ dev < 32 ∧ func < 8 ∧ conf.Present dev func := by
  obtain ⟨n, hn, hdevs⟩ := h.devices
  have hodd : ∀ dev < 32, conf.Odd dev 0 = false ↔ dev < n := fun dev hdev =>
    (h.present_iff hdev (by decide)).symm.trans (hdevs dev hdev)
  have hfound : ∀ dev < n, ∃ k < 8, (∀ func < 8, conf.Odd dev func = false ↔ func < k) := by
    intro dev hdev
    obtain ⟨k, hk, hfuncs⟩ := h.functions dev (by omega) ((hdevs dev (by omega)).mpr hdev)
    exact ⟨k, hk, fun func hfunc =>
      (h.present_iff (by omega) hfunc).symm.trans (hfuncs func hfunc)⟩
  have hscan : ∃ slots, Pci.busScan conf = some slots := by
    refine ⟨_, scan_eq_some.mpr ⟨n, hn, ?_, fun dev _ hdev => ?_, rfl⟩⟩
    · rw [Nat.zero_add, ← Bool.not_eq_false, hodd n hn]
      exact Nat.lt_irrefl n
    · rw [Nat.zero_add] at hdev
      obtain ⟨k, hk, hfuncs⟩ := hfound dev hdev
      refine ⟨(hodd dev (by omega)).mpr hdev, ?_⟩
      rw [funcScan_eq_some.mpr ⟨k, hk, ?_, fun f hf => (hfuncs f (by omega)).mpr hf, rfl⟩]
      · rfl
      · rw [← Bool.not_eq_false, hfuncs k hk]
        exact Nat.lt_irrefl k
  obtain ⟨slots, hslots⟩ := hscan
  refine ⟨slots, hslots, fun dev func => ?_⟩
  obtain ⟨-, hmem, ⟨m, hm, hmdev⟩, hmfunc⟩ := busScan_eq_some hslots
  rw [hmem]
  constructor
  · intro hr
    have hr0 : Reached conf dev 0 :=
      ⟨hr.1, fun f hf => hr.2 f (by omega)⟩
    obtain ⟨k, hk, hkfunc⟩ := hmfunc dev hr0
    have hdev : dev < 32 := ((hmdev dev).mpr hr0).trans hm
    have hfunc : func < 8 := ((hkfunc func).mpr hr).trans hk
    exact ⟨hdev, hfunc, present_of_even (hr.2 func (Nat.le_refl func))⟩
  · rintro ⟨hdev, hfunc, hp⟩
    have hlt : dev < n := (hdevs dev hdev).mp (conf.first dev func hp)
    obtain ⟨k, hk, hfuncs⟩ := hfound dev hlt
    have hltk := (hfuncs func hfunc).mp ((h.present_iff hdev hfunc).mp hp)
    exact ⟨fun d hd => (hodd d (by omega)).mpr (by omega),
      fun f hf => (hfuncs f (by omega)).mpr (by omega)⟩

/-- What the loops find is all there is only on such a bus. -/
theorem compact_of_busScan (h : busScan conf = some slots)
    (hall : ∀ dev func, (dev, func) ∈ slots ↔ dev < 32 ∧ func < 8 ∧ conf.Present dev func) :
    Compact conf := by
  obtain ⟨-, hmem, ⟨n, hn, hdevs⟩, hfuncs⟩ := busScan_eq_some h
  have hreach : ∀ dev < 32, ∀ func < 8, conf.Present dev func ↔ Reached conf dev func :=
    fun dev hdev func hfunc => by
      rw [← hmem, hall, and_iff_right hdev, and_iff_right hfunc]
  refine ⟨fun dev hdev func hfunc hp => ?_, ⟨n, hn, fun dev hdev => ?_⟩, fun dev hdev hp => ?_⟩
  · exact even_iff.mp (((hreach dev hdev func hfunc).mp hp).2 func (Nat.le_refl func))
  · rw [hreach dev hdev 0 (by decide), hdevs]
  · obtain ⟨k, hk, hkfunc⟩ := hfuncs dev ((hreach dev hdev 0 (by decide)).mp hp)
    exact ⟨k, hk, fun func hfunc => by rw [hreach dev hdev func hfunc, hkfunc]⟩

theorem compact_of_enumerates (he : e.MallocSucceeds) (hfuel : 32 < fuel)
    (h : Enumerates e fuel s) : Compact e.conf := by
  obtain ⟨s', ps, hrun, hinv⟩ := h
  have hyields := pciInit_yields he hfuel (s := s)
  cases hscan : busScan e.conf with
  | none =>
    rw [hscan] at hyields
    cases hrun.symm.trans hyields
  | some slots =>
    rw [hscan] at hyields
    obtain ⟨t, ht, qs, hqs, hslots⟩ := hyields
    obtain ⟨-, rfl⟩ := Prod.mk.inj (Except.ok.inj (hrun.symm.trans ht))
    have hps : ps = qs := by
      have hlists := hinv.ring.unique hqs.ring
      exact List.map_injective_iff.mpr (fun a b he => PciRef.list.inj he) hlists
    refine compact_of_busScan hscan fun dev func => ?_
    rw [← hslots, ← hps]
    exact hinv.all dev func

/--
`pci_init` returns and lists each function of the bus once, with its words, if and only if the
functions stand so that the loops come to all of them and to an empty slot behind.
-/
theorem pciInit_enumerates_iff (he : e.MallocSucceeds) (hfuel : 32 < fuel) :
    Enumerates e fuel s ↔ Compact e.conf := by
  refine ⟨compact_of_enumerates he hfuel, fun h => ?_⟩
  obtain ⟨slots, hslots, hall⟩ := h.busScan
  have hyields := pciInit_yields he hfuel (s := s)
  rw [hslots] at hyields
  obtain ⟨s', hrun, ps, hps, rfl⟩ := hyields
  exact ⟨s', ps, hrun, hps.ring, (busScan_eq_some hslots).1, hall, hps.words⟩

/-! ## Two machines -/

/-- A bus with a function 0 of vendor 0x8086 at each of some devices. -/
def busOf (devs : List Nat) : ConfSpace where
  word dev func reg :=
    if dev ∈ devs ∧ func = 0 then if reg = 0 then 0x8086 else 0 else 0xffffffff
  word_lt dev func reg := by
    split
    · split <;> decide
    · decide
  absent dev func reg h := by
    by_cases hp : dev ∈ devs ∧ func = 0
    · rw [if_pos hp, if_pos rfl] at h
      exact absurd h (by decide)
    · exact if_neg hp
  first dev func h := by
    by_cases hp : dev ∈ devs ∧ func = 0
    · rwa [hp.2] at h
    · rw [if_neg hp] at h
      exact absurd (by decide) h

theorem present_busOf {devs : List Nat} :
    (busOf devs).Present dev func ↔ dev ∈ devs ∧ func = 0 := by
  show vendorId (if dev ∈ devs ∧ func = 0 then _ else _) ≠ _ ↔ _
  by_cases hp : dev ∈ devs ∧ func = 0
  · rw [if_pos hp, if_pos rfl]
    exact iff_of_true (by decide) hp
  · rw [if_neg hp]
    exact iff_of_false (fun h => h (by decide)) hp

/-- A `malloc` that always finds a new block. -/
def machineOf (devs : List Nat) : PciEnv := ⟨busOf devs, fun s => s.live.sum + 1⟩

theorem machineOf_malloc (devs : List Nat) : (machineOf devs).MallocSucceeds := fun s => by
  refine ⟨Nat.succ_ne_zero _, fun hmem => ?_⟩
  exact absurd (List.le_sum_of_mem hmem) (Nat.not_succ_le_self _)

def noDevices : PciState :=
  ⟨0, fun _ => .null, fun _ => .null, fun _ => ⟨0, 0, 0, fun _ => 0⟩, NULL, []⟩

theorem hostBridge_compact : Compact (busOf [0]) := by
  refine ⟨fun dev _ func _ hp => ?_, ⟨1, by decide, fun dev _ => ?_⟩, fun dev _ hp =>
    ⟨1, by decide, fun func _ => ?_⟩⟩
  · obtain ⟨hdev, rfl⟩ := present_busOf.mp hp
    obtain rfl := List.mem_singleton.mp hdev
    decide
  · rw [present_busOf, List.mem_singleton]
    omega
  · rw [present_busOf, and_iff_right (present_busOf.mp hp).1]
    omega

/-- A bus with a host bridge alone. -/
theorem hostBridge_enumerated : Enumerates (machineOf [0]) 33 noDevices :=
  (pciInit_enumerates_iff (machineOf_malloc [0]) (by decide)).mpr hostBridge_compact

/-- A host bridge at device 0 and a south bridge at device 31, with nothing between them. -/
theorem southBridge_missed : ¬Enumerates (machineOf [0, 31]) 33 noDevices := by
  intro h
  obtain ⟨n, hn, hdevs⟩ := (compact_of_enumerates (machineOf_malloc [0, 31]) (by decide) h).devices
  have hlast : 31 < n := (hdevs 31 (by decide)).mp (present_busOf.mpr ⟨by decide, rfl⟩)
  omega

end Pci

end Raincloud
