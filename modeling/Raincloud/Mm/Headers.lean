import Raincloud.Infra.MemRing
import Raincloud.Klibc.ListHead
import Raincloud.Mm.Layout

/-!
# In-band headers

The heap and the page pool keep a header at the start of each block, and the list head of a
header is its first two words. What the statements that write links and header words do to
each other is the same for both: `Placed` says where the headers `as` of the list at a static
object are, `listNodes` are the list heads involved, `headerArea` the bytes.
-/

namespace Raincloud

open Infra Infra.LinkStore

variable {k : Nat} (head : KernelObject k)

/-! ## Placement -/

/-- Headers below the list head that do not overlap. -/
structure Placed (as : List Nat) : Prop where
  fits : head.addr + 16 ≤ 2 ^ 64
  below : ∀ a ∈ as, a + 32 ≤ head.addr
  apart : ∀ a ∈ as, ∀ b ∈ as, a ≠ b → a + 32 ≤ b ∨ b + 32 ≤ a

/-- The list head of the object and those of the headers. -/
def listNodes (as : List Nat) : Set Nat := {x | x = head.addr ∨ x ∈ as}

/-- The bytes of these list heads, and of the headers around them. -/
def headerArea (as : List Nat) : Set Nat :=
  {x | (head.addr ≤ x ∧ x < head.addr + 16) ∨ ∃ a ∈ as, a ≤ x ∧ x < a + 32}

variable {head} {as : List Nat} {m : Mem}

theorem Placed.mono {as' : List Nat} (h : Placed head as) (hsub : ∀ a ∈ as', a ∈ as) :
    Placed head as' where
  fits := h.fits
  below := fun a ha => h.below a (hsub a ha)
  apart := fun a ha b hb => h.apart a (hsub a ha) b (hsub b hb)

theorem Placed.nodesApart (h : Placed head as) : Mem.NodesApart (listNodes head as) where
  lt := by
    rintro x (rfl | hx)
    · have := h.fits
      omega
    · have := h.below x hx
      have := h.fits
      omega
  apart := by
    rintro x (rfl | hx) y (rfl | hy) hne
    · exact absurd rfl hne
    · have := h.below y hy
      omega
    · have := h.below x hx
      omega
    · have := h.apart x hx y hy hne
      omega

theorem Placed.lawfulOn (h : Placed head as) : LawfulOn Mem (listNodes head as) :=
  h.nodesApart.lawfulOn

theorem headerArea_mono {as' : List Nat} (hsub : ∀ a ∈ as', a ∈ as) :
    headerArea head as' ⊆ headerArea head as := by
  rintro x (hx | ⟨a, ha, hx⟩)
  · exact Or.inl hx
  · exact Or.inr ⟨a, hsub a ha, hx⟩

theorem listNodes_mono {as' : List Nat} (hsub : ∀ a ∈ as', a ∈ as) :
    listNodes head as' ⊆ listNodes head as := by
  rintro x (hx | hx)
  · exact Or.inl hx
  · exact Or.inr (hsub x hx)

/-! ## Frames -/

/-- A word of a header. -/
theorem sameOutside_store {a v i : Nat} (ha : a ∈ as) (hi : i ≤ 24) :
    Mem.SameOutside (headerArea head as) m (m.store64 (a + i) v) :=
  (Mem.SameOutside.refl _ m).store64 fun x hx =>
    Or.inr ⟨a, ha, by have := hx.1; omega, by have := hx.2; omega⟩

/-- The links of a node are in the header area. -/
theorem ico_subset_headerArea {x : Nat} (hx : x ∈ listNodes head as) {i : Nat} (hi : i ≤ 8) :
    Set.Ico (x + i) (x + i + 8) ⊆ headerArea head as := by
  intro y hy
  have h1 := hy.1
  have h2 := hy.2
  rcases hx with rfl | hx
  · exact Or.inl ⟨by omega, by omega⟩
  · exact Or.inr ⟨x, hx, by omega, by omega⟩

theorem sameOutside_setNext {x v : Nat} (hx : x ∈ listNodes head as) :
    Mem.SameOutside (headerArea head as) m (setNext m x v) :=
  (Mem.SameOutside.refl _ m).store64 (ico_subset_headerArea hx (i := 0) (by omega))

theorem sameOutside_setPrev {x v : Nat} (hx : x ∈ listNodes head as) :
    Mem.SameOutside (headerArea head as) m (setPrev m x v) :=
  (Mem.SameOutside.refl _ m).store64 (ico_subset_headerArea hx (by omega))

theorem sameOutside_listAdd {p n x : Nat} (hp : p ∈ listNodes head as)
    (hn : n ∈ listNodes head as) (hx : x ∈ listNodes head as) :
    Mem.SameOutside (headerArea head as) m (__listAdd m p n x) :=
  (((sameOutside_setPrev hx).trans (sameOutside_setNext hp)).trans
    (sameOutside_setNext hx)).trans (sameOutside_setPrev hn)

theorem sameOutside_listDel {x : Nat} (hp : prev m x ∈ listNodes head as)
    (hn : next m x ∈ listNodes head as) :
    Mem.SameOutside (headerArea head as) m (listDel m x) :=
  (sameOutside_setNext hp).trans (sameOutside_setPrev hn)

theorem sameOutside_listInit {x : Nat} (hx : x ∈ listNodes head as) :
    Mem.SameOutside (headerArea head as) m (listInit m x) :=
  (sameOutside_setNext hx).trans (sameOutside_setPrev hx)

/-! ## Words that stay -/

/-- A header word of another block, or another word of the same header, is elsewhere. -/
theorem header_ne (hp : Placed head as) {a a' : Nat} (ha : a ∈ as) (ha' : a' ∈ as) {i j : Nat}
    (hi : i ≤ 24) (hj : j ≤ 24) (hij : a = a' → i + 8 ≤ j ∨ j + 8 ≤ i) :
    a + i + 8 ≤ a' + j ∨ a' + j + 8 ≤ a + i := by
  by_cases he : a = a'
  · have := hij he
    omega
  · have := hp.apart a ha a' ha' he
    omega

theorem head_ne (hp : Placed head as) {a : Nat} (ha : a ∈ as) {i j : Nat} (hi : i ≤ 24) :
    head.addr + j + 8 ≤ a + i ∨ a + i + 8 ≤ head.addr + j := by
  have := hp.below a ha
  omega

/-- The links survive a write behind the link words of a header. -/
theorem sameLinks_store {a v i : Nat} (hp : Placed head as) (ha : a ∈ as) (h1 : 16 ≤ i)
    (h2 : i ≤ 24) {x : Nat} (hx : x ∈ listNodes head as) :
    SameLinks m (m.store64 (a + i) v) x := by
  have key : ∀ j, j ≤ 8 → x + j + 8 ≤ a + i ∨ a + i + 8 ≤ x + j := by
    intro j hj
    rcases hx with rfl | hx
    · exact head_ne hp ha h2
    · exact header_ne hp hx ha (by omega) h2 fun _ => by omega
  exact ⟨Mem.load64_store64_of_disjoint (key 0 (by omega)),
    Mem.load64_store64_of_disjoint (key 8 (by omega))⟩

/-- A link written leaves the header words behind the links alone. -/
theorem load64_setNext {y v a i : Nat} (hp : Placed head as) (hy : y ∈ listNodes head as)
    (ha : a ∈ as) (h1 : 16 ≤ i) (h2 : i ≤ 24) :
    (setNext m y v).load64 (a + i) = m.load64 (a + i) := by
  rw [Mem.setNext_def]
  refine Mem.load64_store64_of_disjoint ?_
  rcases hy with rfl | hy
  · exact (head_ne (j := 0) hp ha h2).symm
  · exact header_ne (j := 0) hp ha hy h2 (by omega) fun _ => by omega

theorem load64_setPrev {y v a i : Nat} (hp : Placed head as) (hy : y ∈ listNodes head as)
    (ha : a ∈ as) (h1 : 16 ≤ i) (h2 : i ≤ 24) :
    (setPrev m y v).load64 (a + i) = m.load64 (a + i) := by
  rw [Mem.setPrev_def]
  refine Mem.load64_store64_of_disjoint ?_
  rcases hy with rfl | hy
  · exact (head_ne hp ha h2).symm
  · exact header_ne hp ha hy h2 (by omega) fun _ => by omega

theorem load64_listAdd {p n x a i : Nat} (hp : Placed head as) (hpm : p ∈ listNodes head as)
    (hnm : n ∈ listNodes head as) (hxm : x ∈ listNodes head as) (ha : a ∈ as) (h1 : 16 ≤ i)
    (h2 : i ≤ 24) : (__listAdd m p n x).load64 (a + i) = m.load64 (a + i) := by
  unfold __listAdd
  rw [load64_setPrev hp hnm ha h1 h2, load64_setNext hp hxm ha h1 h2,
    load64_setNext hp hpm ha h1 h2, load64_setPrev hp hxm ha h1 h2]

theorem load64_listDel {x a i : Nat} (hp : Placed head as)
    (hpm : prev m x ∈ listNodes head as) (hnm : next m x ∈ listNodes head as) (ha : a ∈ as)
    (h1 : 16 ≤ i) (h2 : i ≤ 24) : (listDel m x).load64 (a + i) = m.load64 (a + i) := by
  unfold listDel __listDel
  rw [load64_setPrev hp hnm ha h1 h2, load64_setNext hp hpm ha h1 h2]

/-! ## Rings of headers -/

variable {A B : List Nat} {a : Nat}

/-- The neighbours of a header on the list. -/
theorem ring_neighbours (hr : Ring m head.addr (A ++ a :: B)) :
    prev m a ∈ listNodes head (A ++ B) ∧ next m a ∈ listNodes head (A ++ B) := by
  rw [hr.prev_mem, hr.next_mem]
  constructor
  · rcases List.mem_cons.mp (Ring.getLastD_mem head.addr A) with he | he
    · exact Or.inl he
    · exact Or.inr (List.mem_append_left _ he)
  · rcases List.mem_cons.mp (Ring.headD_mem_cons head.addr B) with he | he
    · exact Or.inl he
    · exact Or.inr (List.mem_append_right _ he)

/-- A ring survives a write behind the link words of a header. -/
theorem ring_store {i v : Nat} (hr : Ring m head.addr as) (hp : Placed head as) (ha : a ∈ as)
    (h1 : 16 ≤ i) (h2 : i ≤ 24) : Ring (m.store64 (a + i) v) head.addr as :=
  hr.congr fun _ hx => sameLinks_store hp ha h1 h2 (List.mem_cons.mp hx)

/-- A ring only depends on the bytes of its headers. -/
theorem ring_sameOutside {m' : Mem} {area : Set Nat} (hr : Ring m head.addr as)
    (hs : Mem.SameOutside area m m') (harea : ∀ x ∈ headerArea head as, x ∉ area) :
    Ring m' head.addr as := by
  refine hr.congr fun x hx => ?_
  have key : ∀ i, i ≤ 8 → m'.load64 (x + i) = m.load64 (x + i) := fun i hi =>
    hs.load64_eq fun y h1 h2 => harea y (ico_subset_headerArea (List.mem_cons.mp hx) hi ⟨h1, h2⟩)
  exact ⟨key 0 (by omega), key 8 le_rfl⟩

end Raincloud
