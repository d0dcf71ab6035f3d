import Raincloud.Infra.Polling
import Raincloud.Infra.TextBuffer
import Mathlib.Data.List.TakeWhile

/-!
# Terminals

A terminal is a device behind a memory. A printer takes the address of a text in the memory and
puts the text onto the device, behind what was put there before. `Appends` is for a program that
builds such a text: one that adds a piece behind what is in a buffer.
-/

namespace Infra

structure Terminal (δ : Type) where
  device : δ
  mem : Mem

namespace Terminal

open Mem

variable {ρ ε δ : Type}

/-- With enough fuel the text at an address is put behind what the device shows, and the memory is
as before. -/
def PutsText (print : Nat → Nat → Program ρ ε (Terminal δ) Unit) (e : ρ)
    (shows : δ → List UInt8 → Prop) : Prop :=
  ∀ (s : Terminal δ) (t : List UInt8) (a : Nat) (text : List UInt8), a ≠ 0 →
    s.mem.TextAt a text → text.length < 2 ^ 31 → shows s.device t →
      ∃ d, Program.Returns (fun fuel => print fuel a) e s () ⟨d, s.mem⟩ ∧ shows d (t ++ text)

/-! ## Texts in buffers -/

variable {m : Mem} {a : Nat} {l k : List UInt8}

/-- A text over a shorter one. -/
theorem putList_over (h : l.length ≤ k.length) : putList (putList m a l) a k = putList m a k := by
  funext x
  by_cases hx : x < a ∨ a + k.length ≤ x
  · rw [putList_outside hx, putList_outside hx, putList_outside (by omega)]
  · unfold putList
    rw [if_pos (by omega), if_pos (by omega)]

/-- A text from the terminator of another one on. -/
theorem putList_behind (m : Mem) (a : Nat) (l k : List UInt8) :
    putList (putList m a (l ++ [0])) (a + l.length) (k ++ [0]) = putList m a (l ++ k ++ [0]) := by
  rw [← putList_append m a l, putList_over (by simp), putList_append, List.append_assoc]

/-- A text ends at its terminator, whatever is behind it. -/
theorem textAt_cons (m : Mem) (a : Nat) (h : 0 ∉ l) : TextAt (putList m a (l ++ 0 :: k)) a l := by
  have hsplit : l ++ 0 :: k = (l ++ [0]) ++ k := by simp
  have hkeep : bytes (putList (putList m a (l ++ [0])) (a + (l ++ [0]).length) k) a (l.length + 1)
      = bytes (putList m a (l ++ [0])) a (l.length + 1) :=
    bytes_congr fun x _ hx => putList_outside (.inl (by simpa using hx))
  refine ⟨h, ?_⟩
  rw [hsplit, ← putList_append, hkeep]
  exact (textAt_putList m a h).2

/-- The bytes in front of the first zero, and that zero and the bytes behind it. -/
theorem takeWhile_split (l : List UInt8) :
    l.takeWhile (· ≠ 0) = l ∨ ∃ k, l = l.takeWhile (· ≠ 0) ++ 0 :: k := by
  induction l with
  | nil => exact .inl rfl
  | cons c l ih =>
    by_cases hc : c = 0
    · subst hc
      exact .inr ⟨l, by simp⟩
    · rw [List.takeWhile_cons_of_pos (by simpa using hc)]
      rcases ih with ih | ⟨k, ih⟩
      · exact .inl (by rw [ih])
      · exact .inr ⟨k, congrArg (c :: ·) ih⟩

theorem zero_notMem_takeWhile (l : List UInt8) : 0 ∉ l.takeWhile (· ≠ 0) := by
  intro hmem
  simpa using List.mem_takeWhile_imp hmem

theorem takeWhile_of_notMem (h : 0 ∉ l) : l.takeWhile (· ≠ 0) = l :=
  List.takeWhile_eq_self_iff.mpr fun c hc => by
    have hne : c ≠ 0 := fun h0 => h (h0 ▸ hc)
    simpa using hne

/-- The text that is read where bytes with zeros among them were put. -/
theorem textAt_takeWhile (m : Mem) (a : Nat) (l : List UInt8) :
    TextAt (putList m a (l ++ [0])) a (l.takeWhile (· ≠ 0)) := by
  have hzero := zero_notMem_takeWhile l
  rcases takeWhile_split l with hall | ⟨k, hsplit⟩
  · rw [hall] at hzero ⊢
    exact textAt_putList m a hzero
  · have hbytes : l ++ [0] = l.takeWhile (· ≠ 0) ++ 0 :: (k ++ [0]) := by
      conv_lhs => rw [hsplit]
      simp
    rw [hbytes]
    exact textAt_cons m a hzero

theorem textAt_nil_iff : TextAt m a [] ↔ m a = 0 := by simp [TextAt, bytes]

theorem textAt_cons_iff {c : UInt8} :
    TextAt m a (c :: l) ↔ m a = c ∧ c ≠ 0 ∧ TextAt m (a + 1) l := by
  simp only [TextAt, List.mem_cons, not_or, List.length_cons, bytes, List.cons_append,
    List.cons.injEq]
  constructor
  · rintro ⟨⟨hc, hl⟩, hm, hbytes⟩
    exact ⟨hm, Ne.symm hc, hl, hbytes⟩
  · rintro ⟨hm, hc, hl, hbytes⟩
    exact ⟨⟨Ne.symm hc, hl⟩, hm, hbytes⟩

/-- The program adds the piece behind the text in a buffer, if an `int` can count both. -/
def Appends (x : Nat → Program ρ ε (Terminal δ) Unit) (e : ρ) (buf : Nat) (piece : List UInt8) :
    Prop :=
  ∀ (d : δ) (m : Mem) (l : List UInt8), 0 ∉ l → l.length + piece.length < 2 ^ 31 →
    Program.Returns x e ⟨d, putList m buf (l ++ [0])⟩ () ⟨d, putList m buf (l ++ piece ++ [0])⟩

/-- Pieces one behind the other, and what comes then. -/
theorem returns_pieces {α : Type} {e : ρ} {buf : Nat} {d : δ} {a : α} {s : Terminal δ}
    {k : Nat → Program ρ ε (Terminal δ) α}
    (steps : List ((Nat → Program ρ ε (Terminal δ) Unit) × List UInt8))
    (hsteps : ∀ p ∈ steps, Appends p.1 e buf p.2 ∧ 0 ∉ p.2) (hl : 0 ∉ l)
    (hlen : (l ++ steps.flatMap Prod.snd).length < 2 ^ 31)
    (hk : Program.Returns k e ⟨d, putList m buf (l ++ steps.flatMap Prod.snd ++ [0])⟩ a s) :
    Program.Returns (fun fuel => steps.foldr (fun p rest => do p.1 fuel; rest) (k fuel)) e
      ⟨d, putList m buf (l ++ [0])⟩ a s := by
  induction steps generalizing l with
  | nil => simpa using hk
  | cons p steps ih =>
    obtain ⟨happends, hp⟩ := hsteps p List.mem_cons_self
    rw [List.flatMap_cons, ← List.append_assoc] at hlen hk
    have hrest := ih (fun q hq => hsteps q (List.mem_cons_of_mem p hq)) (by simp [hl, hp]) hlen hk
    have hpiece := happends d m l hl (by simp only [List.length_append] at hlen; omega)
    exact hpiece.bind hrest

end Terminal

end Infra
