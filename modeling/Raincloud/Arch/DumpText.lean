import Raincloud.Arch.Dump
import Raincloud.Arch.EarlyPrint

/-!
# What an exception prints

The registers are shown under their own names. The words of the exception are where `__dump_reg`
looks for them only if there is an error code among them; otherwise each name from the error code
on has the word above its own.
-/

set_option linter.style.nameCheck false

namespace Raincloud

open Infra Infra.Mem Infra.Terminal Printf

namespace Dump

/-! ## Texts -/

def lineText (label : List UInt8) (value : Nat) : List UInt8 :=
  label ++ hexText 16 value ++ [0x0a]

def tableText (label : List UInt8) (limit : BitVec 16) (base : BitVec 64) : List UInt8 :=
  label ++ hexText 16 base.toNat ++ [0x20] ++ hexText 16 limit.toNat ++ [0x0a]

structure Label (label : List UInt8) : Prop where
  noZero : 0 ∉ label
  noPercent : chr '%' ∉ label
  short : label.length ≤ 64

instance (label : List UInt8) : Decidable (Label label) :=
  decidable_of_iff (0 ∉ label ∧ chr '%' ∉ label ∧ label.length ≤ 64)
    ⟨fun h => ⟨h.1, h.2.1, h.2.2⟩, fun h => ⟨h.noZero, h.noPercent, h.short⟩⟩

theorem length_hexText (n x : Nat) : (hexText n x).length = n := by simp [hexText]

theorem zero_notMem_hexText (n x : Nat) : 0 ∉ hexText n x := by
  have hdigit : ∀ d < 16, hexDigit d ≠ 0 := by decide
  intro hmem
  simp only [hexText, List.mem_map] at hmem
  obtain ⟨i, -, hi⟩ := hmem
  exact hdigit _ (Nat.mod_lt _ (by decide)) hi

variable {label : List UInt8} {labels : List (List UInt8)} {rest : List Arg}

variable {ρ ε δ : Type} {o : Stdout ρ ε δ} {e : ρ} {s : Terminal δ} {buf p : Nat}
  {shows : δ → List UInt8 → Prop} {t fmt out : List UInt8} {args : List Arg}

theorem Label.line (h : Label label) (v : Nat) :
    0 ∉ lineText label v ∧ (lineText label v).length < 1024 := by
  have hshort := h.short
  have hhex := zero_notMem_hexText 16 v
  constructor
  · simp [lineText, h.noZero, hhex]
  · simp only [lineText, List.length_append, length_hexText, List.length_singleton]
    omega

theorem Label.table (h : Label label) (limit : BitVec 16) (base : BitVec 64) :
    0 ∉ tableText label limit base ∧ (tableText label limit base).length < 1024 := by
  have hshort := h.short
  have hbase := zero_notMem_hexText 16 base.toNat
  have hlimit := zero_notMem_hexText 16 limit.toNat
  constructor
  · simp [tableText, h.noZero, hbase, hlimit]
  · simp only [tableText, List.length_append, length_hexText, List.length_singleton]
    omega

end Dump

end Raincloud
