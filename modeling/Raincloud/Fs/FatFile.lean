import Raincloud.Infra.Run
import Raincloud.Mm.Layout

/-!
# Reading an open FAT file

`fat_read` and `fat_lseek` of `fs_generic.c`, on the context that `fat_open` makes. An open
file is an array of bytes with a cursor as long as the cursor stays inside the file and no sum
leaves its type.
-/

set_option linter.style.nameCheck false

namespace Raincloud

open Infra

/-! ## The code -/

/-- An `off_t` as `uint64_t`. -/
def toU64 (x : Int) : Nat := (x % 2 ^ 64).toNat

/-- A sum as `off_t`: its low 64 bits, with a sign. -/
def toOff (x : Int) : Int := x.bmod (2 ^ 64)

/-- `fat_context_t`: the block with the bytes of the file, `file->FileSize` and the cursor. -/
structure FatContext where
  buf : Nat
  fileSize : Nat
  offset : Int

/-- The number of bytes `fat_read` copies. -/
def fatReadSize (context : FatContext) (size : Nat) : Nat :=
  if context.fileSize < toU64 (context.offset + size) then
    toU64 (context.fileSize - context.offset)
  else size

/-- What `fat_read` returns, the context after it, and the memory. -/
def fatRead (context : FatContext) (buf size : Nat) (mem : Mem) : Int × FatContext × Mem :=
  let size := fatReadSize context size
  let mem := memcpy mem buf (toU64 (context.buf + context.offset)) size
  let context := { context with offset := toOff (context.offset + size) }
  (toOff size, context, mem)

/-- `FILE_LSEEK_WHENCE_SEEK_SET` is 0, `_CUR` 1, `_END` 2. -/
def fatLseek (context : FatContext) (offset whence : Int) : Int × FatContext :=
  let seek (offset : Int) := (toOff offset, { context with offset := toOff offset })
  match whence with
  | 0 => seek offset
  | 1 => seek (context.offset + offset)
  | 2 => seek (context.fileSize + offset)
  | _ => (-1, context)

/-! ## A file as an array of bytes with a cursor -/

/-- The number of bytes from `offset` on that a read of `size` bytes is to return. -/
def readCount (context : FatContext) (size : Nat) : Nat :=
  min size (context.fileSize - context.offset.toNat)

/-- What a read of the bytes of a file is to do. -/
structure ReadOk (file : Nat → UInt8) (c : FatContext) (buf size : Nat) (m : Mem) : Prop where
  returns : (fatRead c buf size m).1 = readCount c size
  advances : (fatRead c buf size m).2.1 = { c with offset := c.offset + readCount c size }
  inside : ∀ i < fatReadSize c size, 0 ≤ c.offset + i ∧ c.offset + i < c.fileSize
  copies : ∀ x, (fatRead c buf size m).2.2 x
    = if buf ≤ x ∧ x < buf + readCount c size then file (c.offset.toNat + (x - buf)) else m x

/-- The offset a call of `fat_lseek` asks for. -/
def seekTarget (context : FatContext) (offset : Int) : Int → Option Int
  | 0 => some offset
  | 1 => some (context.offset + offset)
  | 2 => some (context.fileSize + offset)
  | _ => none

/-- Whether an offset that is asked for is one to take. -/
def seekResult (context : FatContext) : Option Int → Int × FatContext
  | some v => if v < 0 then (-1, context) else (v, { context with offset := v })
  | none => (-1, context)

def LseekOk (c : FatContext) (offset whence : Int) : Prop :=
  fatLseek c offset whence = seekResult c (seekTarget c offset whence)

/-! ## One call -/

theorem fatRead_fst (c : FatContext) (buf size : Nat) (m : Mem) :
    (fatRead c buf size m).1 = toOff (fatReadSize c size) := by rw [fatRead]

theorem fatRead_context (c : FatContext) (buf size : Nat) (m : Mem) :
    (fatRead c buf size m).2.1 = { c with offset := toOff (c.offset + fatReadSize c size) } := by
  rw [fatRead]

theorem fatRead_mem (c : FatContext) (buf size : Nat) (m : Mem) : (fatRead c buf size m).2.2
    = memcpy m buf (toU64 (c.buf + c.offset)) (fatReadSize c size) := by rw [fatRead]

theorem toU64_eq {x : Int} (h0 : 0 ≤ x) (h : x < 2 ^ 64) : toU64 x = x.toNat := by
  rw [toU64, Int.emod_eq_of_lt h0 h]

theorem toOff_eq {x : Int} (h0 : -2 ^ 63 ≤ x) (h : x < 2 ^ 63) : toOff x = x := by
  rw [toOff, Int.bmod_eq_of_le] <;> omega

theorem toOff_lt (x : Int) : toOff x < 2 ^ 63 := by
  have := Int.bmod_lt (x := x) (m := 2 ^ 64) (by decide)
  rw [toOff]
  omega

/-- A context whose file and cursor are in the memory. -/
structure FatContext.Ok (c : FatContext) : Prop where
  size : c.fileSize < 2 ^ 32
  fits : c.buf + c.fileSize ≤ 2 ^ 64
  offset : 0 ≤ c.offset

/-- In a file and without a carry `fat_read` copies what is left, up to `size` bytes. -/
theorem fatReadSize_eq {c : FatContext} {size : Nat} (h : c.Ok) (hoff : c.offset ≤ c.fileSize)
    (hsum : c.offset + size < 2 ^ 64) : fatReadSize c size = readCount c size := by
  have h0 := h.offset
  have hsize := h.size
  have hleft : toU64 (c.fileSize - c.offset) = c.fileSize - c.offset.toNat := by
    rw [toU64_eq] <;> omega
  have hadd : toU64 (c.offset + size) = c.offset.toNat + size := by
    rw [toU64_eq] <;> omega
  rw [fatReadSize, readCount, hleft, hadd]
  split <;> omega

/-- Outside the file or with a carry `fat_read` reads past an end of the file. -/
theorem fatReadSize_outside {c : FatContext} {size : Nat} (h : c.Ok) (hsize : size < 2 ^ 64)
    (hmax : c.offset < 2 ^ 63)
    (hbad : (c.fileSize : Int) < c.offset ∨ (2 : Int) ^ 64 ≤ c.offset + size) :
    0 < fatReadSize c size ∧ c.fileSize < c.offset + fatReadSize c size := by
  have h0 := h.offset
  have hfile := h.size
  rw [fatReadSize]
  unfold toU64
  split <;> omega

theorem readOk_iff {file : Nat → UInt8} {c : FatContext} {buf size : Nat} {m : Mem} (h : c.Ok)
    (hsize : size < 2 ^ 64) (hmax : c.offset < 2 ^ 63)
    (hfile : ∀ i < c.fileSize, m (c.buf + i) = file i)
    (hdis : buf + min size c.fileSize ≤ c.buf ∨ c.buf + c.fileSize ≤ buf) :
    ReadOk file c buf size m ↔ c.offset ≤ c.fileSize ∧ c.offset + size < 2 ^ 64 := by
  constructor
  · intro hok
    by_contra hbad
    have hbad : (c.fileSize : Int) < c.offset ∨ (2 : Int) ^ 64 ≤ c.offset + size := by omega
    obtain ⟨hpos, hout⟩ := fatReadSize_outside h hsize hmax hbad
    -- the last byte read lies behind the file
    have := (hok.inside (fatReadSize c size - 1) (by omega)).2
    omega
  · rintro ⟨hoff, hsum⟩
    have h0 := h.offset
    have hf := h.size
    have hcount : readCount c size ≤ c.fileSize - c.offset.toNat := Nat.min_le_right ..
    have hn := fatReadSize_eq h hoff hsum
    have hsrc : toU64 (c.buf + c.offset) = c.buf + c.offset.toNat ∨ readCount c size = 0 := by
      have hfits := h.fits
      by_cases hz : c.buf + c.offset < 2 ^ 64
      · left
        rw [toU64_eq] <;> omega
      · right
        omega
    have hret : toOff (readCount c size) = readCount c size := toOff_eq (by omega) (by omega)
    have hadv : toOff (c.offset + readCount c size) = c.offset + readCount c size :=
      toOff_eq (by omega) (by omega)
    refine ⟨?_, ?_, fun i hi => ?_, fun x => ?_⟩
    · rw [fatRead_fst, hn, hret]
    · rw [fatRead_context, hn, hadv]
    · rw [hn] at hi
      omega
    · rw [fatRead_mem, hn, memcpy]
      rcases hsrc with hsrc | hz
      · have hapart : buf + readCount c size ≤ c.buf + c.offset.toNat ∨
            c.buf + c.offset.toNat + readCount c size ≤ buf := by
          have : readCount c size ≤ size := Nat.min_le_left ..
          omega
        rw [hsrc, Mem.copy_apply _ _ _ _ _ hapart]
        by_cases hx : buf ≤ x ∧ x < buf + readCount c size
        · rw [if_pos hx, if_pos hx, Nat.add_assoc, hfile _ (by omega)]
        · rw [if_neg hx, if_neg hx]
      · rw [hz, Mem.copy, if_neg (by omega)]

/-- The condition under which `fat_lseek` does what it is asked for. -/
def SeekHarmless (c : FatContext) (offset whence : Int) : Prop :=
  ∀ v, seekTarget c offset whence = some v → 0 ≤ v ∧ v < 2 ^ 63

/-- Taking an offset. -/
theorem seek_iff {c : FatContext} {v : Int} (h : c.Ok) (hlo : -2 ^ 63 ≤ v) (hhi : v < 2 ^ 64) :
    (toOff v, { c with offset := toOff v }) = seekResult c (some v) ↔ 0 ≤ v ∧ v < 2 ^ 63 := by
  have h0 := h.offset
  constructor
  · intro heq
    rw [seekResult] at heq
    split at heq
    · -- a negative offset is taken, not refused
      next hneg =>
      have hoff : toOff v = c.offset := congrArg FatContext.offset (Prod.mk.inj heq).2
      rw [toOff_eq hlo (by omega)] at hoff
      omega
    · next hneg =>
      have hv : toOff v = v := (Prod.mk.inj heq).1
      have := toOff_lt v
      omega
  · rintro ⟨hpos, hlt⟩
    rw [seekResult, if_neg (by omega), toOff_eq hlo hlt]

theorem lseekOk_iff {c : FatContext} {offset whence : Int} (h : c.Ok) (hmax : c.offset < 2 ^ 63)
    (hlo : -2 ^ 63 ≤ offset) (hhi : offset < 2 ^ 63) :
    LseekOk c offset whence ↔ SeekHarmless c offset whence := by
  have h0 := h.offset
  have hf := h.size
  have hsome : ∀ v : Int, (∀ w, some v = some w → 0 ≤ w ∧ w < 2 ^ 63) ↔ 0 ≤ v ∧ v < 2 ^ 63 :=
    fun v => ⟨fun hw => hw v rfl, fun hv w hw => Option.some.inj hw ▸ hv⟩
  unfold LseekOk SeekHarmless
  rw [fatLseek.eq_def, seekTarget.eq_def]
  split
  · rw [hsome]
    exact seek_iff h hlo (by omega)
  · rw [hsome]
    exact seek_iff h (by omega) (by omega)
  · rw [hsome]
    exact seek_iff h (by omega) (by omega)
  · exact ⟨fun _ v hv => absurd hv (by simp), fun _ => rfl⟩

/-! ## Runs of calls -/

structure FatRun where
  context : FatContext
  mem : Mem

inductive FatCall where
  | read (buf size : Nat)
  | lseek (offset whence : Int)

/-- A call with arguments of their types; the buffer of a read lies outside the file's block. -/
def FatCall.Valid (s : FatRun) : FatCall → Prop
  | read buf size => size < 2 ^ 64 ∧
    (buf + min size s.context.fileSize ≤ s.context.buf ∨
      s.context.buf + s.context.fileSize ≤ buf)
  | lseek offset _ => -2 ^ 63 ≤ offset ∧ offset < 2 ^ 63

/-- The calls on a file whose bytes `fat_open` has read to its block. -/
def fatMachine (file : Nat → UInt8) : Infra.Machine FatRun FatCall where
  start s := s.context.fileSize < 2 ^ 32 ∧ s.context.buf + s.context.fileSize ≤ 2 ^ 64 ∧
    s.context.offset = 0 ∧ ∀ i < s.context.fileSize, s.mem (s.context.buf + i) = file i
  step s call s' := call.Valid s ∧
    match call with
    | .read buf size =>
      let r := fatRead s.context buf size s.mem
      s' = ⟨r.2.1, r.2.2⟩
    | .lseek offset whence => s' = ⟨(fatLseek s.context offset whence).2, s.mem⟩

/-- What the call is to do. -/
def FatCall.Ok (file : Nat → UInt8) (s : FatRun) : FatCall → Prop
  | read buf size => ReadOk file s.context buf size s.mem
  | lseek offset whence => LseekOk s.context offset whence

/-- A read starts inside the file and its end is a `uint64_t`; a seek goes to an `off_t`. -/
def FatCall.Harmless (s : FatRun) : FatCall → Prop
  | read _ size => s.context.offset ≤ s.context.fileSize ∧ s.context.offset + size < 2 ^ 64
  | lseek offset whence => SeekHarmless s.context offset whence

structure FatRun.Ok (file : Nat → UInt8) (s : FatRun) : Prop where
  context : s.context.Ok
  max : s.context.offset < 2 ^ 63
  content : ∀ i < s.context.fileSize, s.mem (s.context.buf + i) = file i

theorem FatRun.Ok.call_iff {file : Nat → UInt8} {s : FatRun} (h : s.Ok file) {call : FatCall}
    (hv : call.Valid s) : call.Ok file s ↔ call.Harmless s := by
  cases call with
  | read buf size => exact readOk_iff h.context hv.1 h.max h.content hv.2
  | lseek offset whence => exact lseekOk_iff h.context h.max hv.1 hv.2

theorem seekResult_ok {c : FatContext} (h : c.Ok) (hmax : c.offset < 2 ^ 63) {o : Option Int}
    (ho : ∀ v, o = some v → 0 ≤ v ∧ v < 2 ^ 63) :
    (seekResult c o).2.Ok ∧ (seekResult c o).2.offset < 2 ^ 63 ∧
      (seekResult c o).2.buf = c.buf ∧ (seekResult c o).2.fileSize = c.fileSize := by
  cases o with
  | none => exact ⟨h, hmax, rfl, rfl⟩
  | some v =>
    obtain ⟨hpos, hlt⟩ := ho v rfl
    rw [seekResult, if_neg (by omega)]
    exact ⟨⟨h.size, h.fits, hpos⟩, hlt, rfl, rfl⟩

/-- A harmless call keeps the cursor in its type and the bytes of the file in place. -/
theorem fatStep_ok {file : Nat → UInt8} {s s' : FatRun} {call : FatCall} (h : s.Ok file)
    (hok : call.Harmless s) (hstep : (fatMachine file).step s call s') : s'.Ok file := by
  obtain ⟨hv, hstep⟩ := hstep
  have hcall := (h.call_iff hv).mpr hok
  have h0 := h.context.offset
  cases call with
  | read buf size =>
    cases hstep
    have hcount : readCount s.context size ≤ s.context.fileSize - s.context.offset.toNat :=
      Nat.min_le_right ..
    have hcount' : readCount s.context size ≤ size := Nat.min_le_left ..
    have hoff : s.context.offset ≤ s.context.fileSize := hok.1
    have hf := h.context.size
    refine ⟨?_, ?_, fun i hi => ?_⟩
    · rw [hcall.advances]
      exact ⟨hf, h.context.fits, Int.add_nonneg h0 (Int.natCast_nonneg _)⟩
    · rw [hcall.advances]
      show s.context.offset + readCount s.context size < 2 ^ 63
      omega
    · show (fatRead s.context buf size s.mem).2.2 (s.context.buf + i) = file i
      have hi : i < s.context.fileSize := hi
      have hdis := hv.2
      rw [hcall.copies, if_neg (by omega), h.content i hi]
  | lseek offset whence =>
    cases hstep
    have hres : fatLseek s.context offset whence = _ := hcall
    obtain ⟨hc, hmax, hbuf, hsize⟩ := seekResult_ok h.context h.max hok
    rw [← hres] at hc hmax hbuf hsize
    refine ⟨hc, hmax, fun i hi => ?_⟩
    have hi : i < s.context.fileSize := hsize ▸ hi
    show s.mem ((fatLseek s.context offset whence).2.buf + i) = file i
    rw [hbuf, h.content i hi]

theorem fatMachine_inv {file : Nat → UInt8} {s : FatRun}
    (h : ((fatMachine file).restrict FatCall.Harmless).Reachable s) : s.Ok file := by
  refine h.invariant (FatRun.Ok file) ?_ ?_
  · rintro s ⟨hsize, hfits, hoff, hcontent⟩
    exact ⟨⟨hsize, hfits, hoff ▸ Int.le_refl 0⟩, hoff ▸ by decide, hcontent⟩
  · rintro s call s' hs ⟨hok, hstep⟩
    exact fatStep_ok hs hok hstep

/--
In every run of harmless calls, the next call does what a file of bytes with a cursor does if
and only if it is harmless too.
-/
theorem fatMachine_call_iff {file : Nat → UInt8} {s : FatRun}
    (h : ((fatMachine file).restrict FatCall.Harmless).Reachable s) (call : FatCall)
    (hv : call.Valid s) : call.Ok file s ↔ call.Harmless s :=
  (fatMachine_inv h).call_iff hv

/-- A file of ten bytes, its block at 4096. -/
def tenBytes : FatRun := ⟨⟨4096, 10, 0⟩, fun x => UInt8.ofNat (x - 4096)⟩

theorem tenBytes_start : (fatMachine UInt8.ofNat).start tenBytes :=
  ⟨by decide, by decide, rfl, fun i _ => congrArg UInt8.ofNat (Nat.add_sub_cancel_left 4096 i)⟩

/-- The first four bytes are read to address 0. -/
theorem fatMachine_call_iff_four : ReadOk UInt8.ofNat tenBytes.context 0 4 tenBytes.mem :=
  (fatMachine_call_iff (.start tenBytes_start) (.read 0 4)
    ⟨by decide, .inl (by decide)⟩).mpr ⟨by decide, by decide⟩

/-- After a seek to 20, a read of one byte copies 2 ^ 64 - 10 bytes from behind the file. -/
theorem fatMachine_read_behind : ∃ s, (fatMachine UInt8.ofNat).Reachable s ∧
    FatCall.Valid s (.read 0 1) ∧ ¬ FatCall.Ok UInt8.ofNat s (.read 0 1) ∧
    fatReadSize s.context 1 = 2 ^ 64 - 10 := by
  have h1 : (fatMachine UInt8.ofNat).Reachable ⟨⟨4096, 10, 20⟩, tenBytes.mem⟩ :=
    .step (a := .lseek 20 0) (.start tenBytes_start) ⟨⟨by decide, by decide⟩, rfl⟩
  refine ⟨_, h1, ⟨by decide, .inl (by decide)⟩, fun hok => ?_, by decide⟩
  exact absurd (ReadOk.inside hok 0 (by decide)).2 (by decide)

end Raincloud
