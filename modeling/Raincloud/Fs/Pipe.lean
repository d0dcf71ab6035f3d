import Raincloud.Infra.RingBuffer
import Raincloud.Infra.Run
import Raincloud.Infra.Word
import Raincloud.Mm.Layout

/-!
# The pipe of `fs_special.c`

A pipe is a buffer of 4096 bytes with a cursor for reading and one for writing. Bytes come out
in the order they went in, however the reads and writes are sized and ordered.
-/

set_option linter.style.nameCheck false

namespace Raincloud

open Infra

/-! ## The code -/

def pipeBufferSize : Nat := 4096

/-- `pipe_context_t`; `buf` is the block behind the pointer, byte by byte. -/
structure PipeContext where
  buf : Nat → UInt8
  writeOffset : Nat
  readOffset : Nat
  length : Nat

/-- `pipe_open`, with the bytes that are in the new block. -/
def pipeOpen (block : Nat → UInt8) : PipeContext := ⟨block, 0, 0, 0⟩

/-- The loop of `pipe_read`, for `n` more bytes. -/
def pipeReadLoop : Nat → Nat → PipeContext → Mem → PipeContext × Mem
  | 0, _, context, mem => (context, mem)
  | n + 1, buf, context, mem =>
    let mem := Function.update mem buf (context.buf context.readOffset)
    let readOffset := context.readOffset + 1
    let readOffset := if readOffset = pipeBufferSize then 0 else readOffset
    pipeReadLoop n (buf + 1) { context with readOffset := readOffset } mem

/-- What `pipe_read` returns, the pipe after it, and the memory of the caller. -/
def pipeRead (context : PipeContext) (buf size : Nat) (mem : Mem) : Nat × PipeContext × Mem :=
  let size := if size ≤ context.length then size else context.length
  let context := { context with length := sub64 context.length size }
  (size, pipeReadLoop size buf context mem)

/-- The loop of `pipe_write`, for `n` more bytes. -/
def pipeWriteLoop (mem : Mem) : Nat → Nat → PipeContext → PipeContext
  | 0, _, context => context
  | n + 1, buf, context =>
    let block := Function.update context.buf context.writeOffset (mem buf)
    let writeOffset := context.writeOffset + 1
    let writeOffset := if writeOffset = pipeBufferSize then 0 else writeOffset
    pipeWriteLoop mem n (buf + 1) { context with buf := block, writeOffset := writeOffset }

/-- What `pipe_write` returns, and the pipe after it. -/
def pipeWrite (context : PipeContext) (buf size : Nat) (mem : Mem) : Nat × PipeContext :=
  let room := sub64 pipeBufferSize context.length
  let size := if size ≤ room then size else room
  let context := { context with length := add64 context.length size }
  (size, pipeWriteLoop mem size buf context)

/-! ## What a pipe holds -/

/-- The cursors are inside the buffer, `length` bytes apart. -/
structure PipeContext.Ok (c : PipeContext) : Prop where
  read : c.readOffset < pipeBufferSize
  write : c.writeOffset < pipeBufferSize
  length : c.length ≤ pipeBufferSize
  apart : c.writeOffset = (c.readOffset + c.length) % pipeBufferSize

/-- The bytes in a pipe, the next one to be read first. -/
def PipeContext.held (c : PipeContext) : List UInt8 :=
  ringContents c.buf pipeBufferSize c.readOffset c.length

theorem pipeOpen_ok (block : Nat → UInt8) : (pipeOpen block).Ok :=
  ⟨Nat.two_pow_pos 12, Nat.two_pow_pos 12, Nat.zero_le _, rfl⟩

/-! ## Reading -/

/-- What `n` rounds of the loop of `pipe_read` do, with `k` more bytes behind them. -/
theorem pipeReadLoop_ok (k : Nat) : ∀ (n buf : Nat) (c : PipeContext) (m : Mem),
    c.readOffset < pipeBufferSize →
    let r := pipeReadLoop n buf c m
    r.1 = { c with readOffset := (c.readOffset + n) % pipeBufferSize } ∧
      m.SameOutside (Set.Ico buf (buf + n)) r.2 ∧
      ringContents c.buf pipeBufferSize c.readOffset (n + k)
        = r.2.bytes buf n ++ ringContents c.buf pipeBufferSize r.1.readOffset k
  | 0, buf, c, m, h => by
    refine ⟨?_, Mem.SameOutside.refl _ m, ?_⟩
    · rw [Nat.add_zero, Nat.mod_eq_of_lt h]
      rfl
    · rw [Nat.zero_add]
      rfl
  | n + 1, buf, c, m, h => by
    have hnext := ringNext_lt h
    obtain ⟨hc, hm, hheld⟩ := pipeReadLoop_ok k n (buf + 1)
      { c with readOffset := ringNext pipeBufferSize c.readOffset }
      (Function.update m buf (c.buf c.readOffset)) hnext
    refine ⟨?_, fun x hx => ?_, ?_⟩
    · refine hc.trans ?_
      show PipeContext.mk _ _ ((ringNext pipeBufferSize c.readOffset + n) % pipeBufferSize) _ = _
      rw [ringNext_eq h, Nat.mod_add_mod, Nat.add_assoc, Nat.add_comm 1 n]
    · have hne : x ≠ buf := fun he => hx (he ▸ ⟨Nat.le_refl _, by omega⟩)
      refine (hm x fun hin => hx ⟨?_, ?_⟩).trans (Function.update_of_ne hne _ _)
      · exact Nat.le_of_succ_le hin.1
      · have := hin.2
        omega
    · -- the byte just copied stays, the loop goes on behind it
      have hfirst : (pipeReadLoop (n + 1) buf c m).2 buf = c.buf c.readOffset :=
        (hm buf fun hin => absurd hin.1 (Nat.not_succ_le_self buf)).trans (Function.update_self ..)
      rw [Nat.add_right_comm, ringContents_succ _ h, Mem.bytes, hfirst, List.cons_append]
      exact congrArg _ hheld

/-- A read takes the first bytes of what the pipe holds, as many as there are. -/
theorem pipeRead_ok {c : PipeContext} (h : c.Ok) (buf size : Nat) (m : Mem) :
    let r := pipeRead c buf size m
    r.1 = min size c.length ∧ r.2.1.Ok ∧ m.SameOutside (Set.Ico buf (buf + r.1)) r.2.2 ∧
      c.held = r.2.2.bytes buf r.1 ++ r.2.1.held := by
  obtain ⟨n, hn⟩ : ∃ n, n = if size ≤ c.length then size else c.length := ⟨_, rfl⟩
  have hmin : n = min size c.length := by rw [hn, Nat.min_def]
  have hle : n ≤ c.length := hmin ▸ Nat.min_le_right ..
  have hlen := h.length
  have hsub : sub64 c.length n = c.length - n :=
    sub64_eq hle (Nat.lt_of_le_of_lt hlen (by decide))
  have hr : pipeRead c buf size m
      = (n, pipeReadLoop n buf { c with length := c.length - n } m) := by
    rw [pipeRead, ← hn, ← hsub]
  obtain ⟨hc, hm, hheld⟩ := pipeReadLoop_ok (c.length - n) n buf
    { c with length := c.length - n } m h.read
  rw [hr]
  refine ⟨hmin, ?_, hm, ?_⟩
  · rw [hc]
    refine ⟨Nat.mod_lt _ (by decide), h.write, ?_, ?_⟩
    · show c.length - n ≤ pipeBufferSize
      omega
    · show c.writeOffset = ((c.readOffset + n) % pipeBufferSize + (c.length - n)) % pipeBufferSize
      rw [Nat.mod_add_mod, Nat.add_assoc, Nat.add_sub_cancel' hle, h.apart]
  · rw [Nat.add_sub_cancel' hle] at hheld
    rw [PipeContext.held, PipeContext.held]
    refine hheld.trans ?_
    rw [hc]

/-! ## Writing -/

/-- What `n` rounds of the loop of `pipe_write` do, `k` bytes behind what is to be read. -/
theorem pipeWriteLoop_ok (m : Mem) (start : Nat) : ∀ (n k buf : Nat) (c : PipeContext),
    k + n ≤ pipeBufferSize → c.writeOffset = (start + k) % pipeBufferSize →
    let r := pipeWriteLoop m n buf c
    r.writeOffset = (start + (k + n)) % pipeBufferSize ∧ r.readOffset = c.readOffset ∧
      r.length = c.length ∧
      ringContents r.buf pipeBufferSize start (k + n)
        = ringContents c.buf pipeBufferSize start k ++ m.bytes buf n
  | 0, k, buf, c, _, h => by
    refine ⟨h, rfl, rfl, ?_⟩
    rw [Mem.bytes, List.append_nil]
    rfl
  | n + 1, k, buf, c, hk, h => by
    have hlt : c.writeOffset < pipeBufferSize := h ▸ Nat.mod_lt _ (by decide)
    have hnext : ringNext pipeBufferSize c.writeOffset = (start + (k + 1)) % pipeBufferSize := by
      rw [ringNext_eq hlt, h, Nat.mod_add_mod, Nat.add_assoc]
    obtain ⟨hw, hr, hl, hheld⟩ := pipeWriteLoop_ok m start n (k + 1) (buf + 1)
      { c with
        buf := Function.update c.buf c.writeOffset (m buf)
        writeOffset := ringNext pipeBufferSize c.writeOffset } (by omega) hnext
    have hk' : k + 1 + n = k + (n + 1) := by omega
    rw [hk'] at hw hheld
    refine ⟨hw, hr, hl, hheld.trans ?_⟩
    show ringContents (Function.update c.buf c.writeOffset (m buf)) pipeBufferSize start (k + 1)
      ++ _ = _
    rw [h, ringContents_push _ (by omega), List.append_assoc, List.singleton_append, Mem.bytes]

/-- A write puts the first bytes of its buffer behind what the pipe holds, as many as fit. -/
theorem pipeWrite_ok {c : PipeContext} (h : c.Ok) (buf size : Nat) (m : Mem) :
    let r := pipeWrite c buf size m
    r.1 = min size (pipeBufferSize - c.length) ∧ r.2.Ok ∧
      r.2.held = c.held ++ m.bytes buf r.1 := by
  have hlen := h.length
  have hroom : sub64 pipeBufferSize c.length = pipeBufferSize - c.length :=
    sub64_eq hlen (by decide)
  obtain ⟨n, hn⟩ : ∃ n, n = if size ≤ pipeBufferSize - c.length then size
    else pipeBufferSize - c.length := ⟨_, rfl⟩
  have hmin : n = min size (pipeBufferSize - c.length) := by rw [hn, Nat.min_def]
  have hle : c.length + n ≤ pipeBufferSize := by
    have : n ≤ pipeBufferSize - c.length := hmin ▸ Nat.min_le_right ..
    omega
  have hadd : add64 c.length n = c.length + n :=
    add64_eq (Nat.lt_of_le_of_lt hle (by decide))
  have hr : pipeWrite c buf size m
      = (n, pipeWriteLoop m n buf { c with length := c.length + n }) := by
    rw [pipeWrite, hroom, ← hn, ← hadd]
  obtain ⟨hw, hread, hl, hheld⟩ := pipeWriteLoop_ok m c.readOffset n c.length buf
    { c with length := c.length + n } hle h.apart
  rw [hr]
  refine ⟨hmin, ⟨?_, ?_, ?_, ?_⟩, ?_⟩
  · rw [hread]
    exact h.read
  · rw [hw]
    exact Nat.mod_lt _ (by decide)
  · rw [hl]
    exact hle
  · rw [hw, hread, hl]
  · rw [PipeContext.held, hread, hl]
    exact hheld

/-! ## Runs of reads and writes -/

/-- A pipe, with the bytes that its writes accepted and its reads returned so far. -/
structure PipeRun where
  context : PipeContext
  accepted : List UInt8
  returned : List UInt8

/-- A call with the address and size of its buffer and the memory that holds the buffer. -/
inductive PipeCall where
  | read (buf size : Nat) (mem : Mem)
  | write (buf size : Nat) (mem : Mem)

def pipeMachine : Infra.Machine PipeRun PipeCall where
  start s := ∃ block, s = ⟨pipeOpen block, [], []⟩
  step s call s' :=
    match call with
    | .read buf size mem => size < 2 ^ 64 ∧
      let r := pipeRead s.context buf size mem
      s' = ⟨r.2.1, s.accepted, s.returned ++ r.2.2.bytes buf r.1⟩
    | .write buf size mem => size < 2 ^ 64 ∧
      let r := pipeWrite s.context buf size mem
      s' = ⟨r.2, s.accepted ++ mem.bytes buf r.1, s.returned⟩

/-- What went in is what came out and what is held, in this order. -/
structure PipeRun.Ok (s : PipeRun) : Prop where
  context : s.context.Ok
  fifo : s.returned ++ s.context.held = s.accepted

theorem pipeMachine_inv {s : PipeRun} (h : pipeMachine.Reachable s) : s.Ok := by
  refine h.invariant PipeRun.Ok ?_ ?_
  · rintro s ⟨block, rfl⟩
    exact ⟨pipeOpen_ok block, rfl⟩
  · rintro s call s' hs hstep
    cases call with
    | read buf size mem =>
      obtain ⟨-, rfl⟩ := hstep
      obtain ⟨-, hok, -, hheld⟩ := pipeRead_ok hs.context buf size mem
      refine ⟨hok, ?_⟩
      rw [List.append_assoc, ← hheld, hs.fifo]
    | write buf size mem =>
      obtain ⟨-, rfl⟩ := hstep
      obtain ⟨-, hok, hheld⟩ := pipeWrite_ok hs.context buf size mem
      refine ⟨hok, ?_⟩
      rw [hheld, ← List.append_assoc, hs.fifo]

/--
After any reads and writes the cursors are in place, the bytes returned followed by the bytes
held are the bytes accepted, and the next call transfers as many bytes as it can and writes no
byte of the caller's memory but those it returns.
-/
theorem pipeMachine_fifo {s : PipeRun} (h : pipeMachine.Reachable s) :
    s.context.Ok ∧ s.returned ++ s.context.held = s.accepted ∧
      ∀ buf size mem,
        (pipeWrite s.context buf size mem).1 = min size (pipeBufferSize - s.context.length) ∧
        (pipeRead s.context buf size mem).1 = min size s.context.length ∧
        mem.SameOutside (Set.Ico buf (buf + min size s.context.length))
          (pipeRead s.context buf size mem).2.2 := by
  have hok := pipeMachine_inv h
  refine ⟨hok.context, hok.fifo, fun buf size mem => ?_⟩
  obtain ⟨hw, -⟩ := pipeWrite_ok hok.context buf size mem
  obtain ⟨hr, -, hm, -⟩ := pipeRead_ok hok.context buf size mem
  rw [hr] at hm
  exact ⟨hw, hr, hm⟩

/-- The bytes 0 to 9 written, then three read: 0, 1 and 2 come out, seven are held. -/
theorem pipeMachine_fifo_three : ∃ s, pipeMachine.Reachable s ∧ s.returned = [0, 1, 2] ∧
    s.returned ++ s.context.held = s.accepted := by
  have h0 : pipeMachine.Reachable ⟨pipeOpen fun _ => 0, [], []⟩ := .start ⟨_, rfl⟩
  have h1 : pipeMachine.Reachable ⟨_, _, _⟩ :=
    .step (a := .write 0 10 fun x => UInt8.ofNat x) h0 ⟨by decide, rfl⟩
  have h2 : pipeMachine.Reachable ⟨_, _, _⟩ :=
    .step (a := .read 0 3 fun _ => 0) h1 ⟨by decide, rfl⟩
  exact ⟨_, h2, by decide, (pipeMachine_fifo h2).2.1⟩

end Raincloud
