import Raincloud.Arch.SerialPort
import Raincloud.Infra.Word

/-!
# The serial port over runs

At the abstract level there is a line with the bytes sent so far and a stream of bytes from the
other side, of which some have been taken. The driver waits before each byte, so whatever the
delays are nothing is lost: calls send what is in their buffers, one call behind the other, and
take the stream as it comes.
-/

set_option linter.style.nameCheck false

namespace Raincloud

open Infra

namespace Serial

variable {e : UartEnv} {s : SerialState} {d : Uart} {buffer n : Nat}

/-! ## The line -/

structure Line where
  sent : List UInt8
  taken : Nat
  mem : Mem

def line (s : SerialState) : Line := ⟨s.device.sent, s.device.taken, s.mem⟩

/-- The UART behind `serial_port_init`: 115200 baud, 8 data bits, 2 stop bits, no parity. -/
structure Configured (d : Uart) : Prop where
  lcr : d.lcr = 0x07
  divisorHigh : d.divisorHigh = 0
  divisorLow : d.divisorLow = 1

theorem Configured.latched (h : Configured d) : d.latched = false := by
  unfold Uart.latched
  rw [h.lcr]
  rfl

/-- The UART shows the line and is set up. -/
def Shows (s : SerialState) (t : Line) : Prop := line s = t ∧ Configured s.device

theorem write8_lcr (v : Nat) : d.write8 e 0x3FB v = { d with lcr := v } := if_pos rfl

theorem write8_latched (h : d.lcr = 0x87) (v : Nat) :
    d.write8 e 0x3F8 v = { d with divisorLow := v } ∧
      d.write8 e 0x3F9 v = { d with divisorHigh := v } := by
  have hlatched : d.latched = true := by
    rw [Uart.latched, h]
    rfl
  simp [Uart.write8, hlatched]

theorem serialPortInit_run (e : UartEnv) (s : SerialState) :
    ∃ s', serialPortInit e s = .ok (0, s') ∧ Shows s' (line s) := by
  have hrun : serialPortInit e s = .ok (0, ⟨(((s.device.write8 e 0x3FB 0x87).write8 e 0x3F9
      0).write8 e 0x3F8 1).write8 e 0x3FB 0x07, s.mem⟩) := rfl
  simp only [write8_lcr] at hrun
  rw [(write8_latched rfl 0).2, (write8_latched rfl 1).1] at hrun
  exact ⟨_, hrun, rfl, rfl, rfl, rfl⟩

/-! ## Waiting -/

theorem status_and {bit : Nat} (hbit : 0xde &&& bit = 0) : d.status e &&& bit =
    (if d.txBusy = 0 then 0x20 else 0) &&& bit |||
      (if d.rxBusy = 0 then 0x01 else 0) &&& bit := by
  rw [Uart.status, Nat.and_or_distrib_right, Nat.and_or_distrib_right, Nat.and_assoc, hbit,
    Nat.and_zero, Nat.zero_or]

theorem status_txrdy : d.status e &&& lsrTxrdy = 0 ↔ d.txBusy ≠ 0 := by
  rw [status_and (by decide)]
  by_cases htx : d.txBusy = 0 <;> by_cases hrx : d.rxBusy = 0 <;> simp [htx, hrx, lsrTxrdy]

theorem status_rxda : d.status e &&& lsrRxda = 0 ↔ d.rxBusy ≠ 0 := by
  rw [status_and (by decide)]
  by_cases htx : d.txBusy = 0 <;> by_cases hrx : d.rxBusy = 0 <;> simp [htx, hrx, lsrRxda]

/-- The UART after the status has been read `i` times. -/
def Uart.polled (d : Uart) (i : Nat) : Uart :=
  { d with txBusy := d.txBusy - i, rxBusy := d.rxBusy - i, clock := d.clock + i }

/-- The wait for a flag that comes up after `n` readings. -/
theorem returns_waitFor {flag : Nat}
    (hflag : ∀ i, (s.device.polled i).status e &&& flag = 0 ↔ i < n) :
    Program.Returns (waitFor flag) e s () { s with device := s.device.polled (n + 1) } := by
  have hpoll : ∀ i b, decide ((s.device.polled i).status e &&& flag = 0) = b →
      (do return decide ((← __ioRead8 (gUartBase + lsrOffset)) &&& flag = 0) : SerialM Bool) e
        { s with device := s.device.polled i }
        = .ok (b, { s with device := s.device.polled (i + 1) }) := by
    rintro i b rfl
    rfl
  exact Program.returns_pollLoop (fun i => { s with device := s.device.polled i })
    (fun i hi => hpoll i true (decide_eq_true ((hflag i).mpr hi)))
    (hpoll n false (decide_eq_false fun h => absurd ((hflag n).mp h) (Nat.lt_irrefl n)))

/-- The driver waits until the data register is empty. -/
theorem returns_waitTxrdy (h : Configured s.device) :
    ∃ d, Program.Returns (waitFor lsrTxrdy) e s () { s with device := d } ∧ d.txBusy = 0 ∧
      d.sent = s.device.sent ∧ d.taken = s.device.taken ∧ Configured d := by
  refine ⟨_, returns_waitFor (n := s.device.txBusy) fun i => ?_,
    Nat.sub_eq_zero_of_le (Nat.le_succ _), rfl, rfl, h.lcr, h.divisorHigh, h.divisorLow⟩
  rw [status_txrdy]
  show s.device.txBusy - i ≠ 0 ↔ i < s.device.txBusy
  omega

/-- The driver waits until the next byte is there. -/
theorem returns_waitRxda (h : Configured s.device) :
    ∃ d, Program.Returns (waitFor lsrRxda) e s () { s with device := d } ∧ d.rxBusy = 0 ∧
      d.sent = s.device.sent ∧ d.taken = s.device.taken ∧ Configured d := by
  refine ⟨_, returns_waitFor (n := s.device.rxBusy) fun i => ?_,
    Nat.sub_eq_zero_of_le (Nat.le_succ _), rfl, rfl, h.lcr, h.divisorHigh, h.divisorLow⟩
  rw [status_rxda]
  show s.device.rxBusy - i ≠ 0 ↔ i < s.device.rxBusy
  omega

/-! ## Bytes -/

/-- The bytes of a buffer go onto the line. -/
def Line.send (t : Line) (buffer n : Nat) : Line :=
  { t with sent := t.sent ++ t.mem.bytes buffer n }

/-- The next bytes of the other side go into a buffer. -/
def Line.receive (incoming : Nat → UInt8) (t : Line) (buffer n : Nat) : Line :=
  { t with mem := t.mem.put buffer n fun j => incoming (t.taken + j), taken := t.taken + n }

theorem returns_writeBytes : ∀ (n buffer : Nat) (s : SerialState) (t : Line), Shows s t →
    ∃ s', Program.Returns (fun fuel => writeBytes fuel buffer n) e s () s' ∧
      Shows s' (t.send buffer n) := by
  intro n
  induction n with
  | zero =>
    intro buffer s t h
    refine ⟨s, .of_run rfl, ?_⟩
    rw [Line.send, Mem.bytes, List.append_nil]
    exact h
  | succ n ih =>
    rintro buffer s t ⟨rfl, hconf⟩
    obtain ⟨d, hwait, hfree, hsent, htaken, hconf'⟩ := returns_waitTxrdy (e := e) hconf
    let written : SerialState := { s with device := { d with
      sent := s.device.sent ++ [s.mem buffer], txBusy := e.txDelay d } }
    have hwrite : __ioWrite8 gUartBase (s.mem buffer).toNat e { s with device := d }
        = .ok ((), written) := by
      simp [__ioWrite8, Uart.write8, gUartBase, hconf'.latched, hfree, hsent, written]
    obtain ⟨s', hrest, hshows⟩ := ih (buffer + 1) written (line written)
      ⟨rfl, hconf'.lcr, hconf'.divisorHigh, hconf'.divisorLow⟩
    refine ⟨s', hwait.bind (.step Program.gets_apply (.step hwrite hrest)), ?_⟩
    have hline : (line s).send buffer (n + 1) = (line written).send (buffer + 1) n := by
      simp [Line.send, line, Mem.bytes, htaken, written]
    rw [hline]
    exact hshows

/-- A byte and the bytes behind it. -/
theorem put_update (m : Mem) (a n : Nat) (f : Nat → UInt8) :
    Mem.put (Function.update m a (f 0)) (a + 1) n (fun j => f (j + 1)) = m.put a (n + 1) f := by
  have hone : (Function.update m a (f 0) : Mem) = m.put a 1 fun _ => f 0 := by
    funext x
    by_cases hx : x = a
    · subst hx
      simp [Mem.put]
    · rw [Function.update_of_ne hx, Mem.put, if_neg (by omega)]
  rw [hone, Mem.put_put, Nat.add_comm 1 n]
  refine Mem.put_congr fun j _ => ?_
  rcases Nat.eq_zero_or_pos j with rfl | hj
  · simp
  · rw [if_neg (by omega), Nat.sub_add_cancel hj]

theorem bytes_put (m : Mem) (a n : Nat) (f : Nat → UInt8) :
    (m.put a n f).bytes a n = (List.range n).map f := by
  refine List.ext_getElem? fun i => ?_
  by_cases hi : i < n
  · rw [Mem.getElem?_bytes _ hi, Mem.put, if_pos ⟨Nat.le_add_right a i, by omega⟩]
    simp [hi]
  · rw [List.getElem?_eq_none (by simpa using hi), List.getElem?_eq_none (by simpa using hi)]

theorem returns_readBytes : ∀ (n buffer : Nat) (s : SerialState) (t : Line), Shows s t →
    ∃ s', Program.Returns (fun fuel => readBytes fuel buffer n) e s () s' ∧
      Shows s' (t.receive e.incoming buffer n) := by
  intro n
  induction n with
  | zero =>
    intro buffer s t h
    refine ⟨s, .of_run rfl, ?_⟩
    rw [Line.receive, Mem.put_zero]
    exact h
  | succ n ih =>
    rintro buffer s t ⟨rfl, hconf⟩
    obtain ⟨d, hwait, hthere, hsent, htaken, hconf'⟩ := returns_waitRxda (e := e) hconf
    let taken : Uart := { d with taken := s.device.taken + 1, rxBusy := e.rxDelay d }
    let stored : SerialState :=
      ⟨taken, Function.update s.mem buffer (e.incoming s.device.taken)⟩
    have hread : __ioRead8 gUartBase e { s with device := d }
        = .ok ((e.incoming s.device.taken).toNat, { s with device := taken }) := by
      simp [__ioRead8, Uart.read8, gUartBase, hconf'.latched, hthere, htaken, taken]
    have hstore : (Program.modify fun t : SerialState => { t with
        mem := Function.update t.mem buffer (UInt8.ofNat (e.incoming s.device.taken).toNat) } :
        SerialM Unit) e { s with device := taken } = .ok ((), stored) := by
      simp [stored]
    obtain ⟨s', hrest, hshows⟩ := ih (buffer + 1) stored (line stored)
      ⟨rfl, hconf'.lcr, hconf'.divisorHigh, hconf'.divisorLow⟩
    refine ⟨s', hwait.bind (.step hread (.step hstore hrest)), ?_⟩
    have hline : (line s).receive e.incoming buffer (n + 1)
        = (line stored).receive e.incoming (buffer + 1) n := by
      rw [Line.receive, ← put_update]
      simp only [Line.receive, line, stored, taken, hsent, Nat.add_assoc,
        Nat.add_comm 1, Nat.add_zero]
    rw [hline]
    exact hshows

/-! ## Calls -/

inductive SerialCall where
  | write (buffer numberOfBytes : Nat)
  | read (buffer numberOfBytes : Nat)
  | poll
  /-- The rest of the kernel works on the memory. -/
  | other (f : Mem → Mem)

namespace SerialCall

def run (fuel : Nat) : SerialCall → SerialM Nat
  | write buffer n => serialPortWrite fuel buffer n
  | read buffer n => serialPortRead fuel buffer n
  | poll => serialPortPoll
  | other f => do
    Program.modify fun s => { s with mem := f s.mem }
    return 0

/-- What the call returns: all its bytes, or none of a `NULL` buffer. -/
def Answers : SerialCall → Nat → Prop
  | write buffer n, a => a = if buffer = 0 then 0 else n
  | read buffer n, a => a = if buffer = 0 then 0 else n
  | poll, a => a = 0 ∨ a = 1
  | other _, a => a = 0

end SerialCall

/-- What the call does to the line. -/
def Line.apply (incoming : Nat → UInt8) (t : Line) : SerialCall → Line
  | .write buffer n => if buffer = 0 then t else t.send buffer n
  | .read buffer n => if buffer = 0 then t else t.receive incoming buffer n
  | .poll => t
  | .other f => { t with mem := f t.mem }

variable {t : Line}

theorem returns_serialPortWrite (h : Shows s t) (buffer n : Nat) :
    ∃ a s', Program.Returns (fun fuel => serialPortWrite fuel buffer n) e s a s' ∧
      (SerialCall.write buffer n).Answers a ∧
      Shows s' (t.apply e.incoming (.write buffer n)) := by
  by_cases hbuffer : buffer = 0
  · refine ⟨0, s, ⟨0, fun fuel _ => ?_⟩, (if_pos hbuffer).symm, ?_⟩
    · simp only [serialPortWrite, if_pos hbuffer]
      rfl
    · rw [Line.apply, if_pos hbuffer]
      exact h
  · obtain ⟨s', hrun, hshows⟩ := returns_writeBytes (e := e) n buffer s t h
    refine ⟨n, s', ?_, (if_neg hbuffer).symm, ?_⟩
    · simp only [serialPortWrite, if_neg hbuffer]
      exact hrun.bind (.of_run rfl)
    · rw [Line.apply, if_neg hbuffer]
      exact hshows

theorem returns_serialPortRead (h : Shows s t) (buffer n : Nat) :
    ∃ a s', Program.Returns (fun fuel => serialPortRead fuel buffer n) e s a s' ∧
      (SerialCall.read buffer n).Answers a ∧
      Shows s' (t.apply e.incoming (.read buffer n)) := by
  by_cases hbuffer : buffer = 0
  · refine ⟨0, s, ⟨0, fun fuel _ => ?_⟩, (if_pos hbuffer).symm, ?_⟩
    · simp only [serialPortRead, if_pos hbuffer]
      rfl
    · rw [Line.apply, if_pos hbuffer]
      exact h
  · obtain ⟨s', hrun, hshows⟩ := returns_readBytes (e := e) n buffer s t h
    refine ⟨n, s', ?_, (if_neg hbuffer).symm, ?_⟩
    · simp only [serialPortRead, if_neg hbuffer]
      exact hrun.bind (.of_run rfl)
    · rw [Line.apply, if_neg hbuffer]
      exact hshows

theorem serialPortPoll_run (h : Shows s t) :
    ∃ a s', serialPortPoll e s = .ok (a, s') ∧ SerialCall.poll.Answers a ∧ Shows s' t := by
  obtain ⟨rfl, hconf⟩ := h
  refine ⟨if s.device.status e &&& lsrRxda ≠ 0 then 1 else 0, ⟨s.device.polled 1, s.mem⟩, rfl, ?_,
    rfl, hconf.lcr, hconf.divisorHigh, hconf.divisorLow⟩
  by_cases hdata : s.device.status e &&& lsrRxda = 0
  · exact .inl (if_neg fun h => h hdata)
  · exact .inr (if_pos hdata)

/-- Every call does to the line what it is for. -/
theorem returns_call (h : Shows s t) : ∀ c : SerialCall,
    ∃ a s', Program.Returns (fun fuel => c.run fuel) e s a s' ∧ c.Answers a ∧
      Shows s' (t.apply e.incoming c)
  | .write buffer n => returns_serialPortWrite h buffer n
  | .read buffer n => returns_serialPortRead h buffer n
  | .poll => by
    obtain ⟨a, s', hrun, hanswer, hshows⟩ := serialPortPoll_run (e := e) h
    exact ⟨a, s', .of_run hrun, hanswer, hshows⟩
  | .other f => by
    obtain ⟨rfl, hconf⟩ := h
    exact ⟨0, { s with mem := f s.mem }, .of_run rfl, rfl, rfl, hconf⟩

theorem returns_calls (h : Shows s t) (calls : List SerialCall) :
    ∃ as s', Program.Returns (fun fuel => Program.runAll (SerialCall.run fuel) calls) e s as s' ∧
      List.Forall₂ SerialCall.Answers calls as ∧
      Shows s' (calls.foldl (Line.apply e.incoming) t) := by
  induction calls generalizing s t with
  | nil => exact ⟨[], s, .of_run rfl, .nil, h⟩
  | cons c calls ih =>
    obtain ⟨a, s₁, hrun, hanswer, hshows⟩ := returns_call (e := e) h c
    obtain ⟨as, s₂, hruns, hanswers, hshows'⟩ := ih hshows
    exact ⟨a :: as, s₂, hrun.bind (hruns.bind (.of_run rfl)), .cons hanswer hanswers, hshows'⟩

/-- Behind `serial_port_init` calls end however long the UART takes, return the bytes they were
given, and send and take these in order. -/
theorem line_of_run (e : UartEnv) (s : SerialState) (calls : List SerialCall) :
    ∃ s₀ as s', serialPortInit e s = .ok (0, s₀) ∧
      Program.Returns (fun fuel => Program.runAll (SerialCall.run fuel) calls) e s₀ as s' ∧
      List.Forall₂ SerialCall.Answers calls as ∧ Configured s'.device ∧
      line s' = calls.foldl (Line.apply e.incoming) (line s) := by
  obtain ⟨s₀, hinit, hshows⟩ := serialPortInit_run e s
  obtain ⟨as, s', hruns, hanswers, hline, hconf⟩ := returns_calls (e := e) hshows calls
  exact ⟨s₀, as, s', hinit, hruns, hanswers, hconf, hline⟩

/-! ## From one machine to another -/

/-- The writes of one machine. -/
theorem foldl_write {incoming : Nat → UInt8} (ws : List (Nat × Nat)) (hws : ∀ w ∈ ws, w.1 ≠ 0)
    (t : Line) : (ws.map fun w => SerialCall.write w.1 w.2).foldl (Line.apply incoming) t
      = { t with sent := t.sent ++ ws.flatMap fun w => t.mem.bytes w.1 w.2 } := by
  induction ws generalizing t with
  | nil => simp
  | cons w ws ih =>
    rw [List.map_cons, List.foldl_cons, ih fun w' hw' => hws w' (List.mem_cons_of_mem w hw')]
    rw [Line.apply, if_neg (hws w List.mem_cons_self)]
    simp [Line.send]

/-- The reads of the other machine leave what they do not read into. -/
theorem foldl_read_mem {incoming : Nat → UInt8} (rs : List (Nat × Nat)) {a k : Nat}
    (hapart : ∀ r ∈ rs, a + k ≤ r.1 ∨ r.1 + r.2 ≤ a) (t : Line) :
    ((rs.map fun r => SerialCall.read r.1 r.2).foldl (Line.apply incoming) t).mem.bytes a k
      = t.mem.bytes a k := by
  induction rs generalizing t with
  | nil => rfl
  | cons r rs ih =>
    rw [List.map_cons, List.foldl_cons, ih fun r' hr' => hapart r' (List.mem_cons_of_mem r hr')]
    have hr := hapart r List.mem_cons_self
    rw [Line.apply]
    split
    · rfl
    · refine Mem.bytes_congr fun x hlo hhi => if_neg ?_
      omega

/-- The reads of the other machine take the stream as it comes, whatever their sizes. -/
theorem foldl_read {incoming : Nat → UInt8} (rs : List (Nat × Nat)) (hrs : ∀ r ∈ rs, r.1 ≠ 0)
    (hapart : rs.Pairwise fun r r' => r.1 + r.2 ≤ r'.1 ∨ r'.1 + r'.2 ≤ r.1) (t : Line) :
    (rs.flatMap fun r =>
        ((rs.map fun r => SerialCall.read r.1 r.2).foldl (Line.apply incoming) t).mem.bytes r.1 r.2)
      = (List.range (rs.map Prod.snd).sum).map fun i => incoming (t.taken + i) := by
  induction rs generalizing t with
  | nil => rfl
  | cons r rs ih =>
    obtain ⟨hfirst, hrest⟩ := List.pairwise_cons.mp hapart
    have hreceive : t.apply incoming (.read r.1 r.2) = t.receive incoming r.1 r.2 :=
      if_neg (hrs r List.mem_cons_self)
    rw [List.map_cons, List.foldl_cons, hreceive, List.flatMap_cons, List.map_cons, List.sum_cons,
      ih (fun r' hr' => hrs r' (List.mem_cons_of_mem r hr')) hrest, foldl_read_mem rs hfirst,
      List.range_add, List.map_append]
    congr 1
    · exact bytes_put t.mem r.1 r.2 fun i => incoming (t.taken + i)
    · simp [Line.receive, Nat.add_assoc, Function.comp_def]

/-- Two machines on one cable: what one of them writes in any pieces the other reads in any
pieces. -/
theorem transfer (e₁ e₂ : UartEnv) (s₁ s₂ : SerialState) (ws rs : List (Nat × Nat))
    (hws : ∀ w ∈ ws, w.1 ≠ 0) (hrs : ∀ r ∈ rs, r.1 ≠ 0)
    (hapart : rs.Pairwise fun r r' => r.1 + r.2 ≤ r'.1 ∨ r'.1 + r'.2 ≤ r.1) :
    ∃ i₁ i₂ as₁ as₂ s₁' s₂', serialPortInit e₁ s₁ = .ok (0, i₁) ∧
      serialPortInit e₂ s₂ = .ok (0, i₂) ∧
      Program.Returns (fun fuel => Program.runAll (SerialCall.run fuel)
        (ws.map fun w => .write w.1 w.2)) e₁ i₁ as₁ s₁' ∧
      Program.Returns (fun fuel => Program.runAll (SerialCall.run fuel)
        (rs.map fun r => .read r.1 r.2)) e₂ i₂ as₂ s₂' ∧
      ((∀ i < (rs.map Prod.snd).sum, s₁'.device.sent[s₁.device.sent.length + i]?
          = some (e₂.incoming (s₂.device.taken + i))) →
        (rs.flatMap fun r => s₂'.mem.bytes r.1 r.2)
          <+: ws.flatMap fun w => s₁.mem.bytes w.1 w.2) := by
  obtain ⟨i₁, as₁, s₁', hinit₁, hrun₁, -, -, hline₁⟩ :=
    line_of_run e₁ s₁ (ws.map fun w => .write w.1 w.2)
  obtain ⟨i₂, as₂, s₂', hinit₂, hrun₂, -, -, hline₂⟩ :=
    line_of_run e₂ s₂ (rs.map fun r => .read r.1 r.2)
  refine ⟨i₁, i₂, as₁, as₂, s₁', s₂', hinit₁, hinit₂, hrun₁, hrun₂, fun hcable => ?_⟩
  rw [foldl_write ws hws] at hline₁
  have hsent : s₁'.device.sent = s₁.device.sent ++ ws.flatMap fun w => s₁.mem.bytes w.1 w.2 :=
    congrArg Line.sent hline₁
  have hmem : s₂'.mem = ((rs.map fun r => SerialCall.read r.1 r.2).foldl
      (Line.apply e₂.incoming) (line s₂)).mem := congrArg Line.mem hline₂
  rw [hmem, foldl_read rs hrs hapart (line s₂), List.prefix_iff_getElem?]
  intro i hi
  have hbyte := hcable i (by simpa using hi)
  rw [hsent, List.getElem?_append_right (Nat.le_add_right _ i), Nat.add_sub_cancel_left] at hbyte
  rw [hbyte]
  simp [line]

/-- A UART that takes three readings for a byte out and five for a byte in. -/
def slowUart : UartEnv := ⟨fun i => UInt8.ofNat (0x41 + i), fun _ => 3, fun _ => 5, fun _ => 0⟩

def resetUart : SerialState := ⟨⟨0, 0, 0, 0, [], 0, 0, 0, 0⟩, fun x => UInt8.ofNat (x - 0xbf)⟩

theorem transfer_slow : ∃ i₁ i₂ as₁ as₂ s₁' s₂', serialPortInit slowUart resetUart = .ok (0, i₁) ∧
    serialPortInit slowUart resetUart = .ok (0, i₂) ∧
    Program.Returns (fun fuel => Program.runAll (SerialCall.run fuel)
      ([(0x100, 2), (0x102, 1)].map fun w => .write w.1 w.2)) slowUart i₁ as₁ s₁' ∧
    Program.Returns (fun fuel => Program.runAll (SerialCall.run fuel)
      ([(0x300, 1), (0x200, 2)].map fun r => .read r.1 r.2)) slowUart i₂ as₂ s₂' ∧
    ((∀ i < 3, s₁'.device.sent[resetUart.device.sent.length + i]?
        = some (slowUart.incoming (resetUart.device.taken + i))) →
      ([(0x300, 1), (0x200, 2)].flatMap fun r => s₂'.mem.bytes r.1 r.2)
        <+: [(0x100, 2), (0x102, 1)].flatMap fun w => resetUart.mem.bytes w.1 w.2) :=
  transfer slowUart slowUart resetUart resetUart [(0x100, 2), (0x102, 1)] [(0x300, 1), (0x200, 2)]
    (by simp) (by simp) (by simp)

end Serial

end Raincloud
