import CaravelSoc.Management.UartPath

/-!
# Printing

The time it takes until everything written is out, and the two functions of the
firmware that write: `putchar` waits for room in the transmit FIFO, `print` sends
a text with it. The processor may come to its next access at any clock.
-/

open Sequential Sequential.PhaseAccumulator

namespace CaravelSoc.Management

/-! ## How long it takes -/

/-- The clocks of one frame. -/
def frameClocks (tuning : BitVec 32) : ℕ := (10 * 2 ^ 32 + tuning.toNat - 1) / tuning.toNat

theorem lt_frameClocks_iff {tuning : BitVec 32} (hpos : 0 < tuning.toNat) (k : ℕ) :
    k < frameClocks tuning ↔ ticks 0 tuning.toNat k < 10 := by
  rw [frameClocks, ← Nat.succ_le_iff, Nat.le_div_iff_mul_le hpos, ticks, sum, Nat.succ_mul]
  omega

namespace Uart

/-- `n` clocks without a write empty the transmit side. -/
structure Due (tuning : BitVec 32) (n : ℕ) (s : Uart) : Prop where
  valid : s.TxValid
  idle : s.tx.busy = false →
    s.waiting.length * (frameClocks tuning + 1) +
      (if s.txFifo.readable = false ∧ s.waiting ≠ [] then 1 else 0) ≤ n
  busy : s.tx.busy = true → ∃ byte k, Sending tuning byte k s.tx ∧
    s.waiting.length * (frameClocks tuning + 1) + (frameClocks tuning - k) ≤ n

variable {tuning : BitVec 32} {n : ℕ} {s : Uart} {i : Inputs}

/-- Nothing is due any more. -/
theorem Due.empty (hpos : 0 < tuning.toNat) (h : Due tuning 0 s) :
    s.tx.busy = false ∧ s.waiting = [] := by
  have hidle : s.tx.busy = false := by
    rw [← Bool.not_eq_true]
    intro hbusy
    obtain ⟨byte, k, hsending, hn⟩ := h.busy hbusy
    have hlt := (lt_frameClocks_iff hpos k).2 hsending.lt
    omega
  have hn := h.idle hidle
  refine ⟨hidle, List.length_eq_zero_iff.1 ?_⟩
  by_contra hne
  have hmul := Nat.mul_le_mul_right (frameClocks tuning + 1) (Nat.pos_of_ne_zero hne)
  omega

section NoWrite

variable (hwrite : i.rxtx = none)
include hwrite

theorem waiting_clockEdge (tuning : BitVec 32) (h : s.TxValid) :
    s.waiting = s.sent ++ (s.clockEdge tuning i).waiting := by
  have hwaiting := (h.step tuning i).2
  have hwritten : s.written i = [] := by simp [written, Fifo.accepted, txRequest, hwrite]
  rwa [hwritten, List.append_nil] at hwaiting

/-- From an idle clock on, what is waiting is shown. -/
theorem readable_clockEdge (hidle : (s.clockEdge tuning i).tx.busy = false)
    (hnext : (s.clockEdge tuning i).waiting ≠ []) :
    (s.clockEdge tuning i).txFifo.readable = true := by
  rw [waiting, hidle] at hnext
  exact Fifo.readable_of_contents (i := s.txRequest i) hwrite hnext

theorem Due.step_idle (h : Due tuning n s) (hidle : s.tx.busy = false) :
    Due tuning (n - 1) (s.clockEdge tuning i) := by
  have hvalid := (h.valid.step tuning i).1
  have hwaiting := waiting_clockEdge hwrite tuning h.valid
  have hn := h.idle hidle
  have hbusy : (s.clockEdge tuning i).tx.busy = s.txFifo.readable := by
    simp only [clockEdge, UartTx.clockEdge, hidle, txSource]
    cases s.txFifo.readable <;> rfl
  have hsent : s.sent = s.txSource.toList := by rw [sent, hidle]; rfl
  cases hreadable : s.txFifo.readable with
  | true =>
    rw [hreadable] at hbusy
    have hsource : s.txSource = some s.txFifo.dout := by rw [txSource, hreadable]; rfl
    have hsending : Sending tuning s.txFifo.dout 0 (s.clockEdge tuning i).tx := by
      change Sending tuning s.txFifo.dout 0 (s.tx.clockEdge tuning s.txSource)
      rw [hsource]
      exact sending_zero hidle
    refine ⟨hvalid, fun hnot ↦ absurd (hnot.symm.trans hbusy) (by decide), fun _ ↦
      ⟨_, 0, hsending, ?_⟩⟩
    rw [hwaiting, hsent, hsource, List.length_append, Nat.add_mul] at hn
    simp only [Option.toList_some, List.length_singleton, Nat.one_mul] at hn
    omega
  | false =>
    rw [hreadable] at hbusy
    have hsource : s.txSource = none := by rw [txSource, hreadable]; rfl
    rw [hsent, hsource, Option.toList_none, List.nil_append] at hwaiting
    refine ⟨hvalid, fun _ ↦ ?_, fun hyes ↦ absurd (hbusy.symm.trans hyes) (by decide)⟩
    rw [hwaiting] at hn
    by_cases hne : (s.clockEdge tuning i).waiting = []
    · simp [hne]
    · have hshown := readable_clockEdge hwrite hbusy hne
      rw [if_pos ⟨hreadable, hne⟩] at hn
      rw [if_neg (by simp [hshown])]
      omega

theorem Due.step_busy (hpos : 0 < tuning.toNat) (h : Due tuning n s) (hbusy : s.tx.busy = true) :
    Due tuning (n - 1) (s.clockEdge tuning i) := by
  have hvalid := (h.valid.step tuning i).1
  have hwaiting := waiting_clockEdge hwrite tuning h.valid
  rw [sent, hbusy, if_pos rfl, List.nil_append] at hwaiting
  obtain ⟨byte, k, hsending, hn⟩ := h.busy hbusy
  have hlt := (lt_frameClocks_iff hpos k).2 hsending.lt
  rw [hwaiting] at hn
  refine ⟨hvalid, fun hidle ↦ ?_, fun hstill ↦ ?_⟩
  · have hshown : ¬((s.clockEdge tuning i).txFifo.readable = false ∧
        (s.clockEdge tuning i).waiting ≠ []) := by
      rintro ⟨hreadable, hne⟩
      rw [readable_clockEdge hwrite hidle hne] at hreadable
      cases hreadable
    rw [if_neg hshown]
    omega
  · by_cases hnext : ticks 0 tuning.toNat (k + 1) < 10
    · exact ⟨byte, k + 1, hsending.step s.txSource hnext, by omega⟩
    · have hten : ticks 0 tuning.toNat (k + 1) = 10 := by
        have hlt := hsending.lt
        rcases hsending.cases with ⟨-, hsame⟩ | ⟨-, hup⟩ <;> omega
      have hidle := (hsending.step_last s.txSource hten).1
      exact absurd (hidle.symm.trans hstill) (by decide)

theorem Due.step (hpos : 0 < tuning.toNat) (h : Due tuning n s) :
    Due tuning (n - 1) (s.clockEdge tuning i) := by
  cases hbusy : s.tx.busy with
  | false => exact h.step_idle hwrite hbusy
  | true => exact h.step_busy hwrite hpos hbusy

end NoWrite

end Uart

namespace UartPair

variable {tA tB : BitVec 32} {s : UartPair} {n : ℕ}

/-- The clocks in which a full transmit side empties. -/
def drainClocks (tuning : BitVec 32) : ℕ := 17 * (frameClocks tuning + 1) + 1

theorem Ready.due {pending : List (BitVec 8)} (h : Ready tA tB s pending) :
    s.a.Due tA (drainClocks tA) := by
  have hcontents := Fifo.length_contents_le h.tx.fifo
  refine ⟨h.tx, fun hidle ↦ ?_, fun hbusy ↦ ?_⟩
  · have hlength : s.a.waiting.length ≤ 17 := by
      rw [Uart.waiting, hidle]
      exact hcontents
    have hmul := Nat.mul_le_mul_right (frameClocks tA + 1) hlength
    have hone : (if s.a.txFifo.readable = false ∧ s.a.waiting ≠ [] then 1 else 0) ≤ 1 := by
      split <;> decide
    rw [drainClocks]
    omega
  · have hlength : s.a.waiting.length ≤ 16 := by
      rw [Uart.waiting, hbusy, if_pos rfl, List.length_tail]
      exact Nat.sub_le_of_le_add hcontents
    have hmul := Nat.mul_le_mul_right (frameClocks tA + 1) hlength
    cases h.line with
    | quiet hquiet => exact absurd (hquiet.tx_busy.symm.trans hbusy) (by decide)
    | inFlight byte k hflight =>
      refine ⟨byte, k, hflight.sending, ?_⟩
      rw [drainClocks]
      omega

theorem due_run (tB : BitVec 32) (hpos : 0 < tA.toNat) (h : s.a.Due tA n) (inputs : List Inputs)
    (hwrite : ∀ i ∈ inputs, i.rxtxA = none) :
    (run (clockEdge tA tB) s inputs).a.Due tA (n - inputs.length) := by
  induction inputs generalizing s n with
  | nil => exact h
  | cons i rest ih =>
    rw [List.forall_mem_cons] at hwrite
    have hfirst := h.step (i := s.inputsA i) hwrite.1 hpos
    have hrest := ih (s := s.clockEdge tA tB i) hfirst hwrite.2
    rwa [Nat.sub_sub, Nat.add_comm, ← List.length_cons] at hrest

theorem written_of_no_write (s : UartPair) {inputs : List Inputs}
    (hwrite : ∀ i ∈ inputs, i.rxtxA = none) :
    trace (clockEdge tA tB) (fun s i ↦ s.a.written (s.inputsA i)) s inputs = [] := by
  apply trace_eq_nil (P := fun _ i ↦ i.rxtxA = none)
  · intro s i hi
    simp [Uart.written, Fifo.accepted, Uart.txRequest, inputsA, hi]
  · exact along_of_forall hwrite

end UartPair

/-! ## The firmware -/

/-- What `putchar` writes: a line feed goes out behind a carriage return. -/
def putchar (c : BitVec 8) : List (BitVec 8) := if c = 0x0A#8 then [0x0D#8, c] else [c]

/-- What `print` writes. -/
def print (p : List (BitVec 8)) : List (BitVec 8) := p.flatMap putchar

/-- The processor of `a` in `print`: what it has still to write, and whether it has left the loop
`while (reg_uart_txfull == 1)` of `putchar` for the first of these. -/
structure Printing where
  pair : UartPair
  todo : List (BitVec 8)
  ready : Bool

namespace Printing

/-- What a clock brings: whether the processor of `a` makes its next access, and the others'
accesses. -/
structure Event where
  access : Bool
  pendingA : Option (BitVec 2)
  rxtxB : Option (BitVec 8)
  pendingB : Option (BitVec 2)
  deriving DecidableEq, Repr

/-- The byte written to `reg_uart_data`. -/
def writes (s : Printing) (e : Event) : Option (BitVec 8) :=
  if e.access && s.ready then s.todo.head? else none

def inputs (s : Printing) (e : Event) : UartPair.Inputs where
  rxtxA := s.writes e
  pendingA := e.pendingA
  rxtxB := e.rxtxB
  pendingB := e.pendingB

/-- One clock. An access reads `reg_uart_txfull`, or writes once that was zero. -/
def clockEdge (tA tB : BitVec 32) (s : Printing) (e : Event) : Printing where
  pair := s.pair.clockEdge tA tB (s.inputs e)
  todo := if e.access && s.ready then s.todo.tail else s.todo
  ready := if e.access then !s.ready && !s.pair.a.txfullStatus else s.ready

variable {tA tB : BitVec 32} {s : Printing} {e : Event}

/-- Behind the loop there is room. -/
structure Polled (s : Printing) : Prop where
  fifo : s.pair.a.txFifo.Valid
  room : s.ready = true → s.pair.a.txFifo.writable = true

/-- Nothing that is printed is lost at the transmit FIFO. -/
theorem Polled.step (h : s.Polled) (tA tB : BitVec 32) (e : Event) :
    (s.clockEdge tA tB e).Polled ∧
      s.todo = s.pair.a.written (s.pair.inputsA (s.inputs e)) ++ (s.clockEdge tA tB e).todo := by
  have hvalid : (s.clockEdge tA tB e).pair.a.txFifo.Valid := Fifo.valid_step h.fifo _
  cases hwrites : e.access && s.ready with
  | true =>
    rw [Bool.and_eq_true] at hwrites
    obtain ⟨haccess, hready⟩ := hwrites
    refine ⟨⟨hvalid, fun hagain ↦ ?_⟩, ?_⟩
    · simp [clockEdge, haccess, hready] at hagain
    · have hroom := h.room hready
      cases htodo : s.todo with
      | nil =>
        simp [Uart.written, Fifo.accepted, Uart.txRequest, UartPair.inputsA, inputs, writes,
          clockEdge, haccess, hready, htodo]
      | cons byte rest =>
        simp [Uart.written, Fifo.accepted, Uart.txRequest, UartPair.inputsA, inputs, writes,
          clockEdge, haccess, hready, htodo, hroom]
  | false =>
    have hnone : s.writes e = none := by rw [writes, hwrites]; rfl
    refine ⟨⟨hvalid, fun hready ↦ ?_⟩, ?_⟩
    · apply Fifo.writable_step h.fifo ?_ hnone
      cases haccess : e.access with
      | true =>
        have hboth : s.ready = false ∧ s.pair.a.txFifo.writable = true := by
          simpa [clockEdge, haccess, Uart.txfullStatus] using hready
        exact hboth.2
      | false =>
        apply h.room
        simpa [clockEdge, haccess] using hready
    · simp [Uart.written, Fifo.accepted, Uart.txRequest, UartPair.inputsA, inputs, hnone,
        clockEdge, hwrites]

theorem Polled.run (h : s.Polled) (tA tB : BitVec 32) (events : List Event) :
    s.todo = trace (clockEdge tA tB)
        (fun s e ↦ s.pair.a.written (s.pair.inputsA (s.inputs e))) s events ++
      (run (clockEdge tA tB) s events).todo := by
  induction events generalizing s with
  | nil => rfl
  | cons e rest ih =>
    obtain ⟨hpolled, hfirst⟩ := h.step tA tB e
    rw [hfirst, ih hpolled, trace, List.append_assoc]
    rfl

/-- The inputs of the pair over a run. -/
def pairInputs (tA tB : BitVec 32) (s : Printing) (events : List Event) : List UartPair.Inputs :=
  trace (clockEdge tA tB) (fun s e ↦ [s.inputs e]) s events

theorem pair_run (s : Printing) (events : List Event) :
    (run (clockEdge tA tB) s events).pair =
      run (UartPair.clockEdge tA tB) s.pair (pairInputs tA tB s events) := by
  induction events generalizing s with
  | nil => rfl
  | cons e rest ih => exact ih _

theorem pair_trace {Obs : Type*} (tA tB : BitVec 32)
    (observe : UartPair → UartPair.Inputs → List Obs) (s : Printing) (events : List Event) :
    trace (clockEdge tA tB) (fun s e ↦ observe s.pair (s.inputs e)) s events =
      trace (UartPair.clockEdge tA tB) observe s.pair (pairInputs tA tB s events) := by
  induction events generalizing s with
  | nil => rfl
  | cons e rest ih =>
    rw [trace, ih]
    rfl

theorem pair_along {P : UartPair → Prop} {s : Printing} {events : List Event}
    (h : Along (clockEdge tA tB) (fun s _ ↦ P s.pair) s events) :
    Along (UartPair.clockEdge tA tB) (fun s _ ↦ P s) s.pair (pairInputs tA tB s events) := by
  induction events generalizing s with
  | nil => trivial
  | cons e rest ih => exact ⟨h.1, ih h.2⟩

/-- The processor of `a` is about to print an empty line. -/
def emptyLine : Printing where
  pair := .clear
  todo := print [0x0A#8]
  ready := false

/-- A clock at which the processor of `a` makes its next access, or does not come to it. -/
def accessIf (access : Bool) : Event where
  access := access
  pendingA := none
  rxtxB := none
  pendingB := none

/-- The accesses for the two bytes of the line, and the time for the first one to arrive. -/
def linePrinted : List Event :=
  List.replicate 4 (accessIf true) ++ List.replicate 650 (accessIf false)

end Printing

end CaravelSoc.Management
