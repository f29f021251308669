import CaravelSoc.Management.UartLink

/-!
# From one UART to another

Two management cores with their serial pins crossed, out of debug mode. What one
processor writes comes out at the other one in order, through the transmit FIFO,
the line and the receive FIFO; only a full receive FIFO loses a byte. The writing
side waits for room, as `putchar` does.
-/

open Sequential

namespace CaravelSoc.Management

namespace Uart

/-- The UART after the reset; the memories of the FIFOs keep their words. -/
def reset (txStorage rxStorage : BitVec 4 → BitVec 8) (txDout rxDout : BitVec 8) : Uart where
  txFifo := resetFifo txStorage txDout
  tx := .reset
  regs0 := false
  regs1 := false
  rx := .reset
  rxFifo := resetFifo rxStorage rxDout

/-- A byte that is written and stored. -/
def written (s : Uart) (i : Inputs) : List (BitVec 8) := s.txFifo.accepted (s.txRequest i)

/-- The byte the transmitter takes. -/
def sent (s : Uart) : List (BitVec 8) := if s.tx.busy then [] else s.txSource.toList

/-- The byte the processor drops from the receive FIFO when it clears the event. -/
def read (s : Uart) (i : Inputs) : List (BitVec 8) := s.rxFifo.taken (s.rxRequest i)

/-- The bytes that are written and not yet taken by the transmitter, which leaves a byte in the
FIFO until it has sent it. -/
def waiting (s : Uart) : List (BitVec 8) :=
  if s.tx.busy then s.txFifo.contents.tail else s.txFifo.contents

/-- The byte being sent is the one the FIFO shows. -/
structure TxValid (s : Uart) : Prop where
  fifo : s.txFifo.Valid
  readable : s.tx.busy = true → s.txFifo.readable = true

/-- The receiver has a byte and the FIFO no room for it. -/
def Overflow (s : Uart) : Prop := s.rxSource.isSome = true ∧ s.rxFifo.writable = false

instance (s : Uart) : Decidable s.Overflow := inferInstanceAs (Decidable (_ ∧ _))

variable {tuning : BitVec 32} {s : Uart} {i : Inputs}

theorem resetFifo_valid (storage : BitVec 4 → BitVec 8) (dout : BitVec 8) :
    (resetFifo storage dout).Valid := ⟨Nat.zero_le _, rfl⟩

/-- The transmit side over one clock. -/
theorem TxValid.step (h : s.TxValid) (tuning : BitVec 32) (i : Inputs) :
    (s.clockEdge tuning i).TxValid ∧
      s.waiting ++ s.written i = s.sent ++ (s.clockEdge tuning i).waiting := by
  have hqueue : s.txFifo.contents ++ s.written i =
      s.txFifo.taken (s.txRequest i) ++ (s.clockEdge tuning i).txFifo.contents :=
    Fifo.contents_step h.fifo (s.txRequest i)
  have hvalid : (s.clockEdge tuning i).txFifo.Valid := Fifo.valid_step h.fifo (s.txRequest i)
  cases hbusy : s.tx.busy with
  | false =>
    have hready : s.tx.sinkReady = false := by simp [UartTx.sinkReady, hbusy]
    have htaken : s.txFifo.taken (s.txRequest i) = [] := by simp [Fifo.taken, txRequest, hready]
    have hnext : (s.clockEdge tuning i).tx.busy = s.txFifo.readable := by
      simp only [clockEdge, UartTx.clockEdge, hbusy, txSource]
      cases s.txFifo.readable <;> rfl
    rw [htaken, List.nil_append] at hqueue
    refine ⟨⟨hvalid, fun hreadable ↦ ?_⟩, ?_⟩
    · rw [hnext] at hreadable
      simp [clockEdge, Fifo.step, txRequest, hready, hreadable]
    · rw [waiting, waiting, sent, hnext, hbusy, if_neg (by decide), if_neg (by decide), hqueue]
      cases hreadable : s.txFifo.readable with
      | false => simp [txSource, hreadable]
      | true =>
        rw [← hqueue, Fifo.contents_of_readable hreadable]
        simp [txSource, hreadable]
  | true =>
    have hreadable := h.readable hbusy
    have hnext : (s.clockEdge tuning i).tx.busy = !s.tx.sinkReady := by
      simp [clockEdge, UartTx.clockEdge, hbusy]
    have htail : s.waiting ++ s.written i = (s.txFifo.contents ++ s.written i).tail := by
      rw [waiting, hbusy, if_pos rfl, Fifo.contents_of_readable hreadable]
      rfl
    have hsent : s.sent = [] := by simp [sent, hbusy]
    rw [htail, hsent, List.nil_append, hqueue, waiting, hnext]
    cases hready : s.tx.sinkReady with
    | true =>
      have htaken : s.txFifo.taken (s.txRequest i) = [s.txFifo.dout] := by
        simp [Fifo.taken, txRequest, hready, hreadable]
      refine ⟨⟨hvalid, fun hagain ↦ ?_⟩, ?_⟩
      · rw [hnext, hready] at hagain
        cases hagain
      · rw [htaken]
        rfl
    | false =>
      have htaken : s.txFifo.taken (s.txRequest i) = [] := by
        simp [Fifo.taken, txRequest, hready]
      refine ⟨⟨hvalid, fun _ ↦ ?_⟩, ?_⟩
      · simp [clockEdge, Fifo.step, txRequest, hready, hreadable]
      · rw [htaken]
        rfl

/-- What the receive FIFO stores of what the receiver passes on. -/
theorem stored_eq (hroom : ¬s.Overflow) (i : Inputs) :
    s.rxFifo.accepted (s.rxRequest i) = s.rxSource.toList := by
  rw [Fifo.accepted]
  split
  · rfl
  · next hfull =>
    cases hsource : s.rxSource with
    | none => rfl
    | some byte => exact absurd ⟨by rw [hsource]; rfl, by simpa using hfull⟩ hroom

theorem stored_sublist (i : Inputs) :
    (s.rxFifo.accepted (s.rxRequest i)).Sublist s.rxSource.toList := by
  rw [Fifo.accepted]
  split
  · exact List.Sublist.refl _
  · exact List.nil_sublist _

end Uart

/-! ## Two of them -/

/-- Two UARTs, each on the serial output of the other. -/
structure UartPair where
  a : Uart
  b : Uart

namespace UartPair

/-- What a clock brings from the two processors. -/
structure Inputs where
  rxtxA : Option (BitVec 8)
  pendingA : Option (BitVec 2)
  rxtxB : Option (BitVec 8)
  pendingB : Option (BitVec 2)
  deriving DecidableEq, Repr

def inputsA (s : UartPair) (i : Inputs) : Uart.Inputs where
  rxtx := i.rxtxA
  pending := i.pendingA
  sysUartRx := s.b.tx.line

def inputsB (s : UartPair) (i : Inputs) : Uart.Inputs where
  rxtx := i.rxtxB
  pending := i.pendingB
  sysUartRx := s.a.tx.line

/-- One clock. -/
def clockEdge (tA tB : BitVec 32) (s : UartPair) (i : Inputs) : UartPair where
  a := s.a.clockEdge tA (s.inputsA i)
  b := s.b.clockEdge tB (s.inputsB i)

/-- The same pair seen from the other side. -/
def swap (s : UartPair) : UartPair where
  a := s.b
  b := s.a

def Inputs.swap (i : Inputs) : Inputs where
  rxtxA := i.rxtxB
  pendingA := i.pendingB
  rxtxB := i.rxtxA
  pendingB := i.pendingA

/-- The line from `a` to `b`. -/
def link (s : UartPair) : UartLink where
  tx := s.a.tx
  regs0 := s.b.regs0
  regs1 := s.b.regs1
  rx := s.b.rx

variable {tA tB : BitVec 32} {s : UartPair} {i : Inputs}

/-- What holds of the way from `a` to `b` with `pending` on the line. -/
structure Ready (tA tB : BitVec 32) (s : UartPair) (pending : List (BitVec 8)) : Prop where
  tx : s.a.TxValid
  line : s.link.Carries tA tB pending
  rxFifo : s.b.rxFifo.Valid

/-- The bytes between the receiver of `b` and its processor. -/
def arrived (s : UartPair) (i : Inputs) : List (BitVec 8) :=
  s.b.rxFifo.accepted (s.b.rxRequest (s.inputsB i))

theorem received_link (s : UartPair) : s.link.received = s.b.rxSource.toList := by
  change (if s.b.rx.sourceValid s.b.regs1 then [s.b.rx.data] else []) =
    (if s.b.rx.sourceValid s.b.regs1 then some s.b.rx.data else none).toList
  split <;> rfl

/-- The way from `a` to `b` over one clock. -/
theorem Ready.step (hc : Compatible tA tB) {pending : List (BitVec 8)} (h : Ready tA tB s pending)
    (i : Inputs) :
    ∃ pending', Ready tA tB (s.clockEdge tA tB i) pending' ∧
      pending ++ s.a.waiting ++ s.a.written (s.inputsA i) =
        s.b.rxSource.toList ++ (pending' ++ (s.clockEdge tA tB i).a.waiting) := by
  obtain ⟨htx, hwaiting⟩ := h.tx.step tA (s.inputsA i)
  obtain ⟨pending', hline, hpending⟩ := h.line.step hc s.a.txSource
  refine ⟨pending', ⟨htx, hline, Fifo.valid_step h.rxFifo _⟩, ?_⟩
  rw [received_link] at hpending
  change pending ++ s.a.sent = _ at hpending
  rw [List.append_assoc, hwaiting, ← List.append_assoc, hpending, List.append_assoc]
  rfl

theorem Ready.run (hc : Compatible tA tB) {pending : List (BitVec 8)} (h : Ready tA tB s pending)
    (inputs : List Inputs) :
    ∃ pending', Ready tA tB (run (clockEdge tA tB) s inputs) pending' ∧
      pending ++ s.a.waiting ++
          trace (clockEdge tA tB) (fun s i ↦ s.a.written (s.inputsA i)) s inputs =
        trace (clockEdge tA tB) (fun s _ ↦ s.b.rxSource.toList) s inputs ++
          (pending' ++ (run (clockEdge tA tB) s inputs).a.waiting) := by
  induction inputs generalizing s pending with
  | nil => exact ⟨pending, h, by rw [trace, trace, List.append_nil]; rfl⟩
  | cons i rest ih =>
    obtain ⟨pending1, hready, hfirst⟩ := h.step hc i
    obtain ⟨pending', hend, hrest⟩ := ih hready
    refine ⟨pending', hend, ?_⟩
    rw [trace, trace, ← List.append_assoc, hfirst, List.append_assoc, hrest, List.append_assoc]
    rfl

/-- The receive FIFO of `b` over a run. -/
theorem rxFifo_run (tA tB : BitVec 32) (h : s.b.rxFifo.Valid) (inputs : List Inputs) :
    s.b.rxFifo.contents ++ trace (clockEdge tA tB) arrived s inputs =
      trace (clockEdge tA tB) (fun s i ↦ s.b.read (s.inputsB i)) s inputs ++
        (run (clockEdge tA tB) s inputs).b.rxFifo.contents := by
  induction inputs generalizing s with
  | nil => rw [trace, trace, List.append_nil]; rfl
  | cons i rest ih =>
    have hfirst := Fifo.contents_step h (s.b.rxRequest (s.inputsB i))
    have hvalid := Fifo.valid_step h (s.b.rxRequest (s.inputsB i))
    have hrest := ih (s := s.clockEdge tA tB i) hvalid
    rw [trace, trace, List.append_assoc, run, ← hrest, ← List.append_assoc, ← List.append_assoc]
    congr 1

theorem arrived_sublist (inputs : List Inputs) :
    (trace (clockEdge tA tB) arrived s inputs).Sublist
      (trace (clockEdge tA tB) (fun s _ ↦ s.b.rxSource.toList) s inputs) := by
  induction inputs generalizing s with
  | nil => exact List.Sublist.refl _
  | cons i rest ih => exact (Uart.stored_sublist _).append ih

/-- What the processor of `b` has read and can still read is a part of what was written to `a`, in
the order of writing; unless the receive FIFO overflows the rest is on its way. -/
structure Delivers (tA tB : BitVec 32) (s : UartPair) (inputs : List Inputs) : Prop where
  sublist : (trace (clockEdge tA tB) (fun s i ↦ s.b.read (s.inputsB i)) s inputs ++
      (run (clockEdge tA tB) s inputs).b.rxFifo.contents).Sublist
    (trace (clockEdge tA tB) (fun s i ↦ s.a.written (s.inputsA i)) s inputs)
  complete : Along (clockEdge tA tB) (fun s _ ↦ ¬s.b.Overflow) s inputs →
    ∃ pending : List (BitVec 8), pending.length ≤ 1 ∧
      ((run (clockEdge tA tB) s inputs).a.tx.busy = false → pending = []) ∧
      trace (clockEdge tA tB) (fun s i ↦ s.a.written (s.inputsA i)) s inputs =
        trace (clockEdge tA tB) (fun s i ↦ s.b.read (s.inputsB i)) s inputs ++
          (run (clockEdge tA tB) s inputs).b.rxFifo.contents ++
          (pending ++ (run (clockEdge tA tB) s inputs).a.waiting)

/-- Nothing is stored and nothing is under way. -/
structure Fresh (tA tB : BitVec 32) (s : UartPair) : Prop where
  ready : Ready tA tB s []
  waiting : s.a.waiting = []
  contents : s.b.rxFifo.contents = []

theorem Fresh.delivers (hc : Compatible tA tB) (h : Fresh tA tB s) (inputs : List Inputs) :
    Delivers tA tB s inputs := by
  obtain ⟨pending, hend, hwritten⟩ := h.ready.run hc inputs
  have hread := rxFifo_run tA tB h.ready.rxFifo inputs
  rw [h.waiting, List.nil_append, List.nil_append] at hwritten
  rw [h.contents, List.nil_append] at hread
  constructor
  · rw [← hread, hwritten]
    exact (arrived_sublist inputs).trans (List.sublist_append_left _ _)
  · intro hroom
    refine ⟨pending, hend.line.length_le, hend.line.eq_nil, ?_⟩
    have hall : trace (clockEdge tA tB) arrived s inputs =
        trace (clockEdge tA tB) (fun s _ ↦ s.b.rxSource.toList) s inputs :=
      trace_congr (hroom.mono fun s i hno ↦ Uart.stored_eq hno (s.inputsB i))
    rw [← hread, hall, hwritten]

/-- Both sides after the reset. -/
structure IsReset (s : UartPair) : Prop where
  a : ∃ tx rx txDout rxDout, s.a = Uart.reset tx rx txDout rxDout
  b : ∃ tx rx txDout rxDout, s.b = Uart.reset tx rx txDout rxDout

theorem IsReset.fresh (h : s.IsReset) : Fresh tA tB s := by
  obtain ⟨⟨txA, rxA, txDoutA, rxDoutA, ha⟩, ⟨txB, rxB, txDoutB, rxDoutB, hb⟩⟩ := h
  constructor
  · constructor
    · rw [ha]
      exact ⟨Uart.resetFifo_valid txA txDoutA, fun hbusy ↦ by cases hbusy⟩
    · have hquiet : s.link.Quiet := by
        constructor <;> simp [link, ha, hb, Uart.reset, UartTx.reset, UartRx.reset]
      exact .quiet hquiet
    · rw [hb]
      exact Uart.resetFifo_valid rxB rxDoutB
  · rw [ha]
    rfl
  · rw [hb]
    rfl

theorem IsReset.swap (h : s.IsReset) : s.swap.IsReset := ⟨h.b, h.a⟩

/-- Both sides after a reset at which all memories are clear. -/
def clear : UartPair where
  a := .reset (fun _ ↦ 0x00#8) (fun _ ↦ 0x00#8) 0x00#8 0x00#8
  b := .reset (fun _ ↦ 0x00#8) (fun _ ↦ 0x00#8) 0x00#8 0x00#8

theorem clear_isReset : clear.IsReset := ⟨⟨_, _, _, _, rfl⟩, ⟨_, _, _, _, rfl⟩⟩

/-- Both processors write a byte at the same clock. -/
def bothWrite : Inputs where
  rxtxA := some 0x41#8
  pendingA := none
  rxtxB := some 0x42#8
  pendingB := none

/-- A clock without any access. -/
def idle : Inputs where
  rxtxA := none
  pendingA := none
  rxtxB := none
  pendingB := none

/-- One bit in 64 clocks. -/
def fastTuning : BitVec 32 := 67108864#32

theorem fast_compatible : Compatible fastTuning fastTuning := by constructor <;> decide

/-- Both processors write, and the bytes have the time to arrive. -/
def bytesCross : List Inputs := bothWrite :: List.replicate 650 idle

/-- The receive FIFO has room for 16 bytes that nobody reads. -/
theorem Fresh.roomy (hc : Compatible tA tB) (h : Fresh tA tB s) (inputs : List Inputs)
    (hfew : (trace (clockEdge tA tB) (fun s i ↦ s.a.written (s.inputsA i)) s inputs).length < 16) :
    Along (clockEdge tA tB) (fun s _ ↦ ¬s.b.Overflow) s inputs := by
  rw [along_iff_forall_append]
  rintro front i back rfl ⟨-, hfull⟩
  obtain ⟨pending, hend, -⟩ := h.ready.run hc front
  have hlength := (h.delivers hc front).sublist.length_le
  rw [trace_append, List.length_append] at hfew
  rw [List.length_append] at hlength
  have hlevel : (run (clockEdge tA tB) s front).b.rxFifo.level.toNat < 2 ^ 4 := by
    have hle := Fifo.level_le_length_contents (run (clockEdge tA tB) s front).b.rxFifo
    omega
  rw [Fifo.writable_of_level_lt hlevel] at hfull
  cases hfull

end UartPair

end CaravelSoc.Management
