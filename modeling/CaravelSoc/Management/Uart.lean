import CaravelSoc.Sequential.Fifo
import CaravelSoc.Sequential.PhaseAccumulator

/-!
# The UART of the management core

The transmitter and the receiver of `mgmt_core` are state machines that a phase
accumulator paces. Each sits behind a FIFO: what is written to `uart_rxtx` waits
in one, what comes in on the line waits in the other until the receive event is
cleared.
-/

open Sequential (Fifo)
open Sequential.PhaseAccumulator (add)

namespace CaravelSoc.Management

/-- The phase increment of `uart_phy`. -/
def uartTuning : BitVec 32 := 4123168#32

/-- The phase increment of `dbg_uart`. -/
def dbgUartTuning : BitVec 32 := 49478023#32

/-- `{bit, data[7:1]}`. -/
def shiftInto (bit : Bool) (data : BitVec 8) : BitVec 8 := (data.extractLsb' 1 7).cons bit

/-! ## Transmitter -/

/-- The registers of `uart_phy_tx`; `busy` is `rs232phytx_state`, `line` is `sys_uart_tx`. -/
structure UartTx where
  busy : Bool
  data : BitVec 8
  count : BitVec 4
  tick : Bool
  phase : BitVec 32
  line : Bool
  deriving DecidableEq, Repr

namespace UartTx

def reset : UartTx where
  busy := false
  data := 0x00#8
  count := 0#4
  tick := false
  phase := 0#32
  line := true

/-- The last tick of a frame, at which the byte sent is dropped from the FIFO. -/
def sinkReady (s : UartTx) : Bool := s.busy && s.tick && s.count == 9#4

/-- One clock; `sink` is the byte offered. -/
def clockEdge (tuning : BitVec 32) (sink : Option (BitVec 8)) (s : UartTx) : UartTx :=
  match s.busy with
  | true =>
    { busy := !s.sinkReady
      data := if s.tick then shiftInto true s.data else s.data
      count := if s.tick then s.count + 1#4 else s.count
      tick := (add s.phase tuning).1
      phase := (add s.phase tuning).2
      line := if s.tick then s.data.getLsbD 0 else s.line }
  | false =>
    { busy := sink.isSome
      data := sink.getD s.data
      count := 0#4
      tick := false
      phase := tuning
      line := !sink.isSome }

end UartTx

/-! ## Receiver -/

/-- The registers of `uart_phy_rx`; `busy` is `rs232phyrx_state`. -/
structure UartRx where
  busy : Bool
  data : BitVec 8
  count : BitVec 4
  tick : Bool
  phase : BitVec 32
  rxD : Bool
  deriving DecidableEq, Repr

namespace UartRx

def reset : UartRx where
  busy := false
  data := 0x00#8
  count := 0#4
  tick := false
  phase := 0#32
  rxD := false

/-- The last tick of a frame. -/
def last (s : UartRx) : Bool := s.busy && s.tick && s.count == 9#4

/-- A frame without a stop bit is not passed on. -/
def sourceValid (s : UartRx) (rx : Bool) : Bool := s.last && rx

/-- One clock; `rx` is the line behind its synchronizer. A frame starts with a falling edge. -/
def clockEdge (tuning : BitVec 32) (rx : Bool) (s : UartRx) : UartRx :=
  match s.busy with
  | true =>
    { busy := !s.last
      data := if s.tick then shiftInto rx s.data else s.data
      count := if s.tick then s.count + 1#4 else s.count
      tick := (add s.phase tuning).1
      phase := (add s.phase tuning).2
      rxD := rx }
  | false =>
    { busy := !rx && s.rxD
      data := s.data
      count := 0#4
      tick := false
      phase := 0x80000000#32
      rxD := rx }

end UartRx

/-! ## Both, with their FIFOs -/

/-- `regs0` and `regs1` are the synchronizer `multiregimpl0`. -/
structure Uart where
  txFifo : Fifo (BitVec 8) 4
  tx : UartTx
  regs0 : Bool
  regs1 : Bool
  rx : UartRx
  rxFifo : Fifo (BitVec 8) 4

namespace Uart

/-- An empty FIFO as the reset leaves it; the memory keeps its words. -/
def resetFifo (storage : BitVec 4 → BitVec 8) (dout : BitVec 8) : Fifo (BitVec 8) 4 where
  storage := storage
  produce := 0#4
  consume := 0#4
  level := 0#5
  readable := false
  dout := dout

/-- What a clock brings: a write to `uart_rxtx`, one to `uart_ev_pending`, and `sys_uart_rx`. -/
structure Inputs where
  rxtx : Option (BitVec 8)
  pending : Option (BitVec 2)
  sysUartRx : Bool
  deriving DecidableEq, Repr

/-- `uart_rx_clear`, which also drops the byte read. -/
def Inputs.rxClear (i : Inputs) : Bool := i.pending.any fun r ↦ r.getLsbD 1

/-- What the transmit FIFO offers. -/
def txSource (s : Uart) : Option (BitVec 8) :=
  if s.txFifo.readable then some s.txFifo.dout else none

/-- What the receiver passes on. -/
def rxSource (s : Uart) : Option (BitVec 8) :=
  if s.rx.sourceValid s.regs1 then some s.rx.data else none

def txRequest (s : Uart) (i : Inputs) : Fifo.Request (BitVec 8) where
  write := i.rxtx
  re := s.tx.sinkReady

def rxRequest (s : Uart) (i : Inputs) : Fifo.Request (BitVec 8) where
  write := s.rxSource
  re := i.rxClear

/-- One clock. -/
def clockEdge (tuning : BitVec 32) (s : Uart) (i : Inputs) : Uart where
  txFifo := s.txFifo.step (s.txRequest i)
  tx := s.tx.clockEdge tuning s.txSource
  regs0 := i.sysUartRx
  regs1 := s.regs0
  rx := s.rx.clockEdge tuning s.regs1
  rxFifo := s.rxFifo.step (s.rxRequest i)

def txfullStatus (s : Uart) : Bool := !s.txFifo.writable

end Uart

end CaravelSoc.Management
