import CaravelSoc.Management.Interconnect
import CaravelSoc.Management.Uart

/-!
# The bridge behind the debug UART

A host on the serial line is a master of the bus. It sends commands, each a code, a
length and an address, followed by words if they are to be written; the bridge does
the accesses one after another and sends back the words it read. A command that
takes too long is given up.
-/

open Sequential

namespace CaravelSoc.Management

/-- `uartwishbonebridge_state`, from 0 on. -/
inductive BridgeState
  | receiveCmd
  | receiveLength
  | receiveAddress
  | receiveData
  | writeData
  | readData
  | sendData
  deriving DecidableEq, Repr

/-- The registers of `dbg_uart`, with the synchronizer `multiregimpl1` in front of the receiver. -/
structure UartBridge where
  tx : UartTx
  regs0 : Bool
  regs1 : Bool
  rx : UartRx
  state : BridgeState
  cmd : BitVec 8
  incr : Bool
  length : BitVec 8
  address : BitVec 32
  data : BitVec 32
  bytesCount : BitVec 2
  wordsCount : BitVec 8
  count : BitVec 20
  deriving DecidableEq, Repr

/-- The codes of the commands that write. -/
def isWriteCmd (cmd : BitVec 8) : Bool := cmd == 1#8 || cmd == 3#8

/-- The codes of the commands that read. -/
def isReadCmd (cmd : BitVec 8) : Bool := cmd == 2#8 || cmd == 4#8

/-- A byte shifted into a word, the lowest bits last. -/
def shiftByte (word : BitVec 32) (byte : BitVec 8) : BitVec 32 := (word ++ byte).setWidth 32

/-- `dbg_uart_address + dbg_uart_incr`. -/
def nextAddress (incr : Bool) (address : BitVec 32) : BitVec 32 :=
  address + (BitVec.ofBool incr).setWidth 32

namespace UartBridge

/-- The registers after a reset; `length` keeps what it was. -/
def reset (length : BitVec 8) (regs0 regs1 : Bool) : UartBridge where
  tx := .reset
  regs0 := regs0
  regs1 := regs1
  rx := .reset
  state := .receiveCmd
  cmd := 0#8
  incr := false
  length := length
  address := 0#32
  data := 0#32
  bytesCount := 0#2
  wordsCount := 0#8
  count := 1000000#20

/-- What a clock brings: the line, and the bus. -/
structure Inputs where
  dbgUartRx : Bool
  ack : Bool
  datR : BitVec 32
  deriving DecidableEq, Repr

variable (s : UartBridge) (i : Inputs)

def done : Bool := s.count == 0#20

/-- `dbg_uart_rx_source_ready`: a byte that comes at another time is lost. -/
def sourceReady : Bool :=
  match s.state with
  | .receiveCmd | .receiveLength | .receiveAddress | .receiveData => true
  | .writeData | .readData | .sendData => false

/-- The byte that the receiver passes on. -/
def rxSource : Option (BitVec 8) := if s.rx.sourceValid s.regs1 then some s.rx.data else none

def lastByte : Bool := s.bytesCount == 3#2

def lastWord : Bool := s.wordsCount == s.length - 1#8

/-- `dbg_uart_tx_sink_payload_data`. -/
def sinkData : BitVec 8 :=
  match s.bytesCount.toNat with
  | 0 => s.data.extractLsb' 24 8
  | 1 => s.data.extractLsb' 16 8
  | 2 => s.data.extractLsb' 8 8
  | _ => s.data.extractLsb' 0 8

/-- The byte offered to the transmitter. -/
def txSink : Option (BitVec 8) := if s.state = .sendData then some s.sinkData else none

/-- The transmitter is through with the byte. -/
def sinkReady : Bool := s.tx.sinkReady

/-- The lines of the bridge as a master. -/
def wishbone : Wishbone where
  adr := s.address.setWidth 30
  datW := s.data
  sel := 15#4
  we := s.state == .writeData
  cyc := s.state == .writeData || s.state == .readData
  stb := s.state == .writeData || s.state == .readData

/-- `uartwishbonebridge_next_state`. -/
def nextState : BridgeState :=
  match s.state with
  | .receiveCmd => if s.rxSource.isSome then .receiveLength else .receiveCmd
  | .receiveLength => if s.rxSource.isSome then .receiveAddress else .receiveLength
  | .receiveAddress =>
    if s.rxSource.isSome && s.lastByte then
      if isWriteCmd s.cmd then .receiveData
      else if isReadCmd s.cmd then .readData
      else .receiveCmd
    else .receiveAddress
  | .receiveData => if s.rxSource.isSome && s.lastByte then .writeData else .receiveData
  | .writeData => if i.ack then if s.lastWord then .receiveCmd else .receiveData else .writeData
  | .readData => if i.ack then .sendData else .readData
  | .sendData =>
    if s.sinkReady && s.lastByte then if s.lastWord then .receiveCmd else .readData else .sendData

/-- One clock. -/
def clockEdge : UartBridge where
  tx := s.tx.clockEdge dbgUartTuning s.txSink
  regs0 := i.dbgUartRx
  regs1 := s.regs0
  rx := s.rx.clockEdge dbgUartTuning s.regs1
  state := if s.done then .receiveCmd else s.nextState i
  cmd :=
    match s.state with
    | .receiveCmd => s.rxSource.getD s.cmd
    | _ => s.cmd
  incr :=
    if s.done then false
    else
      match s.state with
      | .receiveAddress =>
        if s.rxSource.isSome && s.lastByte then
          if isWriteCmd s.cmd then s.cmd == 1#8
          else if isReadCmd s.cmd then s.cmd == 2#8
          else s.incr
        else s.incr
      | _ => s.incr
  length :=
    match s.state with
    | .receiveLength => s.rxSource.getD s.length
    | _ => s.length
  address :=
    match s.state with
    | .receiveAddress => s.rxSource.toList.foldl shiftByte s.address
    | .writeData => if i.ack then nextAddress s.incr s.address else s.address
    | .sendData =>
      if s.sinkReady && s.lastByte then nextAddress s.incr s.address else s.address
    | _ => s.address
  data :=
    match s.state with
    | .receiveData => s.rxSource.toList.foldl shiftByte s.data
    | .readData => if i.ack then i.datR else s.data
    | _ => s.data
  bytesCount :=
    match s.state with
    | .receiveCmd => 0#2
    | .receiveAddress | .receiveData =>
      if s.rxSource.isSome then s.bytesCount + 1#2 else s.bytesCount
    | .sendData => if s.sinkReady then s.bytesCount + 1#2 else s.bytesCount
    | _ => s.bytesCount
  wordsCount :=
    match s.state with
    | .receiveCmd => 0#8
    | .writeData => if i.ack then s.wordsCount + 1#8 else s.wordsCount
    | .sendData => if s.sinkReady && s.lastByte then s.wordsCount + 1#8 else s.wordsCount
    | _ => s.wordsCount
  count :=
    if s.state ≠ .receiveCmd then if !s.done then s.count - 1#20 else s.count else 1000000#20

end UartBridge

/-! ## Commands -/

/-- An access of the bus. -/
inductive BusAccess
  | write (adr : BitVec 30) (data : BitVec 32)
  | read (adr : BitVec 30)
  deriving DecidableEq, Repr

/-- The bytes of a word on the line, the highest first. -/
def wordBytes (word : BitVec 32) : List (BitVec 8) :=
  [word.extractLsb' 24 8, word.extractLsb' 16 8, word.extractLsb' 8 8, word.extractLsb' 0 8]

/-- The number of words; a length of zero stands for 256. -/
def wordCount (length : BitVec 8) : ℕ := (length - 1#8).toNat + 1

def writeAccesses (incr : Bool) : BitVec 32 → List (BitVec 32) → List BusAccess
  | _, [] => []
  | address, word :: words =>
    .write (address.setWidth 30) word :: writeAccesses incr (nextAddress incr address) words

def readAccesses (incr : Bool) : BitVec 32 → ℕ → List BusAccess
  | _, 0 => []
  | address, n + 1 =>
    .read (address.setWidth 30) :: readAccesses incr (nextAddress incr address) n

/-- A command of the host, with as many words as it announces. -/
structure Command where
  cmd : BitVec 8
  length : BitVec 8
  address : BitVec 32
  words : List (BitVec 32)
  length_words : words.length = if isWriteCmd cmd then wordCount length else 0

namespace Command

/-- What the host sends. -/
def bytes (c : Command) : List (BitVec 8) :=
  c.cmd :: c.length :: (wordBytes c.address ++ c.words.flatMap wordBytes)

/-- What is to happen on the bus; the code also says whether the address counts. -/
def accesses (c : Command) : List BusAccess :=
  if isWriteCmd c.cmd then writeAccesses (c.cmd == 1#8) c.address c.words
  else if isReadCmd c.cmd then readAccesses (c.cmd == 2#8) c.address (wordCount c.length)
  else []

end Command

end CaravelSoc.Management
