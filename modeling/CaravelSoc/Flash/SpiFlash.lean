import Mathlib.Data.BitVec

/-!
# The flash memory

The registers of `spiflash` and its four `always` blocks, run in the order of the
source at every change of the pins. The delays of the outputs are shorter than
any clock, so the levels at the pins are settled when they are read.
-/

namespace CaravelSoc

/-- One level for each of `io0` to `io3`. -/
structure Quad where
  io0 : Bool
  io1 : Bool
  io2 : Bool
  io3 : Bool
  deriving DecidableEq, Repr

namespace Quad

def none : Quad := ⟨false, false, false, false⟩
def dual : Quad := ⟨true, true, false, false⟩
def all : Quad := ⟨true, true, true, true⟩

/-- `{io3, io2, io1, io0}`. -/
def nibble (q : Quad) : BitVec 4 :=
  BitVec.ofBool q.io3 ++ BitVec.ofBool q.io2 ++ BitVec.ofBool q.io1 ++ BitVec.ofBool q.io0

end Quad

/-- The pins. -/
structure FlashPins where
  csb : Bool
  clk : Bool
  io : Quad
  deriving DecidableEq, Repr

/-- `mode_spi` and the others; a mode of zero is none of them. -/
inductive FlashMode
  | none
  | spi
  | dspiRd
  | dspiWr
  | qspiRd
  | qspiWr
  | qspiDdrRd
  | qspiDdrWr
  deriving DecidableEq, Repr

/-- The registers, and the levels of `csb` and `clk` the blocks have last run at. -/
structure SpiFlash where
  csb : Bool
  clk : Bool
  buffer : BitVec 8
  resetCount : BitVec 4
  resetMonitor : BitVec 4
  bitcount : ℕ
  bytecount : BitVec 32
  dummycount : ℕ
  spiCmd : BitVec 8
  xipCmd : BitVec 8
  spiAddr : BitVec 24
  poweredUp : Bool
  mode : FlashMode
  nextMode : FlashMode
  oe : Quad
  dout : Quad
  deriving DecidableEq, Repr

namespace SpiFlash

def latency : ℕ := 8

/-! ## `spi_action` -/

/-- What the first byte does. -/
def commandByte (s : SpiFlash) : SpiFlash :=
  if s.bytecount = 1#32 then
    { s with
      spiCmd := s.buffer
      poweredUp :=
        if s.buffer = 0xab#8 then true else if s.buffer = 0xb9#8 then false else s.poweredUp
      xipCmd := if s.buffer = 0xff#8 then 0x00#8 else s.xipCmd }
  else s

/-- The second to the fourth byte are the address. -/
def addressByte (s : SpiFlash) : SpiFlash :=
  { s with
    spiAddr :=
      if s.bytecount = 2#32 then s.buffer ++ s.spiAddr.extractLsb' 0 16
      else if s.bytecount = 3#32 then
        s.spiAddr.extractLsb' 16 8 ++ s.buffer ++ s.spiAddr.extractLsb' 0 8
      else if s.bytecount = 4#32 then s.spiAddr.extractLsb' 8 16 ++ s.buffer
      else s.spiAddr }

/-- From byte `first` on, the buffer is loaded from the memory and the address advances. The byte
count is a signed integer. -/
def loadByte (memory : BitVec 24 → BitVec 8) (first : ℤ) (s : SpiFlash) : SpiFlash :=
  if first ≤ s.bytecount.toInt then
    { s with buffer := memory s.spiAddr, spiAddr := s.spiAddr + 1#24 }
  else s

/-- The fifth byte of a command on two or four lines is the mode byte. -/
def modeByte (write : FlashMode) (s : SpiFlash) : SpiFlash :=
  if s.bytecount = 5#32 then
    { s with
      xipCmd := if s.buffer = 0xa5#8 then s.spiCmd else 0x00#8
      mode := write
      dummycount := latency }
  else s

/-- The command on two or four lines that `start` enters and that answers in `write`. -/
def wideRead (memory : BitVec 24 → BitVec 8) (start : SpiFlash → SpiFlash) (write : FlashMode)
    (s : SpiFlash) : SpiFlash :=
  loadByte memory 5 (modeByte write (addressByte (if s.bytecount = 1#32 then start s else s)))

def dspiStart (s : SpiFlash) : SpiFlash := { s with mode := .dspiRd }
def qspiStart (s : SpiFlash) : SpiFlash := { s with mode := .qspiRd }

/-- The change to both edges of the clock waits for the next falling one. -/
def ddrStart (s : SpiFlash) : SpiFlash := { s with nextMode := .qspiDdrRd }

/-- `spi_action`. -/
def spiAction (memory : BitVec 24 → BitVec 8) (s : SpiFlash) : SpiFlash :=
  let s := s.commandByte
  if s.poweredUp then
    if s.spiCmd = 0x03#8 then loadByte memory 4 s.addressByte
    else if s.spiCmd = 0xbb#8 then wideRead memory dspiStart .dspiWr s
    else if s.spiCmd = 0xeb#8 then wideRead memory qspiStart .qspiWr s
    else if s.spiCmd = 0xed#8 then wideRead memory ddrStart .qspiDdrWr s
    else s
  else s

/-! ## The blocks -/

/-- `width` bits have been shifted; a whole byte is acted on. -/
def countBits (memory : BitVec 24 → BitVec 8) (width : ℕ) (s : SpiFlash) : SpiFlash :=
  if s.bitcount + width = 8 then
    spiAction memory { s with bitcount := 0, bytecount := s.bytecount + 1#32 }
  else { s with bitcount := s.bitcount + width }

/-- `{buffer, io3_delayed, io2_delayed, io1_delayed, io0_delayed}`. -/
def shiftQuad (s : SpiFlash) (io : Quad) : SpiFlash :=
  { s with buffer := s.buffer.extractLsb' 0 4 ++ io.nibble }

/-- The upper half of the buffer on all four lines. -/
def driveQuad (s : SpiFlash) : SpiFlash :=
  { s with
    oe := .all
    dout :=
      ⟨s.buffer.getLsbD 4, s.buffer.getLsbD 5, s.buffer.getLsbD 6, s.buffer.getLsbD 7⟩ }

def ddrRdEdge (memory : BitVec 24 → BitVec 8) (io : Quad) (s : SpiFlash) : SpiFlash :=
  countBits memory 4 (s.shiftQuad io)

def ddrWrEdge (memory : BitVec 24 → BitVec 8) (s : SpiFlash) : SpiFlash :=
  let s := s.driveQuad
  countBits memory 4 { s with buffer := s.buffer.extractLsb' 0 4 ++ 0x0#4 }

/-- `always @(csb)`. -/
def csbChange (memory : BitVec 24 → BitVec 8) (s : SpiFlash) : SpiFlash :=
  if s.csb then
    let s := { s with
      buffer := 0x00#8
      bitcount := 0
      bytecount := 0#32
      mode := .spi
      oe := .none }
    if (s.xipCmd = 0xbb#8 ∨ s.xipCmd = 0xeb#8 ∨ s.xipCmd = 0xed#8) ∧
        s.resetCount = 8#4 ∧ s.resetMonitor = 8#4 then
      { s with xipCmd := 0x00#8, spiCmd := 0x03#8 }
    else s
  else if s.xipCmd ≠ 0x00#8 then
    spiAction memory { s with buffer := s.xipCmd, bitcount := 0, bytecount := 1#32 }
  else s

/-- `always @(posedge clk or posedge csb)`. -/
def monitorEdge (io : Quad) (s : SpiFlash) : SpiFlash :=
  if s.csb then { s with resetCount := 0#4, resetMonitor := 0#4 }
  else if s.resetCount < 9#4 then
    { s with
      resetCount := s.resetCount + 1#4
      resetMonitor := if io.io0 then s.resetMonitor + 1#4 else s.resetMonitor }
  else s

/-- The `case (mode)` of the block that drives the outputs. -/
def driveMode (memory : BitVec 24 → BitVec 8) (io : Quad) (s : SpiFlash) : SpiFlash :=
  match s.mode with
  | .none => s
  | .spi => { s with oe := ⟨false, true, false, false⟩, dout.io1 := s.buffer.getLsbD 7 }
  | .dspiRd => { s with oe := .none }
  | .dspiWr =>
    { s with oe := .dual, dout.io0 := s.buffer.getLsbD 6, dout.io1 := s.buffer.getLsbD 7 }
  | .qspiRd => { s with oe := .none }
  | .qspiWr => s.driveQuad
  | .qspiDdrRd => ddrRdEdge memory io s
  | .qspiDdrWr => ddrWrEdge memory s

/-- The change to the mode that was asked for. -/
def enterMode (s : SpiFlash) : SpiFlash :=
  match s.nextMode with
  | .none => s
  | .qspiDdrRd => { s with oe := .none, mode := s.nextMode, nextMode := .none }
  | .qspiDdrWr => { s.driveQuad with mode := s.nextMode, nextMode := .none }
  | _ => { s with mode := s.nextMode, nextMode := .none }

/-- `always @(csb, clk)`. -/
def levelChange (memory : BitVec 24 → BitVec 8) (io : Quad) (s : SpiFlash) : SpiFlash :=
  if !s.csb && !s.clk then
    enterMode (if 0 < s.dummycount then { s with oe := .none } else driveMode memory io s)
  else s

/-- `always @(posedge clk)`. -/
def clockEdge (memory : BitVec 24 → BitVec 8) (io : Quad) (s : SpiFlash) : SpiFlash :=
  if s.csb then s
  else if 0 < s.dummycount then { s with dummycount := s.dummycount - 1 }
  else
    match s.mode with
    | .none => s
    | .spi => countBits memory 1 { s with buffer := s.buffer.shiftConcat io.io0 }
    | .dspiRd | .dspiWr =>
      countBits memory 2 { s with buffer := (s.buffer.shiftConcat io.io1).shiftConcat io.io0 }
    | .qspiRd | .qspiWr => countBits memory 4 (s.shiftQuad io)
    | .qspiDdrRd => ddrRdEdge memory io s
    | .qspiDdrWr => ddrWrEdge memory s

/-- The blocks a change of the pins runs. -/
def step (memory : BitVec 24 → BitVec 8) (s : SpiFlash) (pins : FlashPins) : SpiFlash :=
  let s' := { s with csb := pins.csb, clk := pins.clk }
  let s' := if s.csb != pins.csb then csbChange memory s' else s'
  let s' := if !s.clk && pins.clk || !s.csb && pins.csb then monitorEdge pins.io s' else s'
  let s' :=
    if s.csb != pins.csb || s.clk != pins.clk then levelChange memory pins.io s' else s'
  if !s.clk && pins.clk then clockEdge memory pins.io s' else s'

/-- The level the flash puts on `io1`, the data output of a command on one line. -/
def io1 (s : SpiFlash) : Bool := s.oe.io1 && s.dout.io1

end SpiFlash

end CaravelSoc
