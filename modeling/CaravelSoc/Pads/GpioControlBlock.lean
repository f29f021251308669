import CaravelSoc.Sequential.ShiftRegister

/-!
# One GPIO control block

A 13-bit shift register clocked by the rising serial clock, an output flop
clocked by the falling one, and the pad configuration latched from the shift
register by the load strobe.
-/

namespace CaravelSoc.Pads

/-- `PAD_CTRL_BITS`. -/
abbrev padCtrlBits : ℕ := 13

/-- The latched configuration of one pad. -/
structure PadConfig where
  mgmtEna : Bool
  gpioOutenb : Bool
  gpioHoldover : Bool
  gpioInenb : Bool
  gpioIbModeSel : Bool
  gpioAnaEn : Bool
  gpioAnaSel : Bool
  gpioAnaPol : Bool
  gpioSlowSel : Bool
  gpioVtripSel : Bool
  gpioDm : BitVec 3
  deriving DecidableEq, Repr

/-- The bit offsets `MGMT_EN` to `DM`, the same for the defaults and for a loaded word. -/
def PadConfig.ofWord (word : BitVec padCtrlBits) : PadConfig where
  mgmtEna := word.getLsbD 0
  gpioOutenb := word.getLsbD 1
  gpioHoldover := word.getLsbD 2
  gpioInenb := word.getLsbD 3
  gpioIbModeSel := word.getLsbD 4
  gpioAnaEn := word.getLsbD 5
  gpioAnaSel := word.getLsbD 6
  gpioAnaPol := word.getLsbD 7
  gpioSlowSel := word.getLsbD 8
  gpioVtripSel := word.getLsbD 9
  gpioDm := word.extractLsb' 10 3

/-- The lines of the serial loader as every block sees them. -/
structure SerialLines where
  clock : Bool
  load : Bool
  resetn : Bool
  data1 : Bool
  data2 : Bool
  deriving DecidableEq, Repr

namespace SerialLines

def clockRises (old new : SerialLines) : Bool := !old.clock && new.clock
def clockFalls (old new : SerialLines) : Bool := old.clock && !new.clock
def loadRises (old new : SerialLines) : Bool := !old.load && new.load

end SerialLines

structure GpioControlBlock where
  shiftRegister : BitVec padCtrlBits
  serialDataOut : Bool
  config : PadConfig
  deriving DecidableEq, Repr

namespace GpioControlBlock

/-- `negedge resetn`: the shift register is cleared and the defaults are applied. -/
def reset (gpioDefaults : BitVec padCtrlBits) : GpioControlBlock where
  shiftRegister := 0#13
  serialDataOut := false
  config := PadConfig.ofWord gpioDefaults

/-- The three clocked blocks when the serial lines change from `old` to `new`. -/
def follow (gpioDefaults : BitVec padCtrlBits) (old new : SerialLines) (serialDataIn : Bool)
    (b : GpioControlBlock) : GpioControlBlock :=
  if !new.resetn then reset gpioDefaults
  else
    { shiftRegister :=
        if old.clockRises new then b.shiftRegister.shiftConcat serialDataIn else b.shiftRegister
      serialDataOut := if old.clockFalls new then b.shiftRegister.getLsbD 12 else b.serialDataOut
      config := if old.loadRises new then PadConfig.ofWord b.shiftRegister else b.config }

end GpioControlBlock

end CaravelSoc.Pads
