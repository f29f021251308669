import CaravelSoc.Sequential.PartSelect
import Mathlib.Logic.Function.Basic

/-!
# The housekeeping register map

The registers clocked by `csclk` and the three tables the source writes out by
hand: the read function `fdata`, the write `case` of the register block, and the
Wishbone address translation `spiaddr`. Each table sends an address to a row of
the map; a row says how its byte is read and how it is written. The map is the
one built without the SRAM read-only port.
-/

open Sequential (setPart)

namespace CaravelSoc.RegisterMap

/-- `` `MPRJ_IO_PADS ``. -/
abbrev mprjIoPads : ℕ := 38

instance neZeroMprjIoPads : NeZero mprjIoPads := ⟨by decide⟩

/-- The registers assigned by the block clocked with `csclk`. -/
structure Registers where
  pllTrim : BitVec 26
  pllDiv : BitVec 5
  pllSel : BitVec 3
  pll90Sel : BitVec 3
  pllDcoEna : Bool
  pllEna : Bool
  pllBypass : Bool
  resetReg : Bool
  irqSpi : Bool
  serialBbClock : Bool
  serialBbLoad : Bool
  serialBbResetn : Bool
  serialBbData1 : Bool
  serialBbData2 : Bool
  serialBbEnable : Bool
  serialXfer : Bool
  hkspiDisable : Bool
  clk1OutputDest : Bool
  clk2OutputDest : Bool
  trapOutputDest : Bool
  irq1Inputsrc : Bool
  irq2Inputsrc : Bool
  gpioConfigure : Fin mprjIoPads → BitVec 13
  mgmtGpioData : BitVec 38
  mgmtGpioDataBuf : BitVec 24
  pwrCtrlOut : BitVec 4

/-- The nets outside the register block that `fdata` reads. -/
structure Nets where
  passThruMgmtReset : Bool
  trap : Bool
  maskRev : BitVec 32
  usr1VccPwrgood : Bool
  usr2VccPwrgood : Bool
  usr1VddPwrgood : Bool
  usr2VddPwrgood : Bool
  serialDataStaging1 : BitVec 13
  serialDataStaging2 : BitVec 13
  serialBusy : Bool
  mgmtGpioIn : BitVec 38
  deriving DecidableEq

/-- The values loaded on `negedge porb`. -/
def resetRegisters : Registers where
  pllTrim := 0b11111111111110111111111111#26
  pllDiv := 0b00100#5
  pllSel := 0b010#3
  pll90Sel := 0b010#3
  pllDcoEna := true
  pllEna := false
  pllBypass := true
  resetReg := false
  irqSpi := false
  serialBbClock := false
  serialBbLoad := false
  serialBbResetn := false
  serialBbData1 := false
  serialBbData2 := false
  serialBbEnable := false
  serialXfer := false
  hkspiDisable := false
  clk1OutputDest := false
  clk2OutputDest := false
  trapOutputDest := false
  irq1Inputsrc := false
  irq2Inputsrc := false
  gpioConfigure := fun j ↦
    if j.val < 2 ∨ mprjIoPads - 2 ≤ j.val then 0x1803#13
    -- Pad 3 is CSB, a weak pull-up.
    else if j.val = 3 then 0x0801#13
    else 0x0403#13
  mgmtGpioData := 0#38
  mgmtGpioDataBuf := 0#24
  pwrCtrlOut := 0#4

/-- The rows of the map, named after the comments of the source. -/
inductive Row
  | spiStatus
  | mfgrIdHigh
  | mfgrIdLow
  | prodId
  | maskRev (byte : Fin 4)
  | pllEnables
  | pllBypass
  | irq
  | reset
  | trap
  | pllTrimByte (byte : Fin 3)
  | pllTrimTop
  | pllSource
  | pllDivider
  | gpioControl
  | powerMonitor
  | outputRedirect
  | inputRedirect
  | gpioConfigureHigh (pad : Fin mprjIoPads)
  | gpioConfigureLow (pad : Fin mprjIoPads)
  | gpioDataTop
  | gpioDataByte (byte : Fin 4)
  | powerControl
  | hkspiDisable
  | unmapped
  deriving DecidableEq

/-- The `case` of `fdata`. -/
def fdataRow (address : BitVec 8) : Row :=
  match address with
  | 0x00#8 => .spiStatus
  | 0x01#8 => .mfgrIdHigh
  | 0x02#8 => .mfgrIdLow
  | 0x03#8 => .prodId
  | 0x04#8 => .maskRev 3
  | 0x05#8 => .maskRev 2
  | 0x06#8 => .maskRev 1
  | 0x07#8 => .maskRev 0
  | 0x08#8 => .pllEnables
  | 0x09#8 => .pllBypass
  | 0x0a#8 => .irq
  | 0x0b#8 => .reset
  | 0x0c#8 => .trap
  | 0x0d#8 => .pllTrimByte 0
  | 0x0e#8 => .pllTrimByte 1
  | 0x0f#8 => .pllTrimByte 2
  | 0x10#8 => .pllTrimTop
  | 0x11#8 => .pllSource
  | 0x12#8 => .pllDivider
  | 0x13#8 => .gpioControl
  | 0x1a#8 => .powerMonitor
  | 0x1b#8 => .outputRedirect
  | 0x1c#8 => .inputRedirect
  | 0x1d#8 => .gpioConfigureHigh 0
  | 0x1e#8 => .gpioConfigureLow 0
  | 0x1f#8 => .gpioConfigureHigh 1
  | 0x20#8 => .gpioConfigureLow 1
  | 0x21#8 => .gpioConfigureHigh 2
  | 0x22#8 => .gpioConfigureLow 2
  | 0x23#8 => .gpioConfigureHigh 3
  | 0x24#8 => .gpioConfigureLow 3
  | 0x25#8 => .gpioConfigureHigh 4
  | 0x26#8 => .gpioConfigureLow 4
  | 0x27#8 => .gpioConfigureHigh 5
  | 0x28#8 => .gpioConfigureLow 5
  | 0x29#8 => .gpioConfigureHigh 6
  | 0x2a#8 => .gpioConfigureLow 6
  | 0x2b#8 => .gpioConfigureHigh 7
  | 0x2c#8 => .gpioConfigureLow 7
  | 0x2d#8 => .gpioConfigureHigh 8
  | 0x2e#8 => .gpioConfigureLow 8
  | 0x2f#8 => .gpioConfigureHigh 9
  | 0x30#8 => .gpioConfigureLow 9
  | 0x31#8 => .gpioConfigureHigh 10
  | 0x32#8 => .gpioConfigureLow 10
  | 0x33#8 => .gpioConfigureHigh 11
  | 0x34#8 => .gpioConfigureLow 11
  | 0x35#8 => .gpioConfigureHigh 12
  | 0x36#8 => .gpioConfigureLow 12
  | 0x37#8 => .gpioConfigureHigh 13
  | 0x38#8 => .gpioConfigureLow 13
  | 0x39#8 => .gpioConfigureHigh 14
  | 0x3a#8 => .gpioConfigureLow 14
  | 0x3b#8 => .gpioConfigureHigh 15
  | 0x3c#8 => .gpioConfigureLow 15
  | 0x3d#8 => .gpioConfigureHigh 16
  | 0x3e#8 => .gpioConfigureLow 16
  | 0x3f#8 => .gpioConfigureHigh 17
  | 0x40#8 => .gpioConfigureLow 17
  | 0x41#8 => .gpioConfigureHigh 18
  | 0x42#8 => .gpioConfigureLow 18
  | 0x43#8 => .gpioConfigureHigh 19
  | 0x44#8 => .gpioConfigureLow 19
  | 0x45#8 => .gpioConfigureHigh 20
  | 0x46#8 => .gpioConfigureLow 20
  | 0x47#8 => .gpioConfigureHigh 21
  | 0x48#8 => .gpioConfigureLow 21
  | 0x49#8 => .gpioConfigureHigh 22
  | 0x4a#8 => .gpioConfigureLow 22
  | 0x4b#8 => .gpioConfigureHigh 23
  | 0x4c#8 => .gpioConfigureLow 23
  | 0x4d#8 => .gpioConfigureHigh 24
  | 0x4e#8 => .gpioConfigureLow 24
  | 0x4f#8 => .gpioConfigureHigh 25
  | 0x50#8 => .gpioConfigureLow 25
  | 0x51#8 => .gpioConfigureHigh 26
  | 0x52#8 => .gpioConfigureLow 26
  | 0x53#8 => .gpioConfigureHigh 27
  | 0x54#8 => .gpioConfigureLow 27
  | 0x55#8 => .gpioConfigureHigh 28
  | 0x56#8 => .gpioConfigureLow 28
  | 0x57#8 => .gpioConfigureHigh 29
  | 0x58#8 => .gpioConfigureLow 29
  | 0x59#8 => .gpioConfigureHigh 30
  | 0x5a#8 => .gpioConfigureLow 30
  | 0x5b#8 => .gpioConfigureHigh 31
  | 0x5c#8 => .gpioConfigureLow 31
  | 0x5d#8 => .gpioConfigureHigh 32
  | 0x5e#8 => .gpioConfigureLow 32
  | 0x5f#8 => .gpioConfigureHigh 33
  | 0x60#8 => .gpioConfigureLow 33
  | 0x61#8 => .gpioConfigureHigh 34
  | 0x62#8 => .gpioConfigureLow 34
  | 0x63#8 => .gpioConfigureHigh 35
  | 0x64#8 => .gpioConfigureLow 35
  | 0x65#8 => .gpioConfigureHigh 36
  | 0x66#8 => .gpioConfigureLow 36
  | 0x67#8 => .gpioConfigureHigh 37
  | 0x68#8 => .gpioConfigureLow 37
  | 0x69#8 => .gpioDataTop
  | 0x6a#8 => .gpioDataByte 3
  | 0x6b#8 => .gpioDataByte 2
  | 0x6c#8 => .gpioDataByte 1
  | 0x6d#8 => .gpioDataByte 0
  | 0x6e#8 => .powerControl
  | 0x6f#8 => .hkspiDisable
  | _ => .unmapped

/-- The `case` under `cwstb == 1'b1` in the register block; an address without a branch writes
nothing. -/
def writeRow (caddr : BitVec 8) : Row :=
  match caddr with
  | 0x08#8 => .pllEnables
  | 0x09#8 => .pllBypass
  | 0x0a#8 => .irq
  | 0x0b#8 => .reset
  | 0x0d#8 => .pllTrimByte 0
  | 0x0e#8 => .pllTrimByte 1
  | 0x0f#8 => .pllTrimByte 2
  | 0x10#8 => .pllTrimTop
  | 0x11#8 => .pllSource
  | 0x12#8 => .pllDivider
  | 0x13#8 => .gpioControl
  | 0x1b#8 => .outputRedirect
  | 0x1c#8 => .inputRedirect
  | 0x1d#8 => .gpioConfigureHigh 0
  | 0x1e#8 => .gpioConfigureLow 0
  | 0x1f#8 => .gpioConfigureHigh 1
  | 0x20#8 => .gpioConfigureLow 1
  | 0x21#8 => .gpioConfigureHigh 2
  | 0x22#8 => .gpioConfigureLow 2
  | 0x23#8 => .gpioConfigureHigh 3
  | 0x24#8 => .gpioConfigureLow 3
  | 0x25#8 => .gpioConfigureHigh 4
  | 0x26#8 => .gpioConfigureLow 4
  | 0x27#8 => .gpioConfigureHigh 5
  | 0x28#8 => .gpioConfigureLow 5
  | 0x29#8 => .gpioConfigureHigh 6
  | 0x2a#8 => .gpioConfigureLow 6
  | 0x2b#8 => .gpioConfigureHigh 7
  | 0x2c#8 => .gpioConfigureLow 7
  | 0x2d#8 => .gpioConfigureHigh 8
  | 0x2e#8 => .gpioConfigureLow 8
  | 0x2f#8 => .gpioConfigureHigh 9
  | 0x30#8 => .gpioConfigureLow 9
  | 0x31#8 => .gpioConfigureHigh 10
  | 0x32#8 => .gpioConfigureLow 10
  | 0x33#8 => .gpioConfigureHigh 11
  | 0x34#8 => .gpioConfigureLow 11
  | 0x35#8 => .gpioConfigureHigh 12
  | 0x36#8 => .gpioConfigureLow 12
  | 0x37#8 => .gpioConfigureHigh 13
  | 0x38#8 => .gpioConfigureLow 13
  | 0x39#8 => .gpioConfigureHigh 14
  | 0x3a#8 => .gpioConfigureLow 14
  | 0x3b#8 => .gpioConfigureHigh 15
  | 0x3c#8 => .gpioConfigureLow 15
  | 0x3d#8 => .gpioConfigureHigh 16
  | 0x3e#8 => .gpioConfigureLow 16
  | 0x3f#8 => .gpioConfigureHigh 17
  | 0x40#8 => .gpioConfigureLow 17
  | 0x41#8 => .gpioConfigureHigh 18
  | 0x42#8 => .gpioConfigureLow 18
  | 0x43#8 => .gpioConfigureHigh 19
  | 0x44#8 => .gpioConfigureLow 19
  | 0x45#8 => .gpioConfigureHigh 20
  | 0x46#8 => .gpioConfigureLow 20
  | 0x47#8 => .gpioConfigureHigh 21
  | 0x48#8 => .gpioConfigureLow 21
  | 0x49#8 => .gpioConfigureHigh 22
  | 0x4a#8 => .gpioConfigureLow 22
  | 0x4b#8 => .gpioConfigureHigh 23
  | 0x4c#8 => .gpioConfigureLow 23
  | 0x4d#8 => .gpioConfigureHigh 24
  | 0x4e#8 => .gpioConfigureLow 24
  | 0x4f#8 => .gpioConfigureHigh 25
  | 0x50#8 => .gpioConfigureLow 25
  | 0x51#8 => .gpioConfigureHigh 26
  | 0x52#8 => .gpioConfigureLow 26
  | 0x53#8 => .gpioConfigureHigh 27
  | 0x54#8 => .gpioConfigureLow 27
  | 0x55#8 => .gpioConfigureHigh 28
  | 0x56#8 => .gpioConfigureLow 28
  | 0x57#8 => .gpioConfigureHigh 29
  | 0x58#8 => .gpioConfigureLow 29
  | 0x59#8 => .gpioConfigureHigh 30
  | 0x5a#8 => .gpioConfigureLow 30
  | 0x5b#8 => .gpioConfigureHigh 31
  | 0x5c#8 => .gpioConfigureLow 31
  | 0x5d#8 => .gpioConfigureHigh 32
  | 0x5e#8 => .gpioConfigureLow 32
  | 0x5f#8 => .gpioConfigureHigh 33
  | 0x60#8 => .gpioConfigureLow 33
  | 0x61#8 => .gpioConfigureHigh 34
  | 0x62#8 => .gpioConfigureLow 34
  | 0x63#8 => .gpioConfigureHigh 35
  | 0x64#8 => .gpioConfigureLow 35
  | 0x65#8 => .gpioConfigureHigh 36
  | 0x66#8 => .gpioConfigureLow 36
  | 0x67#8 => .gpioConfigureHigh 37
  | 0x68#8 => .gpioConfigureLow 37
  | 0x69#8 => .gpioDataTop
  | 0x6a#8 => .gpioDataByte 3
  | 0x6b#8 => .gpioDataByte 2
  | 0x6c#8 => .gpioDataByte 1
  | 0x6d#8 => .gpioDataByte 0
  | 0x6e#8 => .powerControl
  | 0x6f#8 => .hkspiDisable
  | _ => .unmapped

/-- The `case` of `spiaddr` over `{wbaddress[23:20], wbaddress[7:0]}`; `spi_adr`, `gpio_adr` and
`sys_adr` are `12'h100`, `12'h000` and `12'h200`. -/
def spiaddrRow (key : BitVec 12) : BitVec 8 :=
  match key with
  | 0x100#12 => 0x00#8
  | 0x104#12 => 0x03#8
  | 0x105#12 => 0x02#8
  | 0x106#12 => 0x01#8
  | 0x108#12 => 0x07#8
  | 0x109#12 => 0x06#8
  | 0x10a#12 => 0x05#8
  | 0x10b#12 => 0x04#8
  | 0x10c#12 => 0x08#8
  | 0x110#12 => 0x09#8
  | 0x114#12 => 0x0a#8
  | 0x118#12 => 0x0b#8
  | 0x128#12 => 0x0c#8
  | 0x11f#12 => 0x10#8
  | 0x11e#12 => 0x0f#8
  | 0x11d#12 => 0x0e#8
  | 0x11c#12 => 0x0d#8
  | 0x120#12 => 0x11#8
  | 0x124#12 => 0x12#8
  | 0x12c#12 => 0x19#8
  | 0x12d#12 => 0x18#8
  | 0x12e#12 => 0x17#8
  | 0x12f#12 => 0x16#8
  | 0x130#12 => 0x15#8
  | 0x134#12 => 0x14#8
  | 0x000#12 => 0x13#8
  | 0x200#12 => 0x1a#8
  | 0x204#12 => 0x1b#8
  | 0x20c#12 => 0x1c#8
  | 0x025#12 => 0x1d#8
  | 0x024#12 => 0x1e#8
  | 0x029#12 => 0x1f#8
  | 0x028#12 => 0x20#8
  | 0x02d#12 => 0x21#8
  | 0x02c#12 => 0x22#8
  | 0x031#12 => 0x23#8
  | 0x030#12 => 0x24#8
  | 0x035#12 => 0x25#8
  | 0x034#12 => 0x26#8
  | 0x039#12 => 0x27#8
  | 0x038#12 => 0x28#8
  | 0x03d#12 => 0x29#8
  | 0x03c#12 => 0x2a#8
  | 0x041#12 => 0x2b#8
  | 0x040#12 => 0x2c#8
  | 0x045#12 => 0x2d#8
  | 0x044#12 => 0x2e#8
  | 0x049#12 => 0x2f#8
  | 0x048#12 => 0x30#8
  | 0x04d#12 => 0x31#8
  | 0x04c#12 => 0x32#8
  | 0x051#12 => 0x33#8
  | 0x050#12 => 0x34#8
  | 0x055#12 => 0x35#8
  | 0x054#12 => 0x36#8
  | 0x059#12 => 0x37#8
  | 0x058#12 => 0x38#8
  | 0x05d#12 => 0x39#8
  | 0x05c#12 => 0x3a#8
  | 0x061#12 => 0x3b#8
  | 0x060#12 => 0x3c#8
  | 0x065#12 => 0x3d#8
  | 0x064#12 => 0x3e#8
  | 0x069#12 => 0x3f#8
  | 0x068#12 => 0x40#8
  | 0x06d#12 => 0x41#8
  | 0x06c#12 => 0x42#8
  | 0x071#12 => 0x43#8
  | 0x070#12 => 0x44#8
  | 0x075#12 => 0x45#8
  | 0x074#12 => 0x46#8
  | 0x079#12 => 0x47#8
  | 0x078#12 => 0x48#8
  | 0x07d#12 => 0x49#8
  | 0x07c#12 => 0x4a#8
  | 0x081#12 => 0x4b#8
  | 0x080#12 => 0x4c#8
  | 0x085#12 => 0x4d#8
  | 0x084#12 => 0x4e#8
  | 0x089#12 => 0x4f#8
  | 0x088#12 => 0x50#8
  | 0x08d#12 => 0x51#8
  | 0x08c#12 => 0x52#8
  | 0x091#12 => 0x53#8
  | 0x090#12 => 0x54#8
  | 0x095#12 => 0x55#8
  | 0x094#12 => 0x56#8
  | 0x099#12 => 0x57#8
  | 0x098#12 => 0x58#8
  | 0x09d#12 => 0x59#8
  | 0x09c#12 => 0x5a#8
  | 0x0a1#12 => 0x5b#8
  | 0x0a0#12 => 0x5c#8
  | 0x0a5#12 => 0x5d#8
  | 0x0a4#12 => 0x5e#8
  | 0x0a9#12 => 0x5f#8
  | 0x0a8#12 => 0x60#8
  | 0x0ad#12 => 0x61#8
  | 0x0ac#12 => 0x62#8
  | 0x0b1#12 => 0x63#8
  | 0x0b0#12 => 0x64#8
  | 0x0b5#12 => 0x65#8
  | 0x0b4#12 => 0x66#8
  | 0x0b9#12 => 0x67#8
  | 0x0b8#12 => 0x68#8
  | 0x010#12 => 0x69#8
  | 0x00f#12 => 0x6a#8
  | 0x00e#12 => 0x6b#8
  | 0x00d#12 => 0x6c#8
  | 0x00c#12 => 0x6d#8
  | 0x004#12 => 0x6e#8
  | 0x210#12 => 0x6f#8
  | _ => 0x00#8

/-- Memory map address to SPI address translation for back door access. -/
def spiaddr (wbaddress : BitVec 32) : BitVec 8 :=
  spiaddrRow (wbaddress.extractLsb' 20 4 ++ wbaddress.extractLsb' 0 8)

def mfgrId : BitVec 12 := 0x456#12

def prodId : BitVec 8 := 0x11#8

/-- The `reset` output of the module. -/
def resetOut (r : Registers) (n : Nets) : Bool :=
  if n.passThruMgmtReset then true else r.resetReg

def serialData1 (r : Registers) (n : Nets) : Bool :=
  if r.serialBbEnable then r.serialBbData1 else n.serialDataStaging1.getLsbD 12

def serialData2 (r : Registers) (n : Nets) : Bool :=
  if r.serialBbEnable then r.serialBbData2 else n.serialDataStaging2.getLsbD 12

/-- A byte from its bits, most significant first. -/
def byteOf (b7 b6 b5 b4 b3 b2 b1 b0 : Bool) : BitVec 8 :=
  ((((((((BitVec.nil.concat b7).concat b6).concat b5).concat b4).concat b3).concat b2).concat
    b1).concat b0)

namespace Row

/-- The right-hand side of the row in `fdata`. -/
def read (r : Registers) (n : Nets) : Row → BitVec 8
  | spiStatus => 0x00#8
  | mfgrIdHigh => 0#4 ++ mfgrId.extractLsb' 8 4
  | mfgrIdLow => mfgrId.extractLsb' 0 8
  | prodId => RegisterMap.prodId
  | maskRev byte => n.maskRev.extractLsb' (8 * byte) 8
  | pllEnables => byteOf false false false false false false r.pllDcoEna r.pllEna
  | pllBypass => byteOf false false false false false false false r.pllBypass
  | irq => byteOf false false false false false false false r.irqSpi
  | reset => byteOf false false false false false false false (resetOut r n)
  | trap => byteOf false false false false false false false n.trap
  | pllTrimByte byte => r.pllTrim.extractLsb' (8 * byte) 8
  | pllTrimTop => 0#6 ++ r.pllTrim.extractLsb' 24 2
  | pllSource => 0#2 ++ r.pll90Sel ++ r.pllSel
  | pllDivider => 0#3 ++ r.pllDiv
  | gpioControl =>
    byteOf false (serialData2 r n) (serialData1 r n) r.serialBbClock r.serialBbLoad
      r.serialBbResetn r.serialBbEnable n.serialBusy
  | powerMonitor =>
    byteOf false false false false n.usr1VccPwrgood n.usr2VccPwrgood n.usr1VddPwrgood
      n.usr2VddPwrgood
  | outputRedirect =>
    byteOf false false false false false r.clk1OutputDest r.clk2OutputDest r.trapOutputDest
  | inputRedirect => byteOf false false false false false false r.irq2Inputsrc r.irq1Inputsrc
  | gpioConfigureHigh pad => 0#3 ++ (r.gpioConfigure pad).extractLsb' 8 5
  | gpioConfigureLow pad => (r.gpioConfigure pad).extractLsb' 0 8
  | gpioDataTop => 0#2 ++ n.mgmtGpioIn.extractLsb' 32 6
  | gpioDataByte byte => n.mgmtGpioIn.extractLsb' (8 * byte) 8
  | powerControl => 0#4 ++ r.pwrCtrlOut
  | hkspiDisable => byteOf false false false false false false false r.hkspiDisable
  | unmapped => 0x00#8

/-- The body of the row in the write `case`. Rows the `case` does not list write nothing. -/
def write (r : Registers) (cdata : BitVec 8) (spiIsActive : Bool) : Row → Registers
  | pllEnables => { r with pllEna := cdata.getLsbD 0, pllDcoEna := cdata.getLsbD 1 }
  | pllBypass => { r with pllBypass := cdata.getLsbD 0 }
  | irq => { r with irqSpi := cdata.getLsbD 0 }
  | reset => { r with resetReg := cdata.getLsbD 0 }
  | pllTrimByte byte => { r with pllTrim := setPart r.pllTrim (8 * byte) cdata }
  | pllTrimTop => { r with pllTrim := setPart r.pllTrim 24 (cdata.extractLsb' 0 2) }
  | pllSource => { r with pll90Sel := cdata.extractLsb' 3 3, pllSel := cdata.extractLsb' 0 3 }
  | pllDivider => { r with pllDiv := cdata.extractLsb' 0 5 }
  | gpioControl =>
    { r with
      serialBbData2 := cdata.getLsbD 6
      serialBbData1 := cdata.getLsbD 5
      serialBbClock := cdata.getLsbD 4
      serialBbLoad := cdata.getLsbD 3
      serialBbResetn := cdata.getLsbD 2
      serialBbEnable := cdata.getLsbD 1
      serialXfer := cdata.getLsbD 0 }
  | outputRedirect =>
    { r with
      clk1OutputDest := cdata.getLsbD 2
      clk2OutputDest := cdata.getLsbD 1
      trapOutputDest := cdata.getLsbD 0 }
  | inputRedirect => { r with irq2Inputsrc := cdata.getLsbD 1, irq1Inputsrc := cdata.getLsbD 0 }
  | gpioConfigureHigh pad =>
    { r with
      gpioConfigure := Function.update r.gpioConfigure pad
        (setPart (r.gpioConfigure pad) 8 (cdata.extractLsb' 0 5)) }
  | gpioConfigureLow pad =>
    { r with
      gpioConfigure := Function.update r.gpioConfigure pad (setPart (r.gpioConfigure pad) 0 cdata) }
  | gpioDataTop => { r with mgmtGpioData := setPart r.mgmtGpioData 32 (cdata.extractLsb' 0 6) }
  -- Through the back door the lower bytes wait in the buffer for the upper byte, so that all
  -- 32 bits update at the same time; the test is on the SPI being active, not on the writer.
  | gpioDataByte 3 =>
    if spiIsActive then { r with mgmtGpioData := setPart r.mgmtGpioData 24 cdata }
    else { r with mgmtGpioData := setPart r.mgmtGpioData 0 (cdata ++ r.mgmtGpioDataBuf) }
  | gpioDataByte byte =>
    if spiIsActive then { r with mgmtGpioData := setPart r.mgmtGpioData (8 * byte) cdata }
    else { r with mgmtGpioDataBuf := setPart r.mgmtGpioDataBuf (8 * byte) cdata }
  | powerControl => { r with pwrCtrlOut := cdata.extractLsb' 0 4 }
  | hkspiDisable => { r with hkspiDisable := cdata.getLsbD 0 }
  | spiStatus | mfgrIdHigh | mfgrIdLow | prodId | maskRev _ | trap | powerMonitor | unmapped => r

end Row

/-- Register bit to SPI address mapping. -/
def fdata (r : Registers) (n : Nets) (address : BitVec 8) : BitVec 8 :=
  (fdataRow address).read r n

/-- `always @(posedge csclk)`: a strobed edge writes one byte; an edge without the strobe clears
the two self-resetting flags. -/
def posedgeCsclk (r : Registers) (caddr cdata : BitVec 8) (cwstb spiIsActive : Bool) : Registers :=
  if cwstb then (writeRow caddr).write r cdata spiIsActive
  else { r with serialXfer := false, irqSpi := false }

end CaravelSoc.RegisterMap
