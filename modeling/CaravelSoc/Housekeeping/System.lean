import CaravelSoc.Housekeeping.BackDoor
import CaravelSoc.Housekeeping.SerialLoader
import CaravelSoc.Housekeeping.Spi
import CaravelSoc.Sequential.Run

/-!
# The housekeeping module

The four register groups of `housekeeping` together with the levels of its input
ports, and the effect of one input event. Events are single edges: a rising edge
of `wb_clk_i`, one GPIO input changing level, new Wishbone inputs, or a reset
input changing level.

An event is evaluated the way its delta cycles run. `drive` applies the event and
the blocks clocked by `wb_clk_i`. The blocks on `csclk` and `SCK` then see the
driven nets next to their own old values, so that an SPI edge samples the SPI
registers before they move, while an edge made by the back door samples what the
back door has just set up. Last, `settle` applies the asynchronous SPI reset.
-/

open Sequential (setPart)

namespace CaravelSoc

/-- Input ports that only `fdata` reads. -/
structure Status where
  trap : Bool
  maskRev : BitVec 32
  usr1VccPwrgood : Bool
  usr2VccPwrgood : Bool
  usr1VddPwrgood : Bool
  usr2VddPwrgood : Bool
  deriving DecidableEq, Inhabited, Repr

/-- Registers and input levels of `housekeeping`. -/
structure Housekeeping where
  regs : RegisterMap.Registers
  spi : HousekeepingSpi.Registers
  wbbd : BackDoor.Registers
  loader : SerialLoader.Registers
  mgmtGpioIn : BitVec 38
  bus : BackDoor.Bus
  wbRstn : Bool
  porb : Bool
  status : Status

/-- One change of the inputs. -/
inductive Event
  | wbClk
  | gpioIn (pad : Fin 38) (level : Bool)
  | wishbone (bus : BackDoor.Bus)
  | status (status : Status)
  | wbRstn (level : Bool)
  | porb (level : Bool)
  deriving DecidableEq, Repr

namespace Housekeeping

/-- `INP_DIS`. -/
def inpDis : ℕ := 3

def sck (s : Housekeeping) : Bool := s.mgmtGpioIn.getLsbD 4
def csbPin (s : Housekeeping) : Bool := s.mgmtGpioIn.getLsbD 3
def sdi (s : Housekeeping) : Bool := s.mgmtGpioIn.getLsbD 2

def spiIsEnabled (s : Housekeeping) : Bool :=
  !(s.regs.gpioConfigure 3).getLsbD inpDis && !s.regs.hkspiDisable

def spiIsActive (s : Housekeeping) : Bool := s.spiIsEnabled && !s.csbPin

def spiIsBusy (s : Housekeeping) : Bool := s.spiIsActive && (s.spi.rdstb || s.spi.wrstb)

/-- The `CSB` port of the SPI instance. -/
def csb (s : Housekeeping) : Bool := if s.spiIsEnabled then s.csbPin else true

/-- `csb_reset` inside the SPI instance. -/
def csbReset (s : Housekeeping) : Bool := s.csb || !s.porb

def caddr (s : Housekeeping) : BitVec 8 :=
  if s.wbbd.busy then s.wbbd.addr else HousekeepingSpi.oaddr s.spi s.sdi

def csclk (s : Housekeeping) : Bool :=
  if s.wbbd.busy then s.wbbd.sck else if s.spiIsActive then s.sck else false

def cdata (s : Housekeeping) : BitVec 8 :=
  if s.wbbd.busy then s.wbbd.data else HousekeepingSpi.odata s.spi s.sdi

def cwstb (s : Housekeeping) : Bool := if s.wbbd.busy then s.wbbd.write else s.spi.wrstb

/-- The nets that `fdata` reads besides the registers. -/
def nets (s : Housekeeping) : RegisterMap.Nets where
  passThruMgmtReset := HousekeepingSpi.passThruMgmtReset s.spi
  trap := s.status.trap
  maskRev := s.status.maskRev
  usr1VccPwrgood := s.status.usr1VccPwrgood
  usr2VccPwrgood := s.status.usr2VccPwrgood
  usr1VddPwrgood := s.status.usr1VddPwrgood
  usr2VddPwrgood := s.status.usr2VddPwrgood
  serialDataStaging1 := s.loader.serialDataStaging1
  serialDataStaging2 := s.loader.serialDataStaging2
  serialBusy := s.loader.serialBusy
  mgmtGpioIn := s.mgmtGpioIn

/-- `fdata` at the current registers and nets. -/
def fdata (s : Housekeeping) (address : BitVec 8) : BitVec 8 :=
  RegisterMap.fdata s.regs s.nets address

/-- The byte on the read bus, `fdata(caddr)`. -/
def odata (s : Housekeeping) : BitVec 8 := s.fdata s.caddr

def serialClock (s : Housekeeping) : Bool := SerialLoader.serialClock s.loader s.regs
def serialResetn (s : Housekeeping) : Bool := SerialLoader.serialResetn s.loader s.regs
def serialLoad (s : Housekeeping) : Bool := SerialLoader.serialLoad s.loader s.regs
def serialData1 (s : Housekeeping) : Bool := RegisterMap.serialData1 s.regs s.nets
def serialData2 (s : Housekeeping) : Bool := RegisterMap.serialData2 s.regs s.nets

/-! ## One event -/

/-- The event itself and the blocks clocked or reset by it directly, except those on `SCK` and
`csclk`. Both resets are levels: a block in reset ignores its clock. -/
def drive (s : Housekeeping) : Event → Housekeeping
  | .wbClk =>
    { s with
      wbbd :=
        if s.wbRstn then BackDoor.next s.wbbd s.bus s.spiIsBusy s.odata else BackDoor.reset s.wbbd
      loader := if s.porb then SerialLoader.next s.loader s.regs else SerialLoader.reset }
  | .gpioIn pad level =>
    { s with mgmtGpioIn := setPart s.mgmtGpioIn pad (BitVec.ofBool level) }
  | .wishbone bus => { s with bus := bus }
  | .status status => { s with status := status }
  | .wbRstn level =>
    { s with wbRstn := level, wbbd := if level then s.wbbd else BackDoor.reset s.wbbd }
  | .porb level =>
    { s with porb := level, loader := if level then s.loader else SerialLoader.reset }

/-- `csclk` rises between the states before and after an event is driven. -/
def csclkRises (s d : Housekeeping) : Bool := d.porb && !s.csclk && d.csclk

/-- The register block after the driven event. -/
def nextRegs (s d : Housekeeping) : RegisterMap.Registers :=
  if !d.porb then RegisterMap.resetRegisters
  else if csclkRises s d then
    RegisterMap.posedgeCsclk d.regs d.caddr d.cdata d.cwstb d.spiIsActive
  else d.regs

/-- The two SPI blocks after the driven event. -/
def nextSpi (s d : Housekeeping) : HousekeepingSpi.Registers :=
  if d.csbReset then HousekeepingSpi.reset
  else if !s.sck && d.sck then HousekeepingSpi.posedgeSck d.spi d.sdi
  else if s.sck && !d.sck then HousekeepingSpi.negedgeSck d.spi d.odata
  else d.spi

/-- The asynchronous reset of the SPI follows a register write that disables it. -/
def settle (s : Housekeeping) : Housekeeping :=
  { s with spi := if s.csbReset then HousekeepingSpi.reset else s.spi }

/-- The effect of one event. -/
def step (s : Housekeeping) (e : Event) : Housekeeping :=
  settle { s.drive e with regs := nextRegs s (s.drive e), spi := nextSpi s (s.drive e) }

/-- Power-on: both resets held, every register at its reset value, the inputs as given. -/
def powerOn (mgmtGpioIn : BitVec 38) (bus : BackDoor.Bus) (status : Status) (datO : BitVec 32) :
    Housekeeping where
  regs := RegisterMap.resetRegisters
  spi := HousekeepingSpi.reset
  wbbd :=
    { state := .idle, addr := 0x00#8, data := 0x00#8, sck := false, write := false
      busy := false, ack := false, datO := datO }
  loader := SerialLoader.reset
  mgmtGpioIn := mgmtGpioIn
  bus := bus
  wbRstn := false
  porb := false
  status := status

/-- The state once power is good and `wb_rstn_i` is released. -/
def released (mgmtGpioIn : BitVec 38) (bus : BackDoor.Bus) : Housekeeping :=
  Sequential.run step (powerOn mgmtGpioIn bus default 0#32) [.porb true, .wbRstn true]

/-! ## Pin events of an SPI master -/

/-- One bit: set up SDI, then one pulse of SCK. -/
def sendBit (bit : Bool) : List Event := [.gpioIn 2 bit, .gpioIn 4 true, .gpioIn 4 false]

/-- One byte, most significant bit first. -/
def sendByte (byte : BitVec 8) : List Event :=
  (List.range 8).flatMap fun i ↦ sendBit (byte.getMsbD i)

def csbFalls : Event := .gpioIn 3 false
def csbRises : Event := .gpioIn 3 true

end Housekeeping

end CaravelSoc
