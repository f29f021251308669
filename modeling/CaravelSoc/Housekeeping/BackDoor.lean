import CaravelSoc.Housekeeping.RegisterMap

/-!
# The Wishbone back door

The state machine that turns one 32-bit Wishbone access into four strobed byte
accesses to the register map. The four setup states and the four access states
of the source are one constructor each, indexed by the byte lane.
-/

open Sequential (setPart)

namespace CaravelSoc.BackDoor

open RegisterMap

/-- The Wishbone inputs of the module. -/
structure Bus where
  adr : BitVec 32
  dat : BitVec 32
  sel : BitVec 4
  we : Bool
  cyc : Bool
  stb : Bool
  deriving DecidableEq, Inhabited, Repr

/-- `` `WBBD_IDLE ``, `` `WBBD_SETUP0 `` to `` `WBBD_SETUP3 ``, `` `WBBD_RW0 `` to
`` `WBBD_RW3 `` and `` `WBBD_DONE ``. -/
inductive State
  | idle
  | setup (lane : Fin 4)
  | rw (lane : Fin 4)
  | done
  deriving DecidableEq, Repr

structure Registers where
  state : State
  addr : BitVec 8
  data : BitVec 8
  sck : Bool
  write : Bool
  busy : Bool
  ack : Bool
  datO : BitVec 32
  deriving DecidableEq, Repr

/-- `posedge wb_rst_i`; the data output keeps its value. -/
def reset (w : Registers) : Registers :=
  { w with
    sck := false
    write := false
    addr := 0x00#8
    data := 0x00#8
    busy := false
    ack := false
    state := .idle }

def sysBaseAdr : BitVec 32 := 0x26200000#32
def gpioBaseAdr : BitVec 32 := 0x26000000#32
def spiBaseAdr : BitVec 32 := 0x26100000#32

def sysSelect (bus : Bus) : Bool := bus.adr.extractLsb' 8 24 == sysBaseAdr.extractLsb' 8 24
def gpioSelect (bus : Bus) : Bool := bus.adr.extractLsb' 8 24 == gpioBaseAdr.extractLsb' 8 24
def spiSelect (bus : Bus) : Bool := bus.adr.extractLsb' 8 24 == spiBaseAdr.extractLsb' 8 24

/-- `(sys_select | gpio_select | spi_select)`. -/
def selected (bus : Bus) : Bool := sysSelect bus || gpioSelect bus || spiSelect bus

/-- The guard of `` `WBBD_IDLE ``. -/
def request (bus : Bus) : Bool := selected bus && bus.cyc && bus.stb

/-- `spiaddr(wb_adr_i + lane)`. -/
def laneAddr (bus : Bus) (lane : Fin 4) : BitVec 8 := spiaddr (bus.adr + BitVec.ofNat 32 lane)

/-- `wb_sel_i[lane] & wb_we_i`. -/
def laneWrite (bus : Bus) (lane : Fin 4) : Bool := bus.sel.getLsbD lane && bus.we

/-- Byte `lane` of `wb_dat_i`. -/
def laneData (bus : Bus) (lane : Fin 4) : BitVec 8 := bus.dat.extractLsb' (8 * lane) 8

/-- The `SETUP` states: apply address, data and strobe for one byte. The mux is taken whether or
not the SPI is busy; only the state stalls. -/
def setup (w : Registers) (bus : Bus) (spiIsBusy : Bool) (lane : Fin 4) : Registers :=
  { w with
    busy := true
    sck := false
    addr := laneAddr bus lane
    data := if laneWrite bus lane then laneData bus lane else w.data
    write := laneWrite bus lane
    state := if spiIsBusy then .setup lane else .rw lane }

/-- The `RW` states: raise the back-door clock and latch the byte read. -/
def rw (w : Registers) (odata : BitVec 8) (lane : Fin 4) : Registers :=
  { w with
    busy := true
    sck := true
    datO := setPart w.datO (8 * lane) odata
    ack := if lane = 3 then true else w.ack
    state := if lane = 3 then .done else .setup (lane + 1) }

/-- `always @(posedge wb_clk_i)` of the back door. -/
def next (w : Registers) (bus : Bus) (spiIsBusy : Bool) (odata : BitVec 8) : Registers :=
  match w.state with
  | .idle =>
    if request bus then { w with busy := false, ack := false, state := .setup 0 }
    else { w with busy := false }
  | .setup lane => setup w bus spiIsBusy lane
  | .rw lane => rw w odata lane
  | .done => { w with busy := true, sck := false, ack := false, write := false, state := .idle }

end CaravelSoc.BackDoor
