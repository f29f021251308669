import Mathlib.Data.BitVec

/-!
# The flash controller of the management core

`litespiphy` shifts words out to the flash and in from it, the crossbar gives it
to one of two ports, and `litespimmap` turns reads of its bus region into a read
command, an address and the words that follow, which it goes on reading as long as
the addresses do. The other port, which the firmware can drive word by word, is an
input here.
-/

namespace CaravelSoc.Management

/-- `litespiphy_state`. -/
inductive PhyState
  | idle
  | shift
  | last
  | reply
  deriving DecidableEq, Repr

/-- `litespi_state`: a word is sent, and then the answer of the phy is awaited. -/
inductive MmapState
  | idle
  | command
  | commandSent
  | address
  | addressSent
  | dummy
  | dummySent
  | data
  | dataSent
  deriving DecidableEq, Repr

/-- The two storages that configure the controller. -/
structure LiteSpiConfig where
  spiClkDivisor : BitVec 8
  spiDummyBits : BitVec 8
  deriving DecidableEq, Repr

/-- The configuration after a reset. -/
def LiteSpiConfig.reset : LiteSpiConfig where
  spiClkDivisor := 1#8
  spiDummyBits := 0#8

/-- The registers of the phy, of the crossbar and of the memory-mapped port. -/
structure LiteSpi where
  phyState : PhyState
  srOut : BitVec 32
  srIn : BitVec 32
  srCnt : BitVec 8
  posedgeReg : Bool
  posedgeReg2 : Bool
  cnt : BitVec 8
  clk : Bool
  count : BitVec 4
  dqI : BitVec 2
  flashClk : Bool
  flashIo0Oeb : Bool
  flashIo0Do : Bool
  grant : Bool
  mmapState : MmapState
  burstCs : Bool
  burstAdr : BitVec 30
  mmapCount : BitVec 9
  deriving DecidableEq, Repr

/-- The word a port offers to the phy. -/
structure PhyWord where
  valid : Bool
  data : BitVec 32
  len : BitVec 6
  width : BitVec 4
  mask : BitVec 8
  deriving DecidableEq, Repr

def PhyWord.none : PhyWord := ⟨false, 0#32, 0#6, 0#4, 0#8⟩

/-- What a clock brings: the bus, the other port, and the pin of the flash. -/
structure LiteSpiInputs where
  busAdr : BitVec 30
  busCyc : Bool
  busStb : Bool
  busWe : Bool
  masterCs : Bool
  masterSink : PhyWord
  masterSourceReady : Bool
  flashIo1Di : Bool
  deriving DecidableEq, Repr

namespace LiteSpi

def reset : LiteSpi where
  phyState := .idle
  srOut := 0#32
  srIn := 0#32
  srCnt := 0#8
  posedgeReg := false
  posedgeReg2 := false
  cnt := 0#8
  clk := false
  count := 11#4
  dqI := 0#2
  flashClk := false
  flashIo0Oeb := true
  flashIo0Do := false
  grant := false
  mmapState := .idle
  burstCs := false
  burstAdr := 0#30
  mmapCount := 256#9

variable (config : LiteSpiConfig) (s : LiteSpi) (i : LiteSpiInputs)

/-! ## The memory-mapped port -/

/-- A read of the bus region. -/
def busRead : Bool := i.busCyc && i.busStb && !i.busWe

/-- The read goes on where the last one ended. -/
def burstHit : Bool := s.burstCs && i.busAdr == s.burstAdr

/-- `mgmtsoc_litespimmap_cs`. -/
def mmapCs : Bool :=
  match s.mmapState with
  | .idle => if busRead i && !s.burstHit i then false else s.burstCs
  | _ => true

/-- What the port offers to the phy. -/
def mmapSource : PhyWord :=
  match s.mmapState with
  | .command => ⟨true, 3#32, 8#6, 1#4, 1#8⟩
  | .address => ⟨true, i.busAdr ++ 0#2, 24#6, 1#4, 1#8⟩
  | .dummy => ⟨true, 57005#32, config.spiDummyBits.setWidth 6, 1#4, 1#8⟩
  | .data => ⟨true, 0#32, 32#6, 1#4, 0#8⟩
  | .idle | .commandSent | .addressSent | .dummySent | .dataSent => .none

/-- `mgmtsoc_litespimmap_sink_ready`. -/
def mmapSinkReady : Bool :=
  match s.mmapState with
  | .commandSent | .addressSent | .dummySent | .dataSent => true
  | .idle | .command | .address | .dummy | .data => false

/-! ## The crossbar -/

def crossbarCs : Bool := if s.grant then i.masterCs else s.mmapCs i

/-- `litespi_tx_mux_source`. -/
def txMux : PhyWord := if s.grant then i.masterSink else s.mmapSource config i

def sourceReady : Bool := if s.grant then i.masterSourceReady else s.mmapSinkReady

/-! ## The phy -/

def phyDone : Bool := s.count == 0#4

/-- `mgmtsoc_litespisdrphycore_posedge`: the clock goes high behind this cycle. -/
def posedge : Bool := s.phyState == .shift && !s.clk && s.cnt == config.spiClkDivisor

def negedge : Bool := s.phyState == .shift && s.clk && s.cnt == config.spiClkDivisor

/-- The word is loaded. -/
def load : Bool := s.phyState == .idle && s.phyDone && (s.txMux config i).valid

/-- Without a divisor the last bit is still to be sampled. -/
def lastSampled : Bool := 0#8 < config.spiClkDivisor || s.posedgeReg2

/-- `mgmtsoc_litespisdrphycore_sink_ready`. -/
def sinkReady : Bool := s.phyState == .last && s.lastSampled config

def srInShift : Bool :=
  match s.phyState with
  | .shift => s.posedgeReg2
  | .last => s.lastSampled config && config.spiClkDivisor == 0#8
  | .idle | .reply => false

/-- `mgmtsoc_litespisdrphycore_source_valid`. -/
def sourceValid : Bool := s.phyState == .reply

def dqO : Bool :=
  let width := (s.txMux config i).width
  if width = 1#4 then s.srOut.getLsbD 31
  else if width = 2#4 then s.srOut.getLsbD 30
  else if width = 4#4 then s.srOut.getLsbD 28
  else if width = 8#4 then s.srOut.getLsbD 24
  else false

/-- `sr_out` shifted by the width of the word. -/
def shiftOut : BitVec 32 :=
  let width := (s.txMux config i).width
  if width = 1#4 then s.srOut <<< 1
  else if width = 2#4 then s.srOut <<< 2
  else if width = 4#4 then s.srOut <<< 4
  else if width = 8#4 then s.srOut <<< 8
  else s.srOut

/-- `sr_in` with what was sampled; the wider words have two data inputs only. -/
def shiftIn : BitVec 32 :=
  let width := (s.txMux config i).width
  if width = 1#4 then s.srIn.shiftConcat (s.dqI.getLsbD 1)
  else if width = 2#4 ∨ width = 4#4 ∨ width = 8#4 then
    (s.srIn.shiftConcat (s.dqI.getLsbD 1)).shiftConcat (s.dqI.getLsbD 0)
  else s.srIn

def phyNext : PhyState :=
  match s.phyState with
  | .idle => if s.load config i then .shift else .idle
  | .shift => if s.negedge config && s.srCnt == 0#8 then .last else .shift
  | .last => if s.lastSampled config then .reply else .last
  | .reply => if s.sourceReady i then .idle else .reply

/-- The port has its answer. -/
def mmapSinkValid : Bool := !s.grant && s.sourceValid

/-- The port's word is taken. -/
def mmapSourceReady : Bool := !s.grant && s.sinkReady config

def mmapNext : MmapState :=
  match s.mmapState with
  | .idle => if busRead i then if s.burstHit i then .data else .command else .idle
  | .command => if s.mmapSourceReady config then .commandSent else .command
  | .commandSent => if s.mmapSinkValid then .address else .commandSent
  | .address => if s.mmapSourceReady config then .addressSent else .address
  | .addressSent =>
    if s.mmapSinkValid then if config.spiDummyBits = 0#8 then .data else .dummy else .addressSent
  | .dummy => if s.mmapSourceReady config then .dummySent else .dummy
  | .dummySent => if s.mmapSinkValid then .data else .dummySent
  | .data => if s.mmapSourceReady config then .dataSent else .data
  | .dataSent => if s.mmapSinkValid then .idle else .dataSent

/-- `mgmtsoc_litespimmap_bus_ack`. -/
def busAck : Bool := s.mmapState == .dataSent && s.mmapSinkValid

/-- `mgmtsoc_litespimmap_bus_dat_r`: the first byte of the flash is the lowest. -/
def busDatR : BitVec 32 :=
  match s.mmapState with
  | .dataSent =>
    s.srIn.extractLsb' 0 8 ++ s.srIn.extractLsb' 8 8 ++ s.srIn.extractLsb' 16 8 ++
      s.srIn.extractLsb' 24 8
  | _ => 0#32

/-- One clock. -/
def clockEdge : LiteSpi where
  phyState := s.phyNext config i
  srOut :=
    if s.load config i then
      (s.txMux config i).data <<< (32#6 - (s.txMux config i).len).toNat
    else if s.negedge config then s.shiftOut config i
    else s.srOut
  srIn := if s.srInShift config then s.shiftIn config i else s.srIn
  srCnt :=
    if s.load config i then
      (s.txMux config i).len.setWidth 8 - (s.txMux config i).width.setWidth 8
    else if s.negedge config then s.srCnt - (s.txMux config i).width.setWidth 8
    else s.srCnt
  posedgeReg := s.posedge config
  posedgeReg2 := s.posedgeReg
  cnt :=
    if s.phyState = .shift then if s.cnt < config.spiClkDivisor then s.cnt + 1#8 else 0#8
    else 0#8
  clk :=
    if s.phyState = .shift then if s.cnt < config.spiClkDivisor then s.clk else !s.clk
    else false
  count :=
    if s.crossbarCs i then if !s.phyDone then s.count - 1#4 else s.count else 11#4
  dqI := BitVec.ofBool i.flashIo1Di ++ BitVec.ofBool (s.dqI.getLsbD 0)
  flashClk := s.clk
  flashIo0Oeb := !(s.txMux config i).mask.getLsbD 0
  flashIo0Do := s.dqO config i
  grant :=
    match s.grant with
    | false => if !s.mmapCs i && i.masterCs then true else false
    | true => if !i.masterCs && s.mmapCs i then false else true
  mmapState := s.mmapNext config i
  burstCs :=
    match s.mmapState with
    | .idle => s.burstCs && s.mmapCount != 0#9
    | .address | .dummy => true
    | _ => s.burstCs
  burstAdr :=
    match s.mmapState with
    | .command | .address | .dummy => i.busAdr
    | .dataSent => if s.mmapSinkValid then s.burstAdr + 1#30 else s.burstAdr
    | _ => s.burstAdr
  mmapCount :=
    if s.mmapState = .idle then if s.mmapCount ≠ 0#9 then s.mmapCount - 1#9 else s.mmapCount
    else 256#9

/-- `flash_cs_n`. -/
def flashCsN : Bool := !s.phyDone

end LiteSpi

end CaravelSoc.Management
