import CaravelSoc.Flash.SpiRead
import CaravelSoc.Management.LiteSpi
import CaravelSoc.Sequential.Run

/-!
# The flash on the bus

The flash controller with the flash at its pins and a bus master that holds a read
until it is acknowledged. The other port of the controller is idle.
-/

open Sequential Sequential.ShiftRegister

namespace CaravelSoc.Management

/-- The controller, the flash, and the address of the read that waits for its acknowledge. -/
structure FlashBus where
  core : LiteSpi
  chip : SpiFlash
  pending : Option (BitVec 30)
  deriving DecidableEq, Repr

namespace FlashBus

/-- What a clock brings: a read, if none waits, and the level of `io0` while nobody drives it. -/
structure Event where
  request : Option (BitVec 30)
  floating : Bool
  deriving DecidableEq, Repr

/-- The read on the bus. -/
def active (s : FlashBus) (e : Event) : Option (BitVec 30) := s.pending.or e.request

def inputs (s : FlashBus) (e : Event) : LiteSpiInputs where
  busAdr := (s.active e).getD 0#30
  busCyc := (s.active e).isSome
  busStb := (s.active e).isSome
  busWe := false
  masterCs := false
  masterSink := .none
  masterSourceReady := false
  flashIo1Di := s.chip.io1

/-- The pins of the flash. -/
def pins (core : LiteSpi) (floating : Bool) : FlashPins where
  csb := core.flashCsN
  clk := core.flashClk
  io := ⟨if core.flashIo0Oeb then floating else core.flashIo0Do, false, false, false⟩

/-- One clock. -/
def step (config : LiteSpiConfig) (memory : BitVec 24 → BitVec 8) (s : FlashBus) (e : Event) :
    FlashBus where
  core := s.core.clockEdge config (s.inputs e)
  chip := s.chip.step memory (pins (s.core.clockEdge config (s.inputs e)) e.floating)
  pending := if s.core.busAck then none else s.active e

/-- The read that comes onto the bus. -/
def accepted (s : FlashBus) (e : Event) : List (BitVec 30) :=
  if s.pending = none then e.request.toList else []

/-- The word that is acknowledged, with the address on the bus. -/
def acked (s : FlashBus) (e : Event) : List (BitVec 30 × BitVec 32) :=
  if s.core.busAck then [((s.inputs e).busAdr, s.core.busDatR)] else []

/-- The byte address of a word; the flash has 24 bits of it. -/
def byteAddress (adr : BitVec 30) : BitVec 24 := (adr ++ 0#2).setWidth 24

/-- The word of the flash at an address, the first byte lowest. -/
def wordAt (memory : BitVec 24 → BitVec 8) (adr : BitVec 30) : BitVec 32 :=
  memory (byteAddress adr + 3#24) ++ memory (byteAddress adr + 2#24) ++
    memory (byteAddress adr + 1#24) ++ memory (byteAddress adr)

end FlashBus

end CaravelSoc.Management
