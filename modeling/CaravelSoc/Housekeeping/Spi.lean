import Mathlib.Data.Nat.Notation

/-!
# The housekeeping SPI

The registers of `housekeeping_spi` and its two clocked blocks. Both blocks are
held at their reset values while `csb_reset` is high; the rising-edge block runs
the command, address and data states, and the falling-edge block captures read
data and raises the write strobe.
-/

namespace CaravelSoc.HousekeepingSpi

/-- The states `` `COMMAND ``, `` `ADDRESS ``, `` `DATA ``, `` `USERPASS `` and `` `MGMTPASS ``. -/
inductive State
  | command
  | address
  | data
  | userPass
  | mgmtPass
  deriving DecidableEq, Repr

/-- All registers of the module. -/
structure Registers where
  addr : BitVec 8
  wrstb : Bool
  rdstb : Bool
  sdoenb : Bool
  state : State
  count : BitVec 3
  writemode : Bool
  readmode : Bool
  fixed : BitVec 3
  predata : BitVec 7
  ldata : BitVec 8
  passThruMgmt : Bool
  passThruMgmtDelay : Bool
  prePassThruMgmt : Bool
  passThruUser : Bool
  passThruUserDelay : Bool
  prePassThruUser : Bool
  deriving DecidableEq, Repr

/-- The values both blocks load on `posedge csb_reset`. -/
def reset : Registers where
  addr := 0x00#8
  wrstb := false
  rdstb := false
  sdoenb := true
  state := .command
  count := 0#3
  writemode := false
  readmode := false
  fixed := 0#3
  predata := 0#7
  ldata := 0x00#8
  passThruMgmt := false
  passThruMgmtDelay := false
  prePassThruMgmt := false
  passThruUser := false
  passThruUserDelay := false
  prePassThruUser := false

/-- `{predata, SDI}`. -/
def odata (s : Registers) (sdi : Bool) : BitVec 8 := s.predata.concat sdi

/-- The address bus, which follows the shift register while the address is coming in. -/
def oaddr (s : Registers) (sdi : Bool) : BitVec 8 :=
  if s.state = .address then s.addr.shiftConcat sdi else s.addr

/-- The serial data output `ldata[7]`. -/
def sdo (s : Registers) : Bool := s.ldata.getLsbD 7

def passThruMgmtReset (s : Registers) : Bool := s.passThruMgmtDelay || s.prePassThruMgmt

/-- `always @(negedge SCK)`: read data is captured or shifted out, and the write strobe is
raised ahead of the last data bit. -/
def negedgeSck (s : Registers) (idata : BitVec 8) : Registers :=
  match s.state with
  | .data =>
    { s with
      sdoenb := !s.readmode
      ldata :=
        if s.readmode then if s.count = 0#3 then idata else s.ldata.shiftConcat false else s.ldata
      wrstb := if s.count = 7#3 then if s.writemode then true else s.wrstb else false }
  | .mgmtPass | .userPass => { s with wrstb := false, sdoenb := false }
  | .command | .address => { s with wrstb := false, sdoenb := true }

/-- The `` `COMMAND `` branch: one command bit is stored in the flag its position names. -/
def commandBit (s : Registers) (sdi : Bool) : Registers :=
  let s' := { s with rdstb := false, count := s.count + 1#3 }
  if s.count = 0#3 then { s' with writemode := sdi }
  else if s.count = 1#3 then { s' with readmode := sdi }
  else if s.count < 5#3 then { s' with fixed := s.fixed.shiftConcat sdi }
  else if s.count = 5#3 then { s' with prePassThruMgmt := sdi }
  else if s.count = 6#3 then
    { s' with prePassThruUser := sdi, passThruMgmtDelay := s.prePassThruMgmt }
  else
    let s'' := { s' with passThruUserDelay := s.prePassThruUser }
    if s.prePassThruMgmt then { s'' with state := .mgmtPass, prePassThruMgmt := false }
    else if s.prePassThruUser then { s'' with state := .userPass, prePassThruUser := false }
    else { s'' with state := .address }

/-- The `` `ADDRESS `` branch. -/
def addressBit (s : Registers) (sdi : Bool) : Registers :=
  { s with
    count := s.count + 1#3
    addr := s.addr.shiftConcat sdi
    state := if s.count = 7#3 then .data else .address
    rdstb := if s.count = 7#3 then if s.readmode then true else s.rdstb else false }

/-- The `` `DATA `` branch: on the last bit the address advances, or a fixed-length command ends. -/
def dataBit (s : Registers) (sdi : Bool) : Registers :=
  { s with
    predata := s.predata.shiftConcat sdi
    count := s.count + 1#3
    state := if s.count = 7#3 ∧ s.fixed = 1#3 then .command else .data
    fixed := if s.count = 7#3 ∧ s.fixed ≠ 1#3 ∧ s.fixed ≠ 0#3 then s.fixed - 1#3 else s.fixed
    addr := if s.count = 7#3 ∧ s.fixed ≠ 1#3 then s.addr + 1#8 else s.addr
    rdstb := if s.count = 7#3 then if s.readmode then true else s.rdstb else false }

/-- `always @(posedge SCK)`. -/
def posedgeSck (s : Registers) (sdi : Bool) : Registers :=
  match s.state with
  | .command => commandBit s sdi
  | .address => addressBit s sdi
  | .data => dataBit s sdi
  | .mgmtPass => { s with passThruMgmt := true }
  | .userPass => { s with passThruUser := true }

end CaravelSoc.HousekeepingSpi
