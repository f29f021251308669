import CaravelSoc.Housekeeping.RegisterMap

/-!
# The GPIO serial loader

The state machine that shifts the 38 configuration words out over the two
serial chains, 19 words each, and then pulses the load strobe.
-/

namespace CaravelSoc.SerialLoader

/-- `` `GPIO_IDLE ``, `` `GPIO_START ``, `` `GPIO_XBYTE `` and `` `GPIO_LOAD ``. -/
inductive State
  | idle
  | start
  | xbyte
  | load
  deriving DecidableEq, Repr

structure Registers where
  xferCount : BitVec 4
  padCount1 : BitVec 5
  padCount2 : BitVec 6
  xferState : State
  serialClockPre : Bool
  serialResetnPre : Bool
  serialLoadPre : Bool
  serialDataStaging1 : BitVec 13
  serialDataStaging2 : BitVec 13
  serialBusy : Bool
  deriving DecidableEq, Repr

/-- The values loaded on `negedge porb`. -/
def reset : Registers where
  xferState := .idle
  xferCount := 0#4
  padCount1 := 18#5
  padCount2 := 19#6
  serialResetnPre := false
  serialClockPre := false
  serialLoadPre := false
  serialDataStaging1 := 0#13
  serialDataStaging2 := 0#13
  serialBusy := false

/-- `gpio_configure[pad]`; an index past the last pad reads as an unknown, here zero. -/
def configureAt (r : RegisterMap.Registers) (pad : ℕ) : BitVec 13 :=
  if h : pad < RegisterMap.mprjIoPads then r.gpioConfigure ⟨pad, h⟩ else 0#13

def serialClock (l : Registers) (r : RegisterMap.Registers) : Bool :=
  if r.serialBbEnable then r.serialBbClock else l.serialClockPre

def serialResetn (l : Registers) (r : RegisterMap.Registers) : Bool :=
  if r.serialBbEnable then r.serialBbResetn else l.serialResetnPre

def serialLoad (l : Registers) (r : RegisterMap.Registers) : Bool :=
  if r.serialBbEnable then r.serialBbLoad else l.serialLoadPre

/-- The `` `GPIO_IDLE `` branch. -/
def idleStep (l : Registers) (serialXfer : Bool) : Registers :=
  { l with
    serialResetnPre := true
    padCount1 := 18#5
    padCount2 := 19#6
    serialClockPre := false
    serialLoadPre := false
    xferState := if serialXfer then .start else .idle
    serialBusy := serialXfer }

/-- The `` `GPIO_START `` branch: stage the next word of each chain. -/
def startStep (l : Registers) (r : RegisterMap.Registers) : Registers :=
  { l with
    serialResetnPre := true
    serialClockPre := false
    serialLoadPre := false
    xferCount := 0#4
    padCount1 := l.padCount1 - 1#5
    padCount2 := l.padCount2 + 1#6
    xferState := .xbyte
    serialDataStaging1 := configureAt r l.padCount1.toNat
    serialDataStaging2 := configureAt r l.padCount2.toNat }

/-- The `` `GPIO_XBYTE `` branch: raise the clock and count the bit, or lower it and shift. -/
def xbyteStep (l : Registers) (r : RegisterMap.Registers) : Registers :=
  let l' :=
    { l with serialResetnPre := true, serialClockPre := !serialClock l r, serialLoadPre := false }
  if serialClock l r = false then
    if l.xferCount = 12#4 then
      { l' with xferCount := 0#4, xferState := if l.padCount2 = 38#6 then .load else .start }
    else { l' with xferCount := l.xferCount + 1#4 }
  else
    { l' with
      serialDataStaging1 := l.serialDataStaging1.shiftConcat false
      serialDataStaging2 := l.serialDataStaging2.shiftConcat false }

/-- The `` `GPIO_LOAD `` branch: pulse the load strobe and return to idle. -/
def loadStep (l : Registers) : Registers :=
  let l' := { l with serialResetnPre := true, xferCount := l.xferCount + 1#4 }
  if l.xferCount = 0#4 then { l' with serialClockPre := false, serialLoadPre := false }
  else if l.xferCount = 1#4 then { l' with serialClockPre := false, serialLoadPre := true }
  else if l.xferCount = 2#4 then
    { l' with
      serialBusy := false
      serialClockPre := false
      serialLoadPre := false
      xferState := .idle }
  else l'

/-- `always @(posedge wb_clk_i)` of the loader. -/
def next (l : Registers) (r : RegisterMap.Registers) : Registers :=
  match l.xferState with
  | .idle => idleStep l r.serialXfer
  | .start => startStep l r
  | .xbyte => xbyteStep l r
  | .load => loadStep l

end CaravelSoc.SerialLoader
