import CaravelSoc.Sequential.PartSelect
import CaravelSoc.Sequential.Run

/-!
# The counter in the user project

The other user project is a counter of 32 bits. It counts on every clock at which
no write enable of the logic analyzer is active; the Wishbone port replaces
single bytes of the count and reads it, and the probes 32 to 63 replace it where
they are enabled. A Wishbone access masks the write enables of the probes. As in
the other project, probes 64 and 65 may take over the clock and the reset; here
the reset is synchronous.
-/

open Sequential

namespace CaravelSoc.User

/-- The registers of `counter`. -/
structure Counter where
  count : BitVec 32
  ready : Bool
  rdata : BitVec 32
  deriving DecidableEq, Repr

namespace Counter

/-- The inputs of `counter`, the clock apart. -/
structure Ports where
  reset : Bool
  valid : Bool
  wstrb : BitVec 4
  wdata : BitVec 32
  laWrite : BitVec 32
  laInput : BitVec 32
  deriving DecidableEq, Repr

/-- `if (wstrb[byte]) count[8*byte+7:8*byte] <= wdata[8*byte+7:8*byte]`. -/
def writeByte (wstrb : BitVec 4) (wdata : BitVec 32) (byte : ℕ) (count : BitVec 32) : BitVec 32 :=
  if wstrb.getLsbD byte then setPart count (8 * byte) (wdata.extractLsb' (8 * byte) 8) else count

/-- The four byte writes, in the order of the source. -/
def writeBytes (wstrb : BitVec 4) (wdata count : BitVec 32) : BitVec 32 :=
  writeByte wstrb wdata 3
    (writeByte wstrb wdata 2 (writeByte wstrb wdata 1 (writeByte wstrb wdata 0 count)))

/-- `posedge clk`. Of the assignments to one register the last one counts. -/
def clockEdge (s : Counter) (i : Ports) : Counter :=
  if i.reset then { s with count := 0#32, ready := false }
  else
    let count := if i.laWrite = 0#32 then s.count + 1#32 else s.count
    if i.valid && !s.ready then
      { count := writeBytes i.wstrb i.wdata count
        ready := true
        rdata := s.count }
    else
      { s with
        count := if i.laWrite ≠ 0#32 then i.laWrite &&& i.laInput else count
        ready := false }

end Counter

/-- The pins of `user_proj_example` that reach `counter`. -/
structure CounterPins where
  wbClkI : Bool
  wbRstI : Bool
  wbsStbI : Bool
  wbsCycI : Bool
  wbsWeI : Bool
  wbsSelI : BitVec 4
  wbsDatI : BitVec 32
  laDataIn : BitVec 128
  laOenb : BitVec 128
  deriving DecidableEq, Repr

/-- What a Wishbone access asks for. -/
structure Access where
  wstrb : BitVec 4
  wdata : BitVec 32
  deriving DecidableEq, Repr

namespace CounterPins

def valid (e : CounterPins) : Bool := e.wbsCycI && e.wbsStbI

/-- `wbs_sel_i & {4{wbs_we_i}}`. -/
def wstrb (e : CounterPins) : BitVec 4 :=
  e.wbsSelI &&& (if e.wbsWeI then BitVec.allOnes 4 else 0#4)

/-- Probe 64 is the clock when its output is enabled. -/
def clk (e : CounterPins) : Bool :=
  if !e.laOenb.getLsbD 64 then e.laDataIn.getLsbD 64 else e.wbClkI

/-- Probe 65 is the reset when its output is enabled. -/
def rst (e : CounterPins) : Bool :=
  if !e.laOenb.getLsbD 65 then e.laDataIn.getLsbD 65 else e.wbRstI

/-- `~la_oenb[63:32]`. -/
def laEnables (e : CounterPins) : BitVec 32 := ~~~(e.laOenb.extractLsb' 32 32)

/-- The enables, masked by `~{BITS{valid}}`. -/
def laWrite (e : CounterPins) : BitVec 32 :=
  e.laEnables &&& ~~~(if e.valid then BitVec.allOnes 32 else 0#32)

def laInput (e : CounterPins) : BitVec 32 := e.laDataIn.extractLsb' 32 32

def ports (e : CounterPins) : Counter.Ports where
  reset := e.rst
  valid := e.valid
  wstrb := e.wstrb
  wdata := e.wbsDatI
  laWrite := e.laWrite
  laInput := e.laInput

def access (e : CounterPins) : Access where
  wstrb := e.wstrb
  wdata := e.wbsDatI

/-- A Wishbone access without a write strobe is presented. -/
def isRead (e : CounterPins) : Bool := e.valid && e.wstrb == 0#4

/-- A Wishbone access with a write strobe is presented. -/
def isWrite (e : CounterPins) : Bool := e.valid && e.wstrb != 0#4

end CounterPins

/-- `user_proj_example`: the level of its clock wire, and `counter`. -/
structure CounterProject where
  clk : Bool
  counter : Counter
  deriving DecidableEq, Repr

namespace CounterProject

/-- `posedge clk`. -/
def clkRises (p : CounterProject) (e : CounterPins) : Bool := !p.clk && e.clk

/-- The pins take new values. -/
def step (p : CounterProject) (e : CounterPins) : CounterProject where
  clk := e.clk
  counter := if p.clkRises e then p.counter.clockEdge e.ports else p.counter

def count (p : CounterProject) : BitVec 32 := p.counter.count
def laDataOut (p : CounterProject) : BitVec 128 := p.counter.count.setWidth 128
def ioOut (p : CounterProject) : BitVec 38 := p.counter.count.setWidth 38
def wbsAckO (p : CounterProject) : Bool := p.counter.ready
def wbsDatO (p : CounterProject) : BitVec 32 := p.counter.rdata

/-- At this clock the access on the pins is taken. -/
def accepts (p : CounterProject) (e : CounterPins) : Bool :=
  p.clkRises e && !e.rst && (e.valid && !p.wbsAckO)

/-- The rising edges of the clock wire in a run. -/
def clocks (p : CounterProject) (events : List CounterPins) : ℕ :=
  (trace step (fun before e ↦ if before.clkRises e then [()] else []) p events).length

end CounterProject

/-! ## One clock -/

namespace Counter

theorem writeByte_extractLsb' (wstrb : BitVec 4) (wdata count : BitVec 32) (byte byte' : ℕ)
    (hbyte : byte < 4) :
    (writeByte wstrb wdata byte count).extractLsb' (8 * byte') 8 =
      if byte' = byte ∧ wstrb.getLsbD byte then wdata.extractLsb' (8 * byte') 8
      else count.extractLsb' (8 * byte') 8 := by
  unfold writeByte
  by_cases hstrobe : wstrb.getLsbD byte = true
  · rw [if_pos hstrobe, byte_setPart _ _ _ _ (by omega)]
    by_cases hsame : byte' = byte
    · rw [if_pos hsame, if_pos ⟨hsame, hstrobe⟩, hsame]
    · rw [if_neg hsame, if_neg fun h ↦ hsame h.1]
  · rw [if_neg hstrobe, if_neg fun h ↦ hstrobe h.2]

/-- Every byte is written by its own strobe only. -/
theorem writeBytes_extractLsb' (wstrb : BitVec 4) (wdata count : BitVec 32) (byte : ℕ)
    (hbyte : byte < 4) :
    (writeBytes wstrb wdata count).extractLsb' (8 * byte) 8 =
      if wstrb.getLsbD byte then wdata.extractLsb' (8 * byte) 8
      else count.extractLsb' (8 * byte) 8 := by
  have hcases : byte = 0 ∨ byte = 1 ∨ byte = 2 ∨ byte = 3 := by omega
  unfold writeBytes
  rw [writeByte_extractLsb' _ _ _ 3 _ (by omega), writeByte_extractLsb' _ _ _ 2 _ (by omega),
    writeByte_extractLsb' _ _ _ 1 _ (by omega), writeByte_extractLsb' _ _ _ 0 _ (by omega)]
  rcases hcases with rfl | rfl | rfl | rfl <;> simp

theorem writeBytes_of_no_strobe (wdata count : BitVec 32) : writeBytes 0#4 wdata count = count := by
  simp [writeBytes, writeByte]

theorem writeBytes_of_all_strobes (wdata count : BitVec 32) :
    writeBytes (BitVec.allOnes 4) wdata count = wdata := by
  apply eq_of_bytes
  intro byte
  rw [writeBytes_extractLsb' _ _ _ _ byte.isLt, BitVec.getLsbD_allOnes]
  simp

variable {s : Counter} {i : Ports}

theorem clockEdge_of_reset (hreset : i.reset = true) :
    s.clockEdge i = { s with count := 0#32, ready := false } := by
  simp [clockEdge, hreset]

/-- An access is taken when the last one is not being acknowledged. -/
theorem clockEdge_of_access (hreset : i.reset = false) (hvalid : i.valid = true)
    (hready : s.ready = false) (hla : i.laWrite = 0#32) :
    s.clockEdge i =
      { count := writeBytes i.wstrb i.wdata (s.count + 1#32)
        ready := true
        rdata := s.count } := by
  simp [clockEdge, hreset, hvalid, hready, hla]

theorem clockEdge_of_no_access (hreset : i.reset = false)
    (haccess : i.valid = false ∨ s.ready = true) :
    s.clockEdge i =
      { s with
        count := if i.laWrite = 0#32 then s.count + 1#32 else i.laWrite &&& i.laInput
        ready := false } := by
  have hnone : (i.valid && !s.ready) = false := by
    rcases haccess with hvalid | hready
    · rw [hvalid, Bool.false_and]
    · rw [hready, Bool.not_true, Bool.and_false]
  unfold clockEdge
  rw [hreset, hnone]
  by_cases hla : i.laWrite = 0#32 <;> simp [hla]

end Counter

namespace CounterPins

variable {e : CounterPins}

theorem laWrite_of_valid (h : e.valid = true) : e.laWrite = 0#32 := by
  simp [laWrite, h]

theorem laWrite_of_not_valid (h : e.valid = false) : e.laWrite = e.laEnables := by
  unfold laWrite
  rw [h, if_neg Bool.false_ne_true, BitVec.not_zero, BitVec.and_allOnes]

end CounterPins

namespace CounterProject

variable {p : CounterProject} {e : CounterPins} {events : List CounterPins}

theorem accepts_iff : p.accepts e = true ↔
    p.clkRises e = true ∧ e.rst = false ∧ e.valid = true ∧ p.wbsAckO = false := by
  simp [accepts, and_assoc]

theorem step_of_no_clock (h : p.clkRises e = false) : (p.step e).counter = p.counter := by
  simp [step, h]

theorem step_of_reset (h : p.clkRises e = true) (hrst : e.rst = true) :
    (p.step e).counter = { p.counter with count := 0#32, ready := false } := by
  simp only [step, if_pos h]
  exact Counter.clockEdge_of_reset hrst

/-- An access is taken: the count goes on under the bytes that are written, and what it was is the
data of the acknowledge. -/
theorem step_of_accepts (h : p.accepts e = true) :
    (p.step e).counter =
      { count := Counter.writeBytes e.wstrb e.wbsDatI (p.count + 1#32)
        ready := true
        rdata := p.count } := by
  obtain ⟨hclk, hrst, hvalid, hready⟩ := accepts_iff.1 h
  simp only [step, if_pos hclk]
  exact Counter.clockEdge_of_access hrst hvalid hready (CounterPins.laWrite_of_valid hvalid)

/-- At any other clock the probes write where they are enabled, and the count goes on if none is.
Nothing is acknowledged after it. -/
theorem step_of_not_accepts (hclk : p.clkRises e = true) (hrst : e.rst = false)
    (h : p.accepts e = false) :
    (p.step e).counter =
      { p.counter with
        count := if e.laWrite = 0#32 then p.count + 1#32 else e.laWrite &&& e.laInput
        ready := false } := by
  have haccess : e.valid = false ∨ p.counter.ready = true := by
    simpa [accepts, hclk, hrst, wbsAckO, or_iff_not_imp_left] using h
  simp only [step, if_pos hclk]
  exact Counter.clockEdge_of_no_access hrst haccess

theorem count_step_of_no_clock (h : p.clkRises e = false) :
    (p.step e).count = p.count ∧ (p.step e).wbsAckO = p.wbsAckO := by
  unfold count wbsAckO
  rw [step_of_no_clock h]
  exact ⟨rfl, rfl⟩

/-- Without an access the probes write where they are enabled. -/
theorem count_step_of_no_access (hclk : p.clkRises e = true) (hrst : e.rst = false)
    (hvalid : e.valid = false) :
    (p.step e).count =
        (if e.laEnables = 0#32 then p.count + 1#32 else e.laEnables &&& e.laInput) ∧
      (p.step e).wbsAckO = false := by
  have hnone : p.accepts e = false := by simp [accepts, hvalid]
  unfold count wbsAckO
  rw [step_of_not_accepts hclk hrst hnone, CounterPins.laWrite_of_not_valid hvalid]
  exact ⟨rfl, rfl⟩

theorem accepts_of_no_clock (h : p.clkRises e = false) : p.accepts e = false := by
  simp [accepts, h]

end CounterProject

end CaravelSoc.User
