import CaravelSoc.Sequential.Euclid
import CaravelSoc.Sequential.Run

/-!
# The greatest common divisor in the user project

`user_proj_example` wires the logic analyzer probes to `seq_gcd`: probes 0 to 63
are the operands, probes 64 and 65 may take over its clock and its reset. The
unit takes one division of Euclid's algorithm each clock and registers the result
in the clock after the last one.

The remainder `a_q % b_q` is registered on every clock that loads nothing, also
when `b_q` is zero. What that gives is not defined by the language, so every
event brings its own function for it.
-/

open Sequential

namespace CaravelSoc.User

/-- The registers of `seq_gcd`. -/
structure SeqGcd where
  aQ : BitVec 32
  bQ : BitVec 32
  gcdO : BitVec 32
  rdata : BitVec 32
  ready : Bool
  cs : Bool
  deriving DecidableEq, Repr

namespace SeqGcd

/-- `negedge rst_n`. -/
def reset : SeqGcd where
  aQ := 0#32
  bQ := 0#32
  gcdO := 0#32
  rdata := 0#32
  ready := false
  cs := false

/-- The outputs of `proc_compute_NS`. -/
structure Control where
  loadInt : Bool
  doneO : Bool
  ns : Bool
  deriving DecidableEq, Repr

def laLoad (laWriteA laWriteB : BitVec 32) : Bool :=
  laWriteA == BitVec.allOnes 32 && laWriteB == BitVec.allOnes 32

/-- `proc_compute_NS`. -/
def computeNS (s : SeqGcd) (laLoad : Bool) : Control :=
  match s.cs with
  | false => { loadInt := laLoad, doneO := false, ns := laLoad }
  | true => { loadInt := false, doneO := s.bQ == 0#32, ns := s.bQ != 0#32 }

/-- `a_q % b_q`; `byZero` is what a division by zero leaves. -/
def remainder (byZero : BitVec 32 → BitVec 32) (a b : BitVec 32) : BitVec 32 :=
  if b = 0#32 then byZero a else a % b

/-- `posedge clk` with the reset off: `proc_seq` and `proc_update_state`. -/
def clockEdge (byZero : BitVec 32 → BitVec 32) (laWriteA laWriteB aI bI : BitVec 32)
    (s : SeqGcd) : SeqGcd :=
  let control := s.computeNS (laLoad laWriteA laWriteB)
  { s with
    aQ := if control.loadInt then aI else s.bQ
    bQ := if control.loadInt then bI else remainder byZero s.aQ s.bQ
    gcdO := if control.doneO then s.aQ else s.gcdO
    cs := control.ns }

end SeqGcd

/-- The pins of `user_proj_example` that reach `seq_gcd`, and what a division by zero leaves
while they have these values. -/
structure Sample where
  wbClkI : Bool
  wbRstI : Bool
  wbsStbI : Bool
  wbsCycI : Bool
  laDataIn : BitVec 128
  laOenb : BitVec 128
  byZero : BitVec 32 → BitVec 32

namespace Sample

def valid (e : Sample) : Bool := e.wbsCycI && e.wbsStbI

/-- Probe 64 is the clock when its output is enabled. -/
def clk (e : Sample) : Bool :=
  if !e.laOenb.getLsbD 64 then e.laDataIn.getLsbD 64 else e.wbClkI

/-- Probe 65 is the reset when its output is enabled. -/
def rst (e : Sample) : Bool :=
  if !e.laOenb.getLsbD 65 then e.laDataIn.getLsbD 65 else e.wbRstI

/-- `{BITS{valid}}`. -/
def validMask (e : Sample) : BitVec 32 := if e.valid then BitVec.allOnes 32 else 0#32

def laWriteA (e : Sample) : BitVec 32 := ~~~(e.laOenb.extractLsb' 0 32) &&& ~~~e.validMask
def laWriteB (e : Sample) : BitVec 32 := ~~~(e.laOenb.extractLsb' 32 32) &&& ~~~e.validMask
def aI (e : Sample) : BitVec 32 := e.laDataIn.extractLsb' 0 32
def bI (e : Sample) : BitVec 32 := e.laDataIn.extractLsb' 32 32

/-- All write enables of the probes 0 to 63 are active. -/
def Loads (e : Sample) : Prop := e.laOenb.extractLsb' 0 64 = 0#64 ∧ e.valid = false

end Sample

/-- `user_proj_example`: the level of its clock wire, and `seq_gcd`. -/
structure Project where
  clk : Bool
  seqGcd : SeqGcd
  deriving DecidableEq, Repr

namespace Project

/-- `posedge clk`. -/
def clkRises (p : Project) (e : Sample) : Bool := !p.clk && e.clk

/-- The pins take new values. The reset is asynchronous. -/
def step (p : Project) (e : Sample) : Project where
  clk := e.clk
  seqGcd :=
    if e.rst then SeqGcd.reset
    else if p.clkRises e then p.seqGcd.clockEdge e.byZero e.laWriteA e.laWriteB e.aI e.bI
    else p.seqGcd

def laDataOut (p : Project) : BitVec 128 := p.seqGcd.gcdO.setWidth 128
def ioOut (p : Project) : BitVec 38 := p.seqGcd.gcdO.setWidth 38
def wbsAckO (p : Project) : Bool := p.seqGcd.ready
def wbsDatO (p : Project) : BitVec 32 := p.seqGcd.rdata

/-- `{(MPRJ_IO_PADS-1){rst}}`, one bit short of the port. -/
def ioOeb (e : Sample) : BitVec 38 :=
  (if e.rst then BitVec.allOnes 37 else 0#37).setWidth 38

def irq : BitVec 3 := 0#3

/-- The rising edges of the clock wire in a run. -/
def clocks (p : Project) (events : List Sample) : ℕ :=
  (trace step (fun before event ↦ if before.clkRises event then [()] else []) p events).length

end Project

/-! ## One clock -/

namespace SeqGcd

variable (byZero : BitVec 32 → BitVec 32) (laWriteA laWriteB aI bI : BitVec 32) {s : SeqGcd}

theorem clockEdge_of_load (hidle : s.cs = false) (hload : laLoad laWriteA laWriteB = true) :
    s.clockEdge byZero laWriteA laWriteB aI bI = { s with aQ := aI, bQ := bI, cs := true } := by
  simp [clockEdge, computeNS, hidle, hload]

/-- A busy unit with a divisor divides, whatever is presented to it. -/
theorem clockEdge_of_divisor (hbusy : s.cs = true) (hdivisor : s.bQ ≠ 0#32) :
    s.clockEdge byZero laWriteA laWriteB aI bI =
      { s with aQ := s.bQ, bQ := s.aQ % s.bQ } := by
  simp [clockEdge, computeNS, remainder, hbusy, hdivisor]

/-- A busy unit whose divisor is zero is done. -/
theorem clockEdge_of_done (hbusy : s.cs = true) (hdone : s.bQ = 0#32) :
    (s.clockEdge byZero laWriteA laWriteB aI bI).cs = false ∧
      (s.clockEdge byZero laWriteA laWriteB aI bI).gcdO = s.aQ := by
  simp [clockEdge, computeNS, hbusy, hdone]

end SeqGcd

theorem Sample.Loads.laLoad {e : Sample} (h : e.Loads) :
    SeqGcd.laLoad e.laWriteA e.laWriteB = true := by
  obtain ⟨hoenb, hvalid⟩ := h
  have hpart : ∀ lo, lo + 32 ≤ 64 → e.laOenb.extractLsb' lo 32 = 0#32 := by
    intro lo hlo
    calc
      e.laOenb.extractLsb' lo 32 = (e.laOenb.extractLsb' 0 64).extractLsb' lo 32 :=
        (BitVec.extractLsb'_extractLsb'_of_le hlo).symm
      _ = 0#32 := by rw [hoenb, BitVec.extractLsb'_zero]
  simp [SeqGcd.laLoad, Sample.laWriteA, Sample.laWriteB, Sample.validMask, hvalid, hpart 0,
    hpart 32]

namespace Project

/-! ## Runs -/

variable {p : Project} {e : Sample} {events : List Sample}

theorem step_of_clock (hrst : e.rst = false) (hclk : p.clkRises e = true) :
    (p.step e).seqGcd = p.seqGcd.clockEdge e.byZero e.laWriteA e.laWriteB e.aI e.bI := by
  simp [step, hrst, hclk]

theorem step_of_no_clock (hrst : e.rst = false) (hclk : p.clkRises e = false) :
    (p.step e).seqGcd = p.seqGcd := by
  simp [step, hrst, hclk]

theorem clocks_cons : p.clocks (e :: events) =
    (if p.clkRises e then 1 else 0) + (p.step e).clocks events := by
  unfold clocks
  rw [trace, List.length_append]
  split <;> rfl

/-- Without a clock and without a reset nothing changes. -/
theorem run_of_no_clock (hrst : ∀ e ∈ events, e.rst = false) (hclocks : p.clocks events = 0) :
    (run step p events).seqGcd = p.seqGcd := by
  induction events generalizing p with
  | nil => rfl
  | cons e rest ih =>
    rw [List.forall_mem_cons] at hrst
    rw [clocks_cons] at hclocks
    have hclk : p.clkRises e = false := by
      by_contra hrises
      simp [hrises] at hclocks
    calc
      (run step p (e :: rest)).seqGcd = (p.step e).seqGcd := ih hrst.2 (by omega)
      _ = p.seqGcd := step_of_no_clock hrst.1 hclk

/-- A busy unit, followed up to the clock in which it is done. The induction is over the events;
the clocks still needed go with the operands still held. -/
theorem run_of_busy (hrst : ∀ e ∈ events, e.rst = false) (hbusy : p.seqGcd.cs = true) :
    (p.clocks events ≤ divisions p.seqGcd.aQ.toNat p.seqGcd.bQ.toNat →
      (run step p events).seqGcd.cs = true ∧
        (run step p events).seqGcd.gcdO = p.seqGcd.gcdO) ∧
    (p.clocks events = divisions p.seqGcd.aQ.toNat p.seqGcd.bQ.toNat + 1 →
      (run step p events).seqGcd.cs = false ∧
        (run step p events).seqGcd.gcdO.toNat =
          Nat.gcd p.seqGcd.aQ.toNat p.seqGcd.bQ.toNat) := by
  induction events generalizing p with
  | nil => exact ⟨fun _ ↦ ⟨hbusy, rfl⟩, fun hclocks ↦ by simp [clocks, trace] at hclocks⟩
  | cons e rest ih =>
    rw [List.forall_mem_cons] at hrst
    rw [clocks_cons, run]
    cases hclk : p.clkRises e with
    | false =>
      have hkept := step_of_no_clock hrst.1 hclk
      have hrest := ih (p := p.step e) hrst.2 (by rw [hkept, hbusy])
      rw [hkept] at hrest
      simpa using hrest
    | true =>
      have hclock := step_of_clock hrst.1 hclk
      rw [if_pos rfl]
      by_cases hb : p.seqGcd.bQ = 0#32
      · have hdone := SeqGcd.clockEdge_of_done e.byZero e.laWriteA e.laWriteB e.aI e.bI hbusy hb
        rw [← hclock] at hdone
        rw [hb, BitVec.toNat_zero, divisions_zero, Nat.gcd_zero_right]
        refine ⟨by omega, fun hclocks ↦ ?_⟩
        have hstop := run_of_no_clock (p := p.step e) hrst.2 (by omega)
        rw [hstop, hdone.1, hdone.2]
        exact ⟨rfl, rfl⟩
      · have hdivide := hclock.trans
          (SeqGcd.clockEdge_of_divisor e.byZero e.laWriteA e.laWriteB e.aI e.bI hbusy hb)
        have hrest := ih (p := p.step e) hrst.2 (by rw [hdivide, hbusy])
        have hb' : p.seqGcd.bQ.toNat ≠ 0 := fun hzero ↦ hb (BitVec.eq_of_toNat_eq hzero)
        have hgcd : Nat.gcd p.seqGcd.aQ.toNat p.seqGcd.bQ.toNat =
            Nat.gcd p.seqGcd.bQ.toNat (p.seqGcd.aQ.toNat % p.seqGcd.bQ.toNat) := by
          rw [Nat.gcd_comm, Nat.gcd_rec, Nat.gcd_comm]
        simp only [hdivide, BitVec.toNat_umod] at hrest
        rw [divisions_of_ne_zero hb', hgcd]
        exact ⟨fun hclocks ↦ hrest.1 (by omega), fun hclocks ↦ hrest.2 (by omega)⟩

/-- From any idle state, a load starts a computation of a length given by the operands alone: up
to its last clock the result register keeps its value, and with it the register holds the greatest
common divisor, whatever the pins do, the reset apart. -/
theorem seq_gcd_computes (a b : BitVec 32) (p : Project) (load : Sample)
    (hidle : p.seqGcd.cs = false) (hrst : load.rst = false) (hclk : p.clkRises load = true)
    (hload : load.Loads) (ha : load.aI = a) (hb : load.bI = b) :
    ∃ k, 1 ≤ k ∧ k ≤ 66 ∧ (p.step load).seqGcd.gcdO = p.seqGcd.gcdO ∧
      ∀ events : List Sample, (∀ e ∈ events, e.rst = false) →
        ((p.step load).clocks events < k →
          (run step (p.step load) events).seqGcd.cs = true ∧
            (run step (p.step load) events).seqGcd.gcdO = p.seqGcd.gcdO) ∧
        ((p.step load).clocks events = k →
          (run step (p.step load) events).seqGcd.cs = false ∧
            (run step (p.step load) events).seqGcd.gcdO.toNat = Nat.gcd a.toNat b.toNat) := by
  have hloaded : (p.step load).seqGcd = { p.seqGcd with aQ := a, bQ := b, cs := true } := by
    rw [step_of_clock hrst hclk, ha, hb]
    exact SeqGcd.clockEdge_of_load _ _ _ _ _ hidle hload.laLoad
  have hbound : divisions a.toNat b.toNat ≤ 2 * 32 := divisions_le b.isLt
  refine ⟨divisions a.toNat b.toNat + 1, by omega, by omega, by rw [hloaded], ?_⟩
  intro events hquiet
  have hrun := run_of_busy (p := p.step load) hquiet (by rw [hloaded])
  simp only [hloaded] at hrun
  exact ⟨fun hclocks ↦ hrun.1 (by omega), hrun.2⟩

/-- After a reset: the clock is low and the unit is idle. -/
def afterReset : Project where
  clk := false
  seqGcd := SeqGcd.reset

/-- A clock edge with all write enables active, the operands 12 and 18 on the probes. -/
def loadExample : Sample where
  wbClkI := true
  wbRstI := false
  wbsStbI := false
  wbsCycI := false
  laDataIn := 18#128 <<< 32 ||| 12#128
  laOenb := ~~~0#128 <<< 64
  byZero := fun x ↦ ~~~x

theorem seq_gcd_computes_loadExample :
    ∃ k, 1 ≤ k ∧ k ≤ 66 ∧ (afterReset.step loadExample).seqGcd.gcdO = 0#32 ∧
      ∀ events : List Sample, (∀ e ∈ events, e.rst = false) →
        ((afterReset.step loadExample).clocks events < k →
          (run step (afterReset.step loadExample) events).seqGcd.cs = true ∧
            (run step (afterReset.step loadExample) events).seqGcd.gcdO = 0#32) ∧
        ((afterReset.step loadExample).clocks events = k →
          (run step (afterReset.step loadExample) events).seqGcd.cs = false ∧
            (run step (afterReset.step loadExample) events).seqGcd.gcdO.toNat =
              Nat.gcd (12#32).toNat (18#32).toNat) :=
  seq_gcd_computes 12#32 18#32 afterReset loadExample (by decide) (by decide) (by decide)
    (by constructor <;> decide) (by decide) (by decide)

end Project

end CaravelSoc.User
