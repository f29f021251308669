import CaravelSoc.Sequential.Framing
import CaravelSoc.Sequential.Run
import Mathlib.Tactic.IntervalCases

/-!
# The SPI master

The master behind bank 9. A write of its control register starts a transfer: the byte in `mosi`
is sent with the highest bit first, and at every rising edge of the clock a bit comes in. The
clock is divided by a counter that never stops, so that a transfer starts at any of its
values.
-/

open Sequential Sequential.ShiftRegister

namespace CaravelSoc.Management

/-- `spimaster_state`. -/
inductive SpiMasterState
  | idle
  | start
  | run
  | stop
  deriving DecidableEq, Repr

structure SpiMaster where
  state : SpiMasterState
  count : BitVec 3
  clkDivider1 : BitVec 16
  spiClk : Bool
  spiCsN : Bool
  spiMosi : Bool
  mosiData : BitVec 8
  mosiSel : BitVec 3
  misoData : BitVec 8
  miso : BitVec 8
  deriving DecidableEq, Repr

namespace SpiMaster

def reset : SpiMaster where
  state := .idle
  count := 0#3
  clkDivider1 := 0#16
  spiClk := false
  spiCsN := false
  spiMosi := false
  mosiData := 0#8
  mosiSel := 0#3
  misoData := 0#8
  miso := 0#8

/-- What the registers of the bank hold, and the pin. -/
structure Inputs where
  start : Bool
  length : BitVec 8
  mosi : BitVec 8
  cs : Bool
  csMode : Bool
  loopback : Bool
  divider : BitVec 16
  spiMiso : Bool
  deriving DecidableEq, Repr

variable (s : SpiMaster) (i : Inputs)

def clkRise : Bool := s.clkDivider1 == (i.divider.extractLsb' 1 15).setWidth 16 - 1#16

def clkFall : Bool := s.clkDivider1 == i.divider - 1#16

def lastBit : Bool := s.count.setWidth 8 == i.length - 1#8

def nextState : SpiMasterState :=
  match s.state with
  | .idle => if i.start then .start else .idle
  | .start => if s.clkFall i then .run else .start
  | .run => if s.clkFall i && s.lastBit i then .stop else .run
  | .stop => if s.clkRise i then .idle else .stop

def nextCount : BitVec 3 :=
  match s.state with
  | .start => 0#3
  | .run => if s.clkFall i then s.count + 1#3 else s.count
  | .idle | .stop => s.count

def done : Bool := s.state == .idle && !i.start

def clkEnable : Bool := s.state == .run

def xferEnable : Bool :=
  match s.state with
  | .idle => false
  | .start => s.clkFall i
  | .run | .stop => true

def mosiLatch : Bool := s.state == .idle && i.start

def misoLatch : Bool := s.state == .stop && s.clkRise i

/-- The bit that comes in. -/
def incoming : Bool := if i.loopback then s.spiMosi else i.spiMiso

/-- One clock. -/
def clockEdge : SpiMaster where
  state := s.nextState i
  count := s.nextCount i
  clkDivider1 := if !s.clkRise i && s.clkFall i then 0#16 else s.clkDivider1 + 1#16
  spiClk := if s.clkRise i then s.clkEnable else if s.clkFall i then false else s.spiClk
  spiCsN := !(i.cs && (s.xferEnable i || i.csMode))
  spiMosi :=
    if !s.mosiLatch i && s.clkFall i && s.xferEnable i then s.mosiData.getLsbD s.mosiSel.toNat
    else s.spiMosi
  mosiData := if s.mosiLatch i then i.mosi else s.mosiData
  mosiSel := if s.mosiLatch i then 7#3 else if s.clkFall i then s.mosiSel - 1#3 else s.mosiSel
  misoData := if s.clkRise i then s.misoData.shiftConcat (s.incoming i) else s.misoData
  miso := if s.misoLatch i then s.misoData else s.miso

/-- The bits that go out and come in where the clock rises for a selected slave. -/
def exchanged : List (Bool × Bool) :=
  if !s.spiClk && (s.clockEdge i).spiClk && !(s.clockEdge i).spiCsN then
    [((s.clockEdge i).spiMosi, s.incoming i)]
  else []

/-! ## A transfer -/

/-- The registers stay as they are during a transfer, and the slave is selected. -/
structure Inputs.Steady (divider : BitVec 16) (length : BitVec 8) (i : Inputs) : Prop where
  divider : i.divider = divider
  length : i.length = length
  cs : i.cs = true

/-- A transfer has not yet come to its first bit. -/
structure Starting (m : BitVec 8) (divider : BitVec 16) (s : SpiMaster) : Prop where
  state : s.state = .start
  mosiData : s.mosiData = m
  mosiSel : s.mosiSel = 7#3
  divides : s.clkDivider1.toNat < divider.toNat

/-- Bit `j` is on the line. It is exchanged in the middle of its time. -/
structure Running (m : BitVec 8) (divider : BitVec 16) (length : BitVec 8) (j : ℕ)
    (bits : List (Bool × Bool)) (s : SpiMaster) : Prop where
  state : s.state = .run
  mosiData : s.mosiData = m
  place : j < length.toNat
  count : s.count = BitVec.ofNat 3 j
  mosiSel : s.mosiSel = 6#3 - BitVec.ofNat 3 j
  spiMosi : s.spiMosi = m.getMsbD j
  spiCsN : s.spiCsN = false
  divides : s.clkDivider1.toNat < divider.toNat
  spiClk : s.clkDivider1.toNat < divider.toNat / 2 → s.spiClk = false
  bitsOut : bits.map Prod.fst = (msbFirst m).take
    (if s.clkDivider1.toNat < divider.toNat / 2 then j else j + 1)
  bitsIn : ∃ old, s.misoData = (bits.map Prod.snd).foldl BitVec.shiftConcat old

/-- All bits are exchanged. -/
structure Stopping (m : BitVec 8) (divider : BitVec 16) (length : BitVec 8)
    (bits : List (Bool × Bool)) (s : SpiMaster) : Prop where
  state : s.state = .stop
  divides : s.clkDivider1.toNat < divider.toNat / 2
  bitsOut : bits.map Prod.fst = (msbFirst m).take length.toNat
  bitsIn : ∃ old, s.misoData = (bits.map Prod.snd).foldl BitVec.shiftConcat old

/-- A transfer with `left` clocks to go that has exchanged the bits `bits`. -/
inductive Transfer (m : BitVec 8) (divider : BitVec 16) (length : BitVec 8) (s : SpiMaster) :
    ℕ → List (Bool × Bool) → Prop
  | start (h : Starting m divider s) :
      Transfer m divider length s
        (divider.toNat - s.clkDivider1.toNat + length.toNat * divider.toNat + divider.toNat / 2) []
  | run (j : ℕ) (bits : List (Bool × Bool)) (h : Running m divider length j bits s) :
      Transfer m divider length s
        (divider.toNat - s.clkDivider1.toNat + (length.toNat - 1 - j) * divider.toNat +
          divider.toNat / 2) bits
  | stop (bits : List (Bool × Bool)) (h : Stopping m divider length bits s) :
      Transfer m divider length s (divider.toNat / 2 - s.clkDivider1.toNat) bits

/-- The master is done: the first bits of the byte have gone out, highest first, and those that
came in have been shifted into `miso`. -/
structure Exchanged (m : BitVec 8) (length : BitVec 8) (bits : List (Bool × Bool))
    (s : SpiMaster) : Prop where
  state : s.state = .idle
  bitsOut : bits.map Prod.fst = (msbFirst m).take length.toNat
  bitsIn : ∃ old, s.miso = (bits.map Prod.snd).foldl BitVec.shiftConcat old

section Transfer

variable {s} {i} {m : BitVec 8} {divider : BitVec 16} {length : BitVec 8} {left : ℕ}
  {bits : List (Bool × Bool)}

theorem clkRise_eq (h : i.Steady divider length) (hdivider : 2 ≤ divider.toNat) :
    s.clkRise i = decide (s.clkDivider1.toNat + 1 = divider.toNat / 2) := by
  have hlt := divider.isLt
  have hhalf : ((divider.extractLsb' 1 15).setWidth 16 - 1#16).toNat = divider.toNat / 2 - 1 := by
    rw [BitVec.toNat_sub, BitVec.toNat_setWidth, BitVec.extractLsb'_toNat, BitVec.toNat_ofNat,
      Nat.shiftRight_eq_div_pow]
    omega
  rw [clkRise, h.divider, Bool.eq_iff_iff, beq_iff_eq, decide_eq_true_iff, ← BitVec.toNat_inj,
    hhalf]
  omega

theorem clkFall_eq (h : i.Steady divider length) (hdivider : 2 ≤ divider.toNat) :
    s.clkFall i = decide (s.clkDivider1.toNat + 1 = divider.toNat) := by
  have hlt := divider.isLt
  have hless : (divider - 1#16).toNat = divider.toNat - 1 := by
    rw [BitVec.toNat_sub, BitVec.toNat_ofNat]
    omega
  rw [clkFall, h.divider, Bool.eq_iff_iff, beq_iff_eq, decide_eq_true_iff, ← BitVec.toNat_inj,
    hless]
  omega

/-- The counter of the divided clock. -/
theorem toNat_clkDivider1 (h : i.Steady divider length) (hdivider : 2 ≤ divider.toNat)
    (hdivides : s.clkDivider1.toNat < divider.toNat) :
    (s.clockEdge i).clkDivider1.toNat =
      if s.clkDivider1.toNat + 1 = divider.toNat then 0 else s.clkDivider1.toNat + 1 := by
  have hlt := divider.isLt
  rw [clockEdge, clkRise_eq h hdivider, clkFall_eq h hdivider]
  by_cases hfall : s.clkDivider1.toNat + 1 = divider.toNat
  · rw [if_pos hfall, decide_eq_true hfall, decide_eq_false (by omega)]
    rfl
  · rw [if_neg hfall, decide_eq_false hfall, Bool.and_false, if_neg (by decide), BitVec.toNat_add,
      BitVec.toNat_ofNat]
    omega

theorem lastBit_eq (h : i.Steady divider length) {j : ℕ} (hcount : s.count = BitVec.ofNat 3 j)
    (hj : j < length.toNat) (hlength : length.toNat ≤ 8) :
    s.lastBit i = decide (j + 1 = length.toNat) := by
  have hless : (length - 1#8).toNat = length.toNat - 1 := by
    have hlt := length.isLt
    rw [BitVec.toNat_sub, BitVec.toNat_ofNat]
    omega
  rw [lastBit, h.length, Bool.eq_iff_iff, beq_iff_eq, decide_eq_true_iff, ← BitVec.toNat_inj, hless,
    hcount, BitVec.toNat_setWidth, BitVec.toNat_ofNat]
  omega

theorem getMsbD_of_sel {j : ℕ} (hj : j < 7) (m : BitVec 8) :
    m.getLsbD (6#3 - BitVec.ofNat 3 j).toNat = m.getMsbD (j + 1) := by
  interval_cases j <;> simp [BitVec.getMsbD_eq_getLsbD]

theorem take_succ_msbFirst {j : ℕ} (hj : j < 8) (m : BitVec 8) :
    (msbFirst m).take (j + 1) = (msbFirst m).take j ++ [m.getMsbD j] := by
  rw [List.take_succ_eq_append_getElem (by rw [length_msbFirst]; exact hj)]
  congr 2
  exact List.getElem_ofFn _

/-- Nothing is exchanged unless the clock rises in a transfer. -/
theorem exchanged_of_not_rise (h : s.clkRise i = false) : s.exchanged i = [] := by
  rw [exchanged, if_neg]
  simp only [clockEdge, h, Bool.and_eq_true, Bool.not_eq_true']
  cases s.spiClk <;> simp

theorem exchanged_of_not_run (h : s.state ≠ .run) : s.exchanged i = [] := by
  cases hrise : s.clkRise i with
  | false => exact exchanged_of_not_rise hrise
  | true =>
    rw [exchanged, if_neg]
    simp [clockEdge, hrise, clkEnable, h]

theorem exchanged_of_rise (h : s.state = .run) (hrise : s.clkRise i = true)
    (hfall : s.clkFall i = false) (hclk : s.spiClk = false) (hcs : i.cs = true) :
    s.exchanged i = [(s.spiMosi, s.incoming i)] := by
  simp [exchanged, clockEdge, clkEnable, xferEnable, h, hrise, hfall, hclk, hcs]

section Step

variable {j : ℕ} (hi : i.Steady divider length) (hdivider : 2 ≤ divider.toNat)
include hi hdivider

/-- The clock at which the first bit goes on the line. -/
theorem Starting.fall (h : Starting m divider s) (hpos : 0 < length.toNat)
    (hend : s.clkDivider1.toNat + 1 = divider.toNat) :
    Running m divider length 0 [] (s.clockEdge i) := by
  have hnext := toNat_clkDivider1 hi hdivider h.divides
  have hfall : s.clkFall i = true := by rw [clkFall_eq hi hdivider, decide_eq_true hend]
  have hrise : s.clkRise i = false := by rw [clkRise_eq hi hdivider, decide_eq_false (by omega)]
  rw [if_pos hend] at hnext
  refine ⟨?_, ?_, hpos, ?_, ?_, ?_, ?_, by omega, ?_, ?_, ⟨_, rfl⟩⟩
  · simp [clockEdge, nextState, h.state, hfall]
  · simpa [clockEdge, mosiLatch, h.state] using h.mosiData
  · simp [clockEdge, nextCount, h.state]
  · simp [clockEdge, mosiLatch, h.state, hfall, h.mosiSel]
  · simp [clockEdge, mosiLatch, xferEnable, h.state, hfall, h.mosiSel, h.mosiData,
      BitVec.getMsbD_eq_getLsbD]
  · simp [clockEdge, xferEnable, h.state, hfall, hi.cs]
  · intro
    simp [clockEdge, hrise, hfall]
  · rw [hnext, if_pos (by omega)]
    rfl

theorem Starting.stay (h : Starting m divider s)
    (hend : s.clkDivider1.toNat + 1 ≠ divider.toNat) : Starting m divider (s.clockEdge i) := by
  have hnext := toNat_clkDivider1 hi hdivider h.divides
  have hdivides := h.divides
  have hfall : s.clkFall i = false := by rw [clkFall_eq hi hdivider, decide_eq_false hend]
  rw [if_neg hend] at hnext
  refine ⟨?_, ?_, ?_, by omega⟩
  · simp [clockEdge, nextState, h.state, hfall]
  · simpa [clockEdge, mosiLatch, h.state] using h.mosiData
  · simpa [clockEdge, mosiLatch, h.state, hfall] using h.mosiSel

/-- The clock at which the next bit goes on the line. -/
theorem Running.fall (h : Running m divider length j bits s) (hlength : length.toNat ≤ 8)
    (hend : s.clkDivider1.toNat + 1 = divider.toNat) (hplace : j + 1 ≠ length.toNat) :
    s.exchanged i = [] ∧ Running m divider length (j + 1) bits (s.clockEdge i) := by
  have hnext := toNat_clkDivider1 hi hdivider h.divides
  have hlast := lastBit_eq hi h.count h.place hlength
  have hfall : s.clkFall i = true := by rw [clkFall_eq hi hdivider, decide_eq_true hend]
  have hrise : s.clkRise i = false := by rw [clkRise_eq hi hdivider, decide_eq_false (by omega)]
  have hbits := h.bitsOut
  have hj := h.place
  rw [if_pos hend] at hnext
  rw [if_neg (by omega)] at hbits
  rw [decide_eq_false hplace] at hlast
  refine ⟨exchanged_of_not_rise hrise, ?_, ?_, by omega, ?_, ?_, ?_, ?_, by omega, ?_, ?_, ?_⟩
  · simp [clockEdge, nextState, h.state, hfall, hlast]
  · simpa [clockEdge, mosiLatch, h.state] using h.mosiData
  · simp [clockEdge, nextCount, h.state, hfall, h.count, BitVec.ofNat_add]
  · have hsel : (s.clockEdge i).mosiSel = s.mosiSel - 1#3 := by
      simp [clockEdge, mosiLatch, h.state, hfall]
    rw [hsel, h.mosiSel, BitVec.ofNat_add]
    grind
  · have hbit := getMsbD_of_sel (j := j) (by omega) m
    rw [← hbit]
    simp [clockEdge, mosiLatch, xferEnable, h.state, hfall, h.mosiSel, h.mosiData]
  · simp [clockEdge, xferEnable, h.state, hi.cs]
  · intro
    simp [clockEdge, hrise, hfall]
  · rw [hnext, if_pos (by omega), hbits]
  · have hmiso : (s.clockEdge i).misoData = s.misoData := by simp [clockEdge, hrise]
    rw [hmiso]
    exact h.bitsIn

/-- The clock behind the last bit. -/
theorem Running.fall_last (h : Running m divider length j bits s) (hlength : length.toNat ≤ 8)
    (hend : s.clkDivider1.toNat + 1 = divider.toNat) (hplace : j + 1 = length.toNat) :
    s.exchanged i = [] ∧ Stopping m divider length bits (s.clockEdge i) := by
  have hnext := toNat_clkDivider1 hi hdivider h.divides
  have hlast := lastBit_eq hi h.count h.place hlength
  have hfall : s.clkFall i = true := by rw [clkFall_eq hi hdivider, decide_eq_true hend]
  have hrise : s.clkRise i = false := by rw [clkRise_eq hi hdivider, decide_eq_false (by omega)]
  have hbits := h.bitsOut
  rw [if_pos hend] at hnext
  rw [if_neg (by omega)] at hbits
  rw [decide_eq_true hplace] at hlast
  refine ⟨exchanged_of_not_rise hrise, ?_, by omega, ?_, ?_⟩
  · simp [clockEdge, nextState, h.state, hfall, hlast]
  · rw [hbits, hplace]
  · have hmiso : (s.clockEdge i).misoData = s.misoData := by simp [clockEdge, hrise]
    rw [hmiso]
    exact h.bitsIn

/-- A clock in the time of a bit, with its exchange or without. -/
theorem Running.stay (h : Running m divider length j bits s) (hlength : length.toNat ≤ 8)
    (hend : s.clkDivider1.toNat + 1 ≠ divider.toNat) :
    Running m divider length j (bits ++ s.exchanged i) (s.clockEdge i) := by
  have hnext := toNat_clkDivider1 hi hdivider h.divides
  have hrise := clkRise_eq (s := s) hi hdivider
  have hfall : s.clkFall i = false := by rw [clkFall_eq hi hdivider, decide_eq_false hend]
  have hdivides := h.divides
  have hplace := h.place
  have hbits := h.bitsOut
  obtain ⟨old, hold⟩ := h.bitsIn
  rw [if_neg hend] at hnext
  refine ⟨?_, ?_, h.place, ?_, ?_, ?_, ?_, by omega, ?_, ?_, old, ?_⟩
  · simp [clockEdge, nextState, h.state, hfall]
  · simpa [clockEdge, mosiLatch, h.state] using h.mosiData
  · simp [clockEdge, nextCount, h.state, hfall, h.count]
  · simp [clockEdge, mosiLatch, h.state, hfall, h.mosiSel]
  · simp [clockEdge, hfall, h.spiMosi]
  · simp [clockEdge, xferEnable, h.state, hi.cs]
  · intro hlow
    rw [decide_eq_false (by omega)] at hrise
    simp [clockEdge, hrise, hfall, h.spiClk (by omega)]
  · by_cases hup : s.clkDivider1.toNat + 1 = divider.toNat / 2
    · rw [decide_eq_true hup] at hrise
      rw [if_pos (by omega)] at hbits
      rw [exchanged_of_rise h.state hrise hfall (h.spiClk (by omega)) hi.cs, List.map_append, hbits,
        hnext, if_neg (by omega), take_succ_msbFirst (by omega), h.spiMosi]
      rfl
    · rw [decide_eq_false hup] at hrise
      rw [exchanged_of_not_rise hrise, List.append_nil, hbits, hnext]
      congr 1
      split_ifs <;> omega
  · by_cases hup : s.clkDivider1.toNat + 1 = divider.toNat / 2
    · rw [decide_eq_true hup] at hrise
      rw [exchanged_of_rise h.state hrise hfall (h.spiClk (by omega)) hi.cs, List.map_append,
        List.foldl_append, ← hold]
      simp [clockEdge, hrise]
    · rw [decide_eq_false hup] at hrise
      rw [exchanged_of_not_rise hrise, List.append_nil, ← hold]
      simp [clockEdge, hrise]

/-- The last clock. -/
theorem Stopping.rise (h : Stopping m divider length bits s)
    (hup : s.clkDivider1.toNat + 1 = divider.toNat / 2) :
    Exchanged m length bits (s.clockEdge i) := by
  have hrise : s.clkRise i = true := by rw [clkRise_eq hi hdivider, decide_eq_true hup]
  obtain ⟨old, hold⟩ := h.bitsIn
  refine ⟨?_, h.bitsOut, old, ?_⟩
  · simp [clockEdge, nextState, h.state, hrise]
  · rw [← hold]
    simp [clockEdge, misoLatch, h.state, hrise]

theorem Stopping.stay (h : Stopping m divider length bits s)
    (hup : s.clkDivider1.toNat + 1 ≠ divider.toNat / 2) :
    Stopping m divider length bits (s.clockEdge i) := by
  have hdivides := h.divides
  have hnext := toNat_clkDivider1 hi hdivider (s := s) (by omega)
  have hrise : s.clkRise i = false := by rw [clkRise_eq hi hdivider, decide_eq_false hup]
  obtain ⟨old, hold⟩ := h.bitsIn
  rw [if_neg (by omega)] at hnext
  refine ⟨?_, by omega, h.bitsOut, old, ?_⟩
  · simp [clockEdge, nextState, h.state, hrise]
  · rw [← hold]
    simp [clockEdge, hrise]

/-- One clock of a transfer. -/
theorem Transfer.step (h : Transfer m divider length s left bits) (hpos : 0 < length.toNat)
    (hlength : length.toNat ≤ 8) :
    left = 1 ∧ Exchanged m length (bits ++ s.exchanged i) (s.clockEdge i) ∨
      ∃ left', left = left' + 1 ∧
        Transfer m divider length (s.clockEdge i) left' (bits ++ s.exchanged i) := by
  cases h with
  | start h =>
    have hnext := toNat_clkDivider1 hi hdivider h.divides
    have hdivides := h.divides
    rw [exchanged_of_not_run (by rw [h.state]; decide), List.append_nil]
    right
    by_cases hend : s.clkDivider1.toNat + 1 = divider.toNat
    · refine ⟨_, ?_, .run 0 [] (h.fall hi hdivider hpos hend)⟩
      obtain ⟨k, hk⟩ := Nat.exists_eq_succ_of_ne_zero hpos.ne'
      have hk' : length.toNat - 1 - 0 = k := by omega
      rw [hnext, if_pos hend, hk', hk, Nat.succ_mul]
      omega
    · refine ⟨_, ?_, .start (h.stay hi hdivider hend)⟩
      rw [hnext, if_neg hend]
      omega
  | run j bits h =>
    have hnext := toNat_clkDivider1 hi hdivider h.divides
    have hdivides := h.divides
    have hj := h.place
    right
    by_cases hend : s.clkDivider1.toNat + 1 = divider.toNat
    · by_cases hplace : j + 1 = length.toNat
      · obtain ⟨hnone, hstop⟩ := h.fall_last hi hdivider hlength hend hplace
        rw [hnone, List.append_nil]
        refine ⟨_, ?_, .stop bits hstop⟩
        rw [← hplace, Nat.add_sub_cancel, Nat.sub_self, Nat.zero_mul, hnext, if_pos hend]
        omega
      · obtain ⟨hnone, hrun⟩ := h.fall hi hdivider hlength hend hplace
        rw [hnone, List.append_nil]
        refine ⟨_, ?_, .run (j + 1) bits hrun⟩
        obtain ⟨k, hk⟩ := Nat.exists_eq_succ_of_ne_zero (n := length.toNat - 1 - j) (by omega)
        have hk' : length.toNat - 1 - (j + 1) = k := by omega
        rw [hnext, if_pos hend, hk, hk', Nat.succ_mul]
        omega
    · refine ⟨_, ?_, .run j _ (h.stay hi hdivider hlength hend)⟩
      rw [hnext, if_neg hend]
      omega
  | stop bits h =>
    have hdivides := h.divides
    have hnext := toNat_clkDivider1 hi hdivider (s := s) (by omega)
    rw [exchanged_of_not_run (by rw [h.state]; decide), List.append_nil]
    by_cases hup : s.clkDivider1.toNat + 1 = divider.toNat / 2
    · exact .inl ⟨by omega, h.rise hi hdivider hup⟩
    · refine .inr ⟨_, ?_, .stop bits (h.stay hi hdivider hup)⟩
      rw [hnext, if_neg (by omega)]
      omega

end Step

theorem Transfer.left_pos (h : Transfer m divider length s left bits) : 0 < left := by
  cases h with
  | start h =>
    have hdivides := h.divides
    omega
  | run j bits h =>
    have hdivides := h.divides
    omega
  | stop bits h =>
    have hdivides := h.divides
    omega

/-- A transfer up to its end. -/
theorem Transfer.run_eq {events : List Inputs} (h : Transfer m divider length s left bits)
    (hsteady : ∀ e ∈ events, e.Steady divider length) (hdivider : 2 ≤ divider.toNat)
    (hpos : 0 < length.toNat) (hlength : length.toNat ≤ 8) (hleft : events.length = left) :
    Exchanged m length (bits ++ trace SpiMaster.clockEdge exchanged s events)
      (Sequential.run SpiMaster.clockEdge s events) := by
  induction events generalizing s left bits with
  | nil => exact absurd hleft h.left_pos.ne
  | cons e rest ih =>
    rw [List.forall_mem_cons] at hsteady
    rw [List.length_cons] at hleft
    rw [Sequential.run, trace, ← List.append_assoc]
    rcases h.step hsteady.1 hdivider hpos hlength with ⟨hone, hend⟩ | ⟨left', hnext, htransfer⟩
    · have hrest : rest = [] := List.length_eq_zero_iff.1 (by omega)
      rw [hrest, trace, List.append_nil]
      exact hend
    · exact ih htransfer hsteady.2 (by omega)

end Transfer

/-- The clocks of a transfer that starts while the divided clock is at `phase`. -/
def transferClocks (divider : BitVec 16) (length : BitVec 8) (phase : BitVec 16) : ℕ :=
  divider.toNat - phase.toNat + length.toNat * divider.toNat + divider.toNat / 2

/-- A byte of eight bits with the loopback on and the shortest divider. -/
def loopbackInput : Inputs where
  start := true
  length := 8#8
  mosi := 0xA5#8
  cs := true
  csMode := false
  loopback := true
  divider := 2#16
  spiMiso := false

def loopbackInputs : List Inputs :=
  loopbackInput :: List.replicate 18 { loopbackInput with start := false }

theorem steady_loopbackInputs : ∀ e ∈ loopbackInputs, e.Steady 2#16 8#8 := by
  intro e he
  rcases List.mem_cons.1 he with rfl | he
  · exact ⟨rfl, rfl, rfl⟩
  · rw [List.eq_of_mem_replicate he]
    exact ⟨rfl, rfl, rfl⟩

section Start

variable {s : SpiMaster} {first : Inputs} {events : List Inputs} {divider : BitVec 16}
  {length : BitVec 8}

theorem exchanged_of_start (hidle : s.state = .idle) (hstart : first.start = true)
    (hdivider : 2 ≤ divider.toNat) (hphase : s.clkDivider1.toNat < divider.toNat)
    (hpos : 0 < length.toNat) (hlength : length.toNat ≤ 8)
    (hsteady : ∀ e ∈ first :: events, e.Steady divider length)
    (hclocks : events.length =
      transferClocks divider length (s.clockEdge first).clkDivider1) :
    Exchanged first.mosi length (trace clockEdge exchanged s (first :: events))
      (Sequential.run clockEdge s (first :: events)) := by
  rw [List.forall_mem_cons] at hsteady
  have hnext := toNat_clkDivider1 hsteady.1 hdivider hphase
  have htransfer : Transfer first.mosi divider length (s.clockEdge first) events.length [] := by
    rw [hclocks]
    refine .start ⟨?_, ?_, ?_, ?_⟩
    · simp [clockEdge, nextState, hidle, hstart]
    · simp [clockEdge, mosiLatch, hidle, hstart]
    · simp [clockEdge, mosiLatch, hidle, hstart]
    · rw [hnext]
      split_ifs <;> omega
  rw [trace, exchanged_of_not_run (by rw [hidle]; decide), Sequential.run]
  exact htransfer.run_eq hsteady.2 hdivider hpos hlength rfl

/-- **A transfer.** With a divider of two at least and one to eight bits, a transfer that starts at
any value of the divided clock ends after a time that the divider and the length give. It has sent
the first bits of the byte, highest first, to the selected slave, and what the slave answered
has been shifted into `miso`. -/
theorem transfer_exchanges (hidle : s.state = .idle) (hstart : first.start = true)
    (hdivider : 2 ≤ divider.toNat) (hphase : s.clkDivider1.toNat < divider.toNat)
    (hpos : 0 < length.toNat) (hlength : length.toNat ≤ 8)
    (hsteady : ∀ e ∈ first :: events, e.Steady divider length)
    (hclocks : events.length =
      transferClocks divider length (s.clockEdge first).clkDivider1) :
    Exchanged first.mosi length (trace clockEdge exchanged s (first :: events))
      (Sequential.run clockEdge s (first :: events)) :=
  exchanged_of_start hidle hstart hdivider hphase hpos hlength hsteady hclocks

theorem transfer_exchanges_loopbackInputs :
    Exchanged 0xA5#8 8#8 (trace clockEdge exchanged reset loopbackInputs)
      (Sequential.run clockEdge reset loopbackInputs) :=
  transfer_exchanges rfl rfl (by decide) (by decide) (by decide) (by decide)
    steady_loopbackInputs (by decide)

/-- With the loopback on, what goes out comes in. -/
theorem exchanged_loopback {i : Inputs} (hi : i.Steady divider length)
    (hdivider : 2 ≤ divider.toNat) (hloopback : i.loopback = true) :
    ∀ bit ∈ s.exchanged i, bit.2 = bit.1 := by
  intro bit hbit
  cases hrise : s.clkRise i with
  | false =>
    rw [exchanged_of_not_rise hrise] at hbit
    cases hbit
  | true =>
    have hfall : s.clkFall i = false := by
      rw [clkRise_eq hi hdivider, decide_eq_true_iff] at hrise
      rw [clkFall_eq hi hdivider, decide_eq_false_iff_not]
      omega
    have hmosi : (s.clockEdge i).spiMosi = s.spiMosi := by simp [clockEdge, hfall]
    rw [exchanged] at hbit
    split at hbit
    · rw [List.mem_singleton.1 hbit, hmosi, incoming, if_pos hloopback]
    · cases hbit

/-- **The loopback.** A transfer of eight bits with the loopback on brings its own byte back. -/
theorem loopback_returns (hidle : s.state = .idle) (hstart : first.start = true)
    (hdivider : 2 ≤ divider.toNat) (hphase : s.clkDivider1.toNat < divider.toNat)
    (hsteady : ∀ e ∈ first :: events, e.Steady divider 8#8)
    (hloopback : ∀ e ∈ first :: events, e.loopback = true)
    (hclocks : events.length =
      transferClocks divider 8#8 (s.clockEdge first).clkDivider1) :
    (Sequential.run clockEdge s (first :: events)).state = .idle ∧
      (Sequential.run clockEdge s (first :: events)).miso = first.mosi := by
  obtain ⟨hend, hout, old, hin⟩ := exchanged_of_start hidle hstart hdivider hphase (by decide)
    (by decide) hsteady hclocks
  have hsame : ∀ bit ∈ trace clockEdge exchanged s (first :: events), bit.2 = bit.1 := by
    rw [forall_mem_trace_iff]
    refine (along_of_forall (E := fun e : Inputs ↦ e.Steady divider 8#8 ∧ e.loopback = true)
      fun e he ↦ ⟨hsteady e he, hloopback e he⟩).mono ?_
    exact fun s e hboth ↦ exchanged_loopback hboth.1 hdivider hboth.2
  have hbyte : (msbFirst first.mosi).take (8#8).toNat = msbFirst first.mosi :=
    List.take_of_length_le (by rw [length_msbFirst]; decide)
  refine ⟨hend, ?_⟩
  rw [hin, List.map_congr_left hsame, hout, hbyte,
    foldl_shiftConcat_eq_ofBits old (by rw [length_msbFirst]), ofBits_msbFirst]

theorem loopback_returns_loopbackInputs :
    (Sequential.run clockEdge reset loopbackInputs).state = .idle ∧
      (Sequential.run clockEdge reset loopbackInputs).miso = 0xA5#8 := by
  refine loopback_returns rfl rfl (by decide) (by decide) steady_loopbackInputs ?_ (by decide)
  intro e he
  rcases List.mem_cons.1 he with rfl | he
  · rfl
  · rw [List.eq_of_mem_replicate he]
    rfl

/-- **A transfer that does not end.** The master counts its bits modulo eight: with any other
length it goes on as long as the length stays, and is not done whatever comes next. -/
theorem transfer_never_ends (hbusy : s.state = .start ∨ s.state = .run)
    (hlength : length = 0#8 ∨ 8 < length.toNat) (hkept : ∀ e ∈ events, e.length = length) :
    ((Sequential.run clockEdge s events).state = .start ∨
      (Sequential.run clockEdge s events).state = .run) ∧
      ∀ i, (Sequential.run clockEdge s events).done i = false := by
  have hnever : ∀ (s : SpiMaster) (e : Inputs), e.length = length → s.lastBit e = false := by
    intro s e he
    have hcount := s.count.isLt
    have hbits := length.isLt
    have hless : (length - 1#8).toNat = 255 ∨ 8 ≤ (length - 1#8).toNat := by
      rw [BitVec.toNat_sub, BitVec.toNat_ofNat]
      rcases hlength with rfl | hlong
      · left
        rfl
      · omega
    rw [lastBit, he, beq_eq_false_iff_ne, Ne, ← BitVec.toNat_inj, BitVec.toNat_setWidth]
    omega
  have hend : (Sequential.run clockEdge s events).state = .start ∨
      (Sequential.run clockEdge s events).state = .run := by
    refine invariant_run (I := fun s : SpiMaster ↦ s.state = .start ∨ s.state = .run) ?_ hbusy
      (along_of_forall hkept)
    intro s e hbusy he
    rcases hbusy with hstate | hstate
    · cases hfall : s.clkFall e <;> simp [clockEdge, nextState, hstate, hfall]
    · simp [clockEdge, nextState, hstate, hnever s e he]
  refine ⟨hend, fun i ↦ ?_⟩
  rw [done, Bool.and_eq_false_iff, beq_eq_false_iff_ne]
  left
  rcases hend with hstate | hstate <;> simp [hstate]

theorem transfer_never_ends_lengthZero :
    let s := Sequential.run clockEdge { reset with state := .start }
      (List.replicate 9 { loopbackInput with length := 0#8 })
    (s.state = .start ∨ s.state = .run) ∧ ∀ i, s.done i = false :=
  transfer_never_ends (.inl rfl) (.inl rfl) fun _ he ↦ by rw [List.eq_of_mem_replicate he]

end Start

end SpiMaster

end CaravelSoc.Management
