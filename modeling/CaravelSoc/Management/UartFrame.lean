import CaravelSoc.Management.Uart
import CaravelSoc.Sequential.Run

/-!
# One byte on the serial line

A transmitter and a receiver with phase increments of their own, connected by a
line with a synchronizer in front of the receiver. While a byte is under way,
everything on both sides follows from the number of clocks since the transmitter
took it: both counts, the levels on the line, and what the receiver has shifted
in. The receiver samples every bit inside its cell as long as the two rates
differ by less than a twenty-second.
-/

open Sequential Sequential.PhaseAccumulator

namespace CaravelSoc.Management

/-- Both rates are at most one bit in 64 clocks, and close to each other. -/
structure Compatible (tTx tRx : BitVec 32) : Prop where
  pos : 0 < tTx.toNat
  slow_tx : 64 * tTx.toNat ≤ 2 ^ 32
  slow_rx : 64 * tRx.toNat ≤ 2 ^ 32
  tx_le : 22 * tTx.toNat ≤ 23 * tRx.toNat
  rx_le : 21 * tRx.toNat ≤ 22 * tTx.toNat

theorem uart_compatible : Compatible uartTuning uartTuning := by constructor <;> decide

/-- The levels of a frame: start bit, data bits from the lowest on, stop bit and idle line. -/
def frameBit (byte : BitVec 8) : ℕ → Bool
  | 0 => false
  | i + 1 => byte.getLsbD i || decide (8 ≤ i)

theorem frameBit_of_le {byte : BitVec 8} {c : ℕ} (h : 9 ≤ c) : frameBit byte c = true := by
  obtain ⟨i, rfl⟩ := Nat.exists_eq_add_of_le' h
  simp [frameBit]

theorem frameBit_succ {byte : BitVec 8} {i : ℕ} (h : i < 8) :
    frameBit byte (i + 1) = byte.getLsbD i := by
  simp [frameBit, Nat.not_le.2 h]

theorem getLsbD_shiftInto (bit : Bool) (data : BitVec 8) (i : ℕ) :
    (shiftInto bit data).getLsbD i = if i = 7 then bit else data.getLsbD (i + 1) := by
  simp only [shiftInto, BitVec.getLsbD_cons, BitVec.getLsbD_extractLsb']
  split
  · rfl
  · by_cases hi : i < 7
    · simp [hi, Nat.add_comm]
    · have hpast : data.getLsbD (i + 1) = false := BitVec.getLsbD_of_ge _ _ (by omega)
      simp [hi, hpast]

theorem beq_nine (count : BitVec 4) : (count == 9#4) = decide (count.toNat = 9) := by
  rw [Bool.eq_iff_iff, beq_iff_eq, decide_eq_true_iff, ← BitVec.toNat_inj]
  rfl

theorem toNat_count_succ {count : BitVec 4} (h : count.toNat < 10) :
    (count + 1#4).toNat = count.toNat + 1 := by
  rw [BitVec.toNat_add]
  exact Nat.mod_eq_of_lt (by rw [BitVec.toNat_ofNat]; omega)

/-- The level of the line `k` clocks after a byte was taken. -/
def lineAt (tuning : BitVec 32) (byte : BitVec 8) (k : ℕ) : Bool :=
  frameBit byte (ticks 0 tuning.toNat k)

/-- The level of the line `delay` clocks earlier; before the byte was taken it was idle. -/
def lineBefore (tuning : BitVec 32) (byte : BitVec 8) (delay k : ℕ) : Bool :=
  if k < delay then true else lineAt tuning byte (k - delay)

theorem lineBefore_succ (tuning : BitVec 32) (byte : BitVec 8) (delay k : ℕ) :
    lineBefore tuning byte (delay + 1) (k + 1) = lineBefore tuning byte delay k := by
  simp [lineBefore]

theorem lineBefore_zero (tuning : BitVec 32) (byte : BitVec 8) (k : ℕ) :
    lineBefore tuning byte 0 k = lineAt tuning byte k := rfl

/-! ## The transmitter -/

/-- The transmitter `k` clocks after it took `byte`. -/
structure Sending (tuning : BitVec 32) (byte : BitVec 8) (k : ℕ) (s : UartTx) : Prop where
  lt : ticks 0 tuning.toNat k < 10
  busy : s.busy = true
  count : s.count.toNat = ticks 0 tuning.toNat k
  data : ∀ i < 8, s.data.getLsbD i = frameBit byte (ticks 0 tuning.toNat k + 1 + i)
  line : s.line = lineAt tuning byte k
  accumulator : Holds 0 tuning (k + 1) s.tick s.phase

section Transmitter

variable {tuning : BitVec 32} {byte : BitVec 8} {k : ℕ} {s : UartTx}

theorem Sending.cases (h : Sending tuning byte k s) :
    s.tick = false ∧ ticks 0 tuning.toNat (k + 1) = ticks 0 tuning.toNat k ∨
      s.tick = true ∧ ticks 0 tuning.toNat (k + 1) = ticks 0 tuning.toNat k + 1 := by
  have hcases := h.accumulator.cases
  rwa [ticksBefore_succ] at hcases

/-- The byte is dropped at the clock that ends the tenth bit. -/
theorem Sending.sinkReady (h : Sending tuning byte k s) :
    s.sinkReady = decide (ticks 0 tuning.toNat (k + 1) = 10) := by
  have hlt := h.lt
  rw [UartTx.sinkReady, h.busy, beq_nine, h.count, Bool.true_and]
  rcases h.cases with ⟨htick, hsame⟩ | ⟨htick, hnext⟩
  · rw [htick, Bool.false_and, decide_eq_false (by omega)]
  · rw [htick, Bool.true_and, decide_eq_decide]
    omega

theorem Sending.step (h : Sending tuning byte k s) (sink : Option (BitVec 8))
    (hlt : ticks 0 tuning.toNat (k + 1) < 10) :
    Sending tuning byte (k + 1) (s.clockEdge tuning sink) := by
  have hready : s.sinkReady = false := by rw [h.sinkReady, decide_eq_false (by omega)]
  have hcount := h.count
  have hline := h.line
  rw [lineAt] at hline
  rw [UartTx.clockEdge, h.busy]
  refine ⟨hlt, by rw [hready]; rfl, ?_, ?_, ?_, h.accumulator.add⟩
  · rcases h.cases with ⟨htick, hsame⟩ | ⟨htick, hnext⟩
    · rw [hsame, ← hcount]
      simp only [htick, Bool.false_eq_true, if_false]
    · rw [hnext, ← hcount, ← toNat_count_succ (by omega)]
      simp only [htick, if_true]
  · intro i hi
    rcases h.cases with ⟨htick, hsame⟩ | ⟨htick, hnext⟩
    · rw [hsame, ← h.data i hi]
      simp only [htick, Bool.false_eq_true, if_false]
    · simp only [htick, if_true, getLsbD_shiftInto]
      split
      · exact (frameBit_of_le (by omega)).symm
      · rw [h.data (i + 1) (by omega), hnext]
        congr 1
        omega
  · rw [lineAt]
    rcases h.cases with ⟨htick, hsame⟩ | ⟨htick, hnext⟩
    · rw [hsame, ← hline]
      simp only [htick, Bool.false_eq_true, if_false]
    · rw [hnext]
      simp only [htick, if_true]
      exact h.data 0 (by decide)

/-- After the tenth bit the transmitter is idle, and so is the line. -/
theorem Sending.step_last (h : Sending tuning byte k s) (sink : Option (BitVec 8))
    (hdone : ticks 0 tuning.toNat (k + 1) = 10) :
    (s.clockEdge tuning sink).busy = false ∧ (s.clockEdge tuning sink).line = true := by
  have hready : s.sinkReady = true := by rw [h.sinkReady, hdone]; rfl
  have hlt := h.lt
  have hcases := h.cases
  have htick : s.tick = true := by
    rcases hcases with ⟨-, hsame⟩ | ⟨htick, -⟩
    · omega
    · exact htick
  have hdata := h.data 0 (by omega)
  rw [frameBit_of_le (by omega)] at hdata
  rw [UartTx.clockEdge, h.busy]
  refine ⟨by rw [hready]; rfl, ?_⟩
  dsimp only
  rw [htick, if_pos rfl, hdata]

/-- A byte taken. -/
theorem sending_zero (hidle : s.busy = false) :
    Sending tuning byte 0 (s.clockEdge tuning (some byte)) := by
  have hzero := ticks_zero (show 0 < 2 ^ 32 by decide) tuning.toNat
  rw [UartTx.clockEdge, hidle]
  refine ⟨by rw [hzero]; decide, rfl, hzero.symm, ?_, ?_, ?_⟩
  · intro i hi
    rw [hzero, Nat.zero_add, Nat.add_comm, frameBit_succ hi]
    rfl
  · rw [lineAt, hzero]
    rfl
  · have hstart : Holds 0 tuning 0 false 0#32 := holds_zero (by decide) rfl
    have hone := hstart.add
    have hadd : add 0#32 tuning = (false, tuning) := by
      have hsum := toNat_add 0#32 tuning
      have hlt := tuning.isLt
      rw [BitVec.toNat_zero, Nat.zero_add] at hsum
      refine Prod.ext ?_ (BitVec.eq_of_toNat_eq ?_)
      · change ((0#32).setWidth 33 + tuning.setWidth 33 : BitVec 33).msb = false
        rw [BitVec.msb_eq_decide, hsum, decide_eq_false (by omega)]
      · change (BitVec.setWidth 32 _).toNat = _
        rw [BitVec.toNat_setWidth, hsum, Nat.mod_eq_of_lt hlt]
    rw [hadd] at hone
    exact hone

end Transmitter

/-! ## The receiver -/

/-- The receiver `n` clocks after it has seen the start bit. -/
structure Receiving (tuning : BitVec 32) (byte : BitVec 8) (n : ℕ) (s : UartRx) : Prop where
  lt : ticksBefore (2 ^ 31) tuning.toNat n < 10
  busy : s.busy = true
  count : s.count.toNat = ticksBefore (2 ^ 31) tuning.toNat n
  data : ∀ i < 8, 8 ≤ i + ticksBefore (2 ^ 31) tuning.toNat n →
    s.data.getLsbD i = frameBit byte (i + ticksBefore (2 ^ 31) tuning.toNat n - 8)
  accumulator : Holds (2 ^ 31) tuning n s.tick s.phase

section Receiver

variable {tuning : BitVec 32} {byte : BitVec 8} {n : ℕ} {s : UartRx} {rx : Bool}

theorem Receiving.last (h : Receiving tuning byte n s) :
    s.last = decide (ticks (2 ^ 31) tuning.toNat n = 10) := by
  have hlt := h.lt
  rw [UartRx.last, h.busy, beq_nine, h.count, Bool.true_and]
  rcases h.accumulator.cases with ⟨htick, hsame⟩ | ⟨htick, hnext⟩
  · rw [htick, Bool.false_and, decide_eq_false (by omega)]
  · rw [htick, Bool.true_and, decide_eq_decide]
    omega

/-- A clock of the frame, when the line has the level of the bit that is sampled. -/
theorem Receiving.step (h : Receiving tuning byte n s)
    (hrx : ticks (2 ^ 31) tuning.toNat n = ticksBefore (2 ^ 31) tuning.toNat n + 1 →
      rx = frameBit byte (ticksBefore (2 ^ 31) tuning.toNat n))
    (hlt : ticks (2 ^ 31) tuning.toNat n < 10) :
    Receiving tuning byte (n + 1) (s.clockEdge tuning rx) := by
  have hlast : s.last = false := by rw [h.last, decide_eq_false (by omega)]
  have hcount := h.count
  rw [UartRx.clockEdge, h.busy]
  refine ⟨by rw [ticksBefore_succ]; exact hlt, by rw [hlast]; rfl, ?_, ?_, h.accumulator.add⟩
  · rw [ticksBefore_succ]
    rcases h.accumulator.cases with ⟨htick, hsame⟩ | ⟨htick, hnext⟩
    · rw [hsame, ← hcount]
      simp only [htick, Bool.false_eq_true, if_false]
    · rw [hnext, ← hcount, ← toNat_count_succ (by omega)]
      simp only [htick, if_true]
  · intro i hi hin
    rw [ticksBefore_succ] at hin ⊢
    rcases h.accumulator.cases with ⟨htick, hsame⟩ | ⟨htick, hnext⟩
    · rw [hsame] at hin ⊢
      rw [← h.data i hi hin]
      simp only [htick, Bool.false_eq_true, if_false]
    · simp only [htick, if_true, getLsbD_shiftInto]
      split
      · next hseven =>
        rw [hrx hnext, hseven, hnext]
        congr 1
        omega
      · rw [h.data (i + 1) (by omega) (by omega), hnext]
        congr 1
        omega

/-- The last sample of the frame: the byte is passed on. -/
theorem Receiving.step_last (h : Receiving tuning byte n s) (rx : Bool)
    (hdone : ticks (2 ^ 31) tuning.toNat n = 10) :
    s.last = true ∧ s.data = byte ∧ (s.clockEdge tuning rx).busy = false := by
  have hlast : s.last = true := by rw [h.last, hdone]; rfl
  have hcases := ticks_cases (2 ^ 31) n tuning
  have hlt := h.lt
  have hnine : ticksBefore (2 ^ 31) tuning.toNat n = 9 := by omega
  refine ⟨hlast, ?_, ?_⟩
  · apply BitVec.eq_of_getLsbD_eq
    intro i hi
    have hdata := h.data i hi (by omega)
    rwa [hnine, Nat.add_sub_assoc (by decide), frameBit_succ hi] at hdata
  · rw [UartRx.clockEdge, h.busy, hlast]
    rfl

/-- The receiver starts with the falling edge. -/
theorem receiving_zero (hidle : s.busy = false) (hedge : s.rxD = true) :
    Receiving tuning byte 0 (s.clockEdge tuning false) := by
  have hzero := ticksBefore_zero (show 2 ^ 31 < 2 ^ 32 by decide) tuning.toNat
  rw [UartRx.clockEdge, hidle]
  refine ⟨by rw [hzero]; decide, ?_, hzero.symm, ?_, holds_zero (by decide) rfl⟩
  · dsimp only
    rw [hedge]
    rfl
  · intro i hi hin
    omega

theorem idle_step (hidle : s.busy = false) (hline : s.rxD = true → rx = true) :
    (s.clockEdge tuning rx).busy = false := by
  rw [UartRx.clockEdge, hidle]
  cases hrx : s.rxD with
  | false => simp
  | true => simp [hline hrx]

end Receiver

/-! ## The line -/

section Timing

variable {tTx tRx : BitVec 32} {n : ℕ}

/-- The receiver, which lags three clocks behind, samples bit `c` while the transmitter sends it. -/
theorem Compatible.sample_in_cell (h : Compatible tTx tRx)
    (htick : ticks (2 ^ 31) tRx.toNat n = ticksBefore (2 ^ 31) tRx.toNat n + 1)
    (hlt : ticksBefore (2 ^ 31) tRx.toNat n < 10) :
    ticks 0 tTx.toNat (n + 1) = ticksBefore (2 ^ 31) tRx.toNat n := by
  obtain ⟨-, hslowTx, hslowRx, htx, hrx⟩ := h
  have hnTx := Nat.mul_le_mul_left n htx
  have hnRx := Nat.mul_le_mul_left n hrx
  rw [Nat.mul_left_comm, Nat.mul_left_comm n] at hnTx hnRx
  simp only [ticks, ticksBefore, sum, Nat.add_mul, Nat.one_mul] at htick hlt ⊢
  omega

/-- Once the receiver has its ten samples, the stop bit is on the line. -/
theorem Compatible.stop_bit (h : Compatible tTx tRx)
    (hdone : 10 ≤ ticksBefore (2 ^ 31) tRx.toNat n) : 9 ≤ ticks 0 tTx.toNat (n + 1) := by
  obtain ⟨-, hslowTx, hslowRx, htx, hrx⟩ := h
  have hnRx := Nat.mul_le_mul_left n hrx
  rw [Nat.mul_left_comm, Nat.mul_left_comm n] at hnRx
  simp only [ticks, ticksBefore, sum, Nat.add_mul, Nat.one_mul] at hdone ⊢
  omega

/-- The receiver has its ten samples before the transmitter is done. -/
theorem Compatible.received_first (h : Compatible tTx tRx)
    (hdone : 10 ≤ ticks 0 tTx.toNat (n + 4)) : 10 ≤ ticks (2 ^ 31) tRx.toNat n := by
  obtain ⟨-, hslowTx, hslowRx, htx, hrx⟩ := h
  have hnTx := Nat.mul_le_mul_left n htx
  rw [Nat.mul_left_comm, Nat.mul_left_comm n] at hnTx
  simp only [ticks, sum, Nat.add_mul] at hdone ⊢
  omega

/-- The stop bit lasts longer than the delay of the line. -/
theorem Compatible.stop_bit_settled (h : Compatible tTx tRx) {k d : ℕ} (hd : d ≤ 3)
    (hdone : 10 ≤ ticks 0 tTx.toNat (k + d)) : 9 ≤ ticks 0 tTx.toNat k := by
  have hslowTx := h.slow_tx
  have hspread : d * tTx.toNat ≤ 3 * tTx.toNat := Nat.mul_le_mul_right _ hd
  simp only [ticks, sum, Nat.add_mul] at hdone ⊢
  omega

end Timing

end CaravelSoc.Management
