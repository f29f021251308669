import Mathlib.Data.BitVec

/-!
# Phase accumulators

A phase accumulator adds an increment to a phase at every clock; the carry is a
tick. Ticks come at the rate of the increment to the size of the phase, to the
clock: after `n` additions to a start value there have been as many ticks as the
size divides the sum.
-/

namespace Sequential.PhaseAccumulator

/-- `{tick, phase} <= phase + increment`, with 32 bits of phase. -/
def add (phase increment : BitVec 32) : Bool × BitVec 32 :=
  let sum : BitVec 33 := phase.setWidth 33 + increment.setWidth 33
  (sum.msb, sum.setWidth 32)

/-- The sum of `n` additions. -/
def sum (start increment n : ℕ) : ℕ := start + n * increment

/-- The ticks of the first `n` additions. -/
def ticks (start increment n : ℕ) : ℕ := sum start increment n / 2 ^ 32

/-- The ticks of the additions before the last of `n`. -/
def ticksBefore (start increment n : ℕ) : ℕ := (sum start increment n - increment) / 2 ^ 32

variable {start n : ℕ} {phase increment : BitVec 32}

theorem sum_succ (start increment n : ℕ) :
    sum start increment (n + 1) = sum start increment n + increment := by
  rw [sum, sum, Nat.succ_mul, Nat.add_assoc]

theorem ticksBefore_succ (start increment n : ℕ) :
    ticksBefore start increment (n + 1) = ticks start increment n := by
  rw [ticksBefore, sum_succ, Nat.add_sub_cancel]
  rfl

theorem ticksBefore_zero (h : start < 2 ^ 32) (increment : ℕ) :
    ticksBefore start increment 0 = 0 := by
  rw [ticksBefore, sum, Nat.zero_mul, Nat.add_zero, Nat.div_eq_of_lt (by omega)]

/-- One addition gives one tick at most. -/
theorem ticks_cases (start n : ℕ) (increment : BitVec 32) :
    ticks start increment.toNat n = ticksBefore start increment.toNat n ∨
      ticks start increment.toNat n = ticksBefore start increment.toNat n + 1 := by
  have hlt := increment.isLt
  unfold ticks ticksBefore
  omega

/-- The registers after `n` additions hold the remainder, and the last addition had a carry if it
gave a tick. -/
structure Holds (start : ℕ) (increment : BitVec 32) (n : ℕ) (tick : Bool) (phase : BitVec 32) :
    Prop where
  phase : phase.toNat = sum start increment.toNat n % 2 ^ 32
  tick : tick = decide (ticks start increment.toNat n = ticksBefore start increment.toNat n + 1)

theorem toNat_add (phase increment : BitVec 32) :
    (phase.setWidth 33 + increment.setWidth 33).toNat = phase.toNat + increment.toNat := by
  have hphase := phase.isLt
  have hincrement := increment.isLt
  rw [BitVec.toNat_add, BitVec.toNat_setWidth, BitVec.toNat_setWidth]
  omega

/-- Nothing is lost between the phase and the ticks. -/
theorem total_add (phase increment : BitVec 32) :
    (add phase increment).2.toNat + (if (add phase increment).1 then 2 ^ 32 else 0) =
      phase.toNat + increment.toNat := by
  have hsum := toNat_add phase increment
  have hphase := phase.isLt
  have hincrement := increment.isLt
  simp only [add, BitVec.toNat_setWidth, BitVec.msb_eq_decide, hsum, decide_eq_true_iff]
  split <;> omega

theorem Holds.add {tick : Bool} (h : Holds start increment n tick phase) :
    Holds start increment (n + 1) (add phase increment).1 (add phase increment).2 := by
  have hsum := toNat_add phase increment
  have hlt := phase.isLt
  have hphase := h.phase
  constructor
  · change (BitVec.setWidth 32 _).toNat = _
    rw [BitVec.toNat_setWidth, hsum, sum_succ, hphase, Nat.mod_add_mod]
  · change (phase.setWidth 33 + increment.setWidth 33 : BitVec 33).msb = _
    rw [BitVec.msb_eq_decide, hsum, ticksBefore_succ, ticks, ticks, sum_succ, hphase]
    congr 1
    have hincrement := increment.isLt
    rw [eq_iff_iff]
    omega

/-- The tick register says which of the two cases it is. -/
theorem Holds.cases {tick : Bool} (h : Holds start increment n tick phase) :
    tick = false ∧ ticks start increment.toNat n = ticksBefore start increment.toNat n ∨
      tick = true ∧ ticks start increment.toNat n = ticksBefore start increment.toNat n + 1 := by
  have htick := h.tick
  rcases ticks_cases start n increment with hsame | hnext
  · rw [decide_eq_false (by omega)] at htick
    exact .inl ⟨htick, hsame⟩
  · rw [decide_eq_true hnext] at htick
    exact .inr ⟨htick, hnext⟩

theorem ticks_zero (h : start < 2 ^ 32) (increment : ℕ) : ticks start increment 0 = 0 := by
  rw [ticks, sum, Nat.zero_mul, Nat.add_zero, Nat.div_eq_of_lt h]

theorem holds_zero (hstart : start < 2 ^ 32) (hphase : phase.toNat = start) :
    Holds start increment 0 false phase := by
  constructor
  · rw [hphase, sum, Nat.zero_mul, Nat.add_zero, Nat.mod_eq_of_lt hstart]
  · rw [ticksBefore_zero hstart, ticks, sum, Nat.zero_mul, Nat.add_zero, Nat.div_eq_of_lt hstart]
    rfl

end Sequential.PhaseAccumulator
