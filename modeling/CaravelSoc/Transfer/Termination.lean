import CaravelSoc.Transfer.OneTransfer

/-!
# How long a transfer takes

In `` `GPIO_XBYTE `` the loader counts a bit when the serial clock is low, and the
serial clock it looks at is the multiplexed one. While the bit-bang port holds
that clock high, no bit is counted. The clocks a transfer has left, taken without
the bit-bang port, are a rank: every clock lowers it, save those at which the
bit-bang clock is high. A transfer ends after at most 497 clocks of the other
kind, and not before if none come.
-/

open Sequential

namespace CaravelSoc

namespace SerialLoader

/-- The range of the counters in each state. -/
structure Counting (l : Registers) : Prop where
  idle : l.xferState = .idle → l.serialBusy = false
  start : l.xferState = .start → 19 ≤ l.padCount2.toNat ∧ l.padCount2.toNat ≤ 37
  xbyte : l.xferState = .xbyte →
    20 ≤ l.padCount2.toNat ∧ l.padCount2.toNat ≤ 38 ∧ l.xferCount.toNat ≤ 12
  load : l.xferState = .load → l.xferCount.toNat ≤ 2

theorem counting_reset : Counting reset := by
  constructor <;> simp [reset]

/-- The clocks up to the return to idle, if the bit-bang port keeps off. -/
def clocksLeft (l : Registers) : ℕ :=
  match l.xferState with
  | .idle => 0
  | .start => 26 * (38 - l.padCount2.toNat) + 3
  | .xbyte =>
    26 * (38 - l.padCount2.toNat) + 3 + (25 - 2 * l.xferCount.toNat) +
      if l.serialClockPre then 1 else 0
  | .load => 3 - l.xferCount.toNat

/-- The bit-bang port holds the serial clock high. -/
def heldHigh (r : RegisterMap.Registers) : Bool := r.serialBbEnable && r.serialBbClock

variable {l : Registers} {r : RegisterMap.Registers}

theorem Counting.clocksLeft_le (h : Counting l) : clocksLeft l ≤ 497 := by
  unfold clocksLeft
  cases hstate : l.xferState with
  | idle => exact Nat.zero_le _
  | start =>
    have hpad := h.start hstate
    simp only
    omega
  | xbyte =>
    have hpad := h.xbyte hstate
    simp only
    split <;> omega
  | load =>
    simp only
    omega

theorem clocksLeft_eq_zero_iff (h : Counting l) : clocksLeft l = 0 ↔ l.xferState = .idle := by
  unfold clocksLeft
  cases hstate : l.xferState with
  | idle => simp
  | start | xbyte => simp
  | load =>
    have hcount := h.load hstate
    simp only [reduceCtorEq, iff_false]
    omega

theorem toNat_succ {n : ℕ} (count : BitVec n) (h : count.toNat + 1 < 2 ^ n) :
    (count + BitVec.ofNat n 1).toNat = count.toNat + 1 := by
  rw [BitVec.toNat_add, BitVec.toNat_ofNat, Nat.add_mod_mod, Nat.mod_eq_of_lt h]

/-- A low clock counts a bit; the last bit of a word leads on to the next one or to the load. -/
theorem Counting.xbyteStep_of_low (h : Counting l) (hstate : l.xferState = .xbyte)
    (hclock : serialClock l r = false) :
    Counting (xbyteStep l r) ∧ clocksLeft (xbyteStep l r) + 1 ≤ clocksLeft l := by
  obtain ⟨hmin, hmax, hcount⟩ := h.xbyte hstate
  have hleft : 26 * (38 - l.padCount2.toNat) + 3 + (25 - 2 * l.xferCount.toNat) ≤ clocksLeft l := by
    simp only [clocksLeft, hstate]
    omega
  simp only [xbyteStep, hclock, if_true]
  by_cases hlast : l.xferCount = 12#4
  · by_cases hpads : l.padCount2 = 38#6
    · simp only [if_pos hlast, if_pos hpads]
      refine ⟨by constructor <;> simp, Nat.le_trans ?_ hleft⟩
      simp only [clocksLeft, BitVec.toNat_ofNat]
      omega
    · have hpads' : l.padCount2.toNat ≠ 38 := fun hall ↦ hpads (BitVec.eq_of_toNat_eq hall)
      simp only [if_pos hlast, if_neg hpads]
      refine ⟨⟨by simp, fun _ ↦ ⟨?_, ?_⟩, by simp, by simp⟩, Nat.le_trans ?_ hleft⟩
      · exact (show 19 ≤ l.padCount2.toNat by omega)
      · exact (show l.padCount2.toNat ≤ 37 by omega)
      · simp only [clocksLeft]
        omega
  · have hlast' : l.xferCount.toNat ≠ 12 := fun hall ↦ hlast (BitVec.eq_of_toNat_eq hall)
    have hnext := toNat_succ l.xferCount (by omega)
    simp only [if_neg hlast]
    refine ⟨⟨by simp [hstate], by simp [hstate], fun _ ↦ ⟨hmin, hmax, ?_⟩, by simp [hstate]⟩, ?_⟩
    · exact hnext.le.trans (by omega)
    · simp only [clocksLeft, hstate, hnext, Bool.not_false, if_true]
      omega

/-- A high clock shifts; it is the loader's own unless the bit-bang port holds it. -/
theorem Counting.xbyteStep_of_high (h : Counting l) (hstate : l.xferState = .xbyte)
    (hclock : serialClock l r = true) :
    Counting (xbyteStep l r) ∧
      clocksLeft (xbyteStep l r) + (if heldHigh r then 0 else 1) ≤ clocksLeft l := by
  have hrange := h.xbyte hstate
  have hown : heldHigh r = false → l.serialClockPre = true := by
    rw [serialClock] at hclock
    rw [heldHigh]
    cases hbb : r.serialBbEnable <;> simp_all
  simp only [xbyteStep, hclock, Bool.true_eq_false, if_false]
  refine ⟨⟨by simp [hstate], by simp [hstate], fun _ ↦ hrange, by simp [hstate]⟩, ?_⟩
  simp only [clocksLeft, hstate, Bool.not_true, Bool.false_eq_true, if_false]
  cases hheld : heldHigh r with
  | true => simp
  | false => simp [hown hheld]

theorem Counting.startStep (h : Counting l) (hstate : l.xferState = .start) :
    Counting (SerialLoader.startStep l r) ∧
      clocksLeft (SerialLoader.startStep l r) + 1 ≤ clocksLeft l := by
  obtain ⟨hmin, hmax⟩ := h.start hstate
  have hnext := toNat_succ l.padCount2 (by omega)
  unfold SerialLoader.startStep
  refine ⟨⟨by simp, by simp, fun _ ↦ ⟨?_, ?_, by simp⟩, by simp⟩, ?_⟩
  · exact (show 20 ≤ l.padCount2.toNat + 1 by omega).trans hnext.ge
  · exact hnext.le.trans (by omega)
  · simp only [clocksLeft, hstate, hnext, BitVec.toNat_ofNat, Bool.false_eq_true, if_false]
    omega

theorem Counting.loadStep (h : Counting l) (hstate : l.xferState = .load) :
    Counting (SerialLoader.loadStep l) ∧
      clocksLeft (SerialLoader.loadStep l) + 1 ≤ clocksLeft l := by
  have hcount := h.load hstate
  have hnext := toNat_succ l.xferCount (by omega)
  unfold SerialLoader.loadStep
  by_cases h₂ : l.xferCount = 2#4
  · simp only [h₂, BitVec.reduceEq, if_false, if_true]
    refine ⟨by constructor <;> simp, ?_⟩
    simp only [clocksLeft, hstate, h₂, BitVec.toNat_ofNat]
    omega
  · have hshort : l.xferCount.toNat ≠ 2 := fun hall ↦ h₂ (BitVec.eq_of_toNat_eq hall)
    have hload : (l.xferCount + 1#4).toNat ≤ 2 := hnext.le.trans (by omega)
    have hdown : 3 - (l.xferCount + 1#4).toNat + 1 ≤ 3 - l.xferCount.toNat := by omega
    simp only [if_neg h₂]
    split_ifs
    all_goals
      refine ⟨⟨by simp [hstate], by simp [hstate], by simp [hstate], fun _ ↦ hload⟩, ?_⟩
      simp only [clocksLeft, hstate]
      omega

/-- One clock of a transfer keeps the counters in range, and it counts unless the bit-bang port
holds the serial clock high. -/
theorem Counting.next (h : Counting l) :
    Counting (SerialLoader.next l r) ∧
      (clocksLeft l ≠ 0 →
        clocksLeft (SerialLoader.next l r) + (if heldHigh r then 0 else 1) ≤ clocksLeft l) := by
  have hone : (if heldHigh r then 0 else 1) ≤ 1 := by split <;> omega
  cases hstate : l.xferState with
  | idle =>
    refine ⟨?_, fun hleft ↦ absurd ((clocksLeft_eq_zero_iff h).2 hstate) hleft⟩
    simp only [SerialLoader.next, hstate, idleStep]
    cases r.serialXfer <;> constructor <;> simp
  | start =>
    obtain ⟨hcounting, hleft⟩ := h.startStep (r := r) hstate
    simp only [SerialLoader.next, hstate]
    exact ⟨hcounting, fun _ ↦ by omega⟩
  | xbyte =>
    simp only [SerialLoader.next, hstate]
    cases hclock : serialClock l r with
    | false =>
      obtain ⟨hcounting, hleft⟩ := h.xbyteStep_of_low hstate hclock
      exact ⟨hcounting, fun _ ↦ by omega⟩
    | true =>
      obtain ⟨hcounting, hleft⟩ := h.xbyteStep_of_high hstate hclock
      exact ⟨hcounting, fun _ ↦ hleft⟩
  | load =>
    obtain ⟨hcounting, hleft⟩ := h.loadStep hstate
    simp only [SerialLoader.next, hstate]
    exact ⟨hcounting, fun _ ↦ by omega⟩

theorem xferState_next_of_high (hstate : l.xferState = .xbyte)
    (hclock : serialClock l r = true) : (SerialLoader.next l r).xferState = .xbyte := by
  simp only [SerialLoader.next, hstate, xbyteStep, hclock, Bool.true_eq_false, if_false]

end SerialLoader

namespace Transfer

open SerialLoader

variable {s : Housekeeping} {e : Event}

theorem counting_step (h : Counting s.loader) (e : Event) : Counting (s.step e).loader := by
  rw [Housekeeping.step_loader]
  cases e with
  | wbClk =>
    simp only [Housekeeping.drive]
    split
    · exact h.next.1
    · exact counting_reset
  | porb level =>
    simp only [Housekeeping.drive]
    split
    · exact h
    · exact counting_reset
  | gpioIn | wishbone | status | wbRstn => exact h

/-- The clocks at which the bit-bang port does not hold the serial clock high. -/
def freeClocks (s : Housekeeping) (e : Event) : List Unit :=
  if e = .wbClk ∧ heldHigh s.regs = false then [()] else []

theorem clocksLeft_step (h : Counting s.loader) (e : Event) (hleft : clocksLeft s.loader ≠ 0) :
    clocksLeft (s.step e).loader + (freeClocks s e).length ≤ clocksLeft s.loader := by
  rw [Housekeeping.step_loader]
  cases e with
  | wbClk =>
    have hone : (freeClocks s .wbClk).length = if heldHigh s.regs then 0 else 1 := by
      cases hheld : heldHigh s.regs <;> simp [freeClocks, hheld]
    rw [hone]
    simp only [Housekeeping.drive]
    split
    · exact h.next.2 hleft
    · have hzero : clocksLeft SerialLoader.reset = 0 := rfl
      split <;> omega
  | porb level =>
    have hnone : (freeClocks s (.porb level)).length = 0 := rfl
    rw [hnone]
    simp only [Housekeeping.drive]
    split
    · exact le_rfl
    · exact Nat.zero_le _
  | gpioIn | wishbone | status | wbRstn => exact le_rfl

/-- **Termination.** From every reachable state and whatever happens, a run with 497 clocks at which
the bit-bang port does not hold the serial clock high has the loader in `` `GPIO_IDLE ``, not busy,
at some point. -/
theorem transfer_terminates (mgmtGpioIn : BitVec 38) (bus : BackDoor.Bus) (status : Status)
    (datO : BitVec 32) (before es : List Event) :
    let s := run Housekeeping.step (Housekeeping.powerOn mgmtGpioIn bus status datO) before
    497 ≤ (trace Housekeeping.step freeClocks s es).length →
      ∃ front back, es = front ++ back ∧
        (run Housekeeping.step s front).loader.xferState = .idle ∧
        (run Housekeeping.step s front).loader.serialBusy = false := by
  intro s hlong
  have hreach : ∀ (t : Housekeeping) (es : List Event), Counting t.loader →
      Counting (run Housekeeping.step t es).loader := fun t es ht ↦
    invariant_run (I := fun u : Housekeeping ↦ Counting u.loader) (P := fun _ _ ↦ True)
      (fun _ e hu _ ↦ counting_step hu e) ht (along_of_forall fun _ _ ↦ trivial)
  have hs : Counting s.loader := hreach _ before counting_reset
  obtain ⟨front, back, hsplit, hzero⟩ := reaches_of_rank
    (I := fun t : Housekeeping ↦ Counting t.loader) (fun _ e ht ↦ counting_step ht e)
    (fun _ e ht ↦ clocksLeft_step ht e) hs (hs.clocksLeft_le.trans hlong)
  have hfront := hreach s front hs
  have hidle := (clocksLeft_eq_zero_iff hfront).1 hzero
  exact ⟨front, back, hsplit, hidle, hfront.idle hidle⟩

/-- Over the SPI, a transfer is requested; two clocks follow. -/
def startedExample : List Event :=
  [.porb true, .wbRstn true, Housekeeping.csbFalls] ++ Housekeeping.sendByte 0x80#8 ++
    Housekeeping.sendByte 0x13#8 ++ Housekeeping.sendByte 0x01#8 ++
    [Housekeeping.csbRises, .wbClk, .wbClk]

theorem length_freeClocks_of_parked (hparked : s.Parked) (hfree : heldHigh s.regs = false) (n : ℕ) :
    (trace Housekeeping.step freeClocks s (List.replicate n .wbClk)).length = n := by
  induction n generalizing s with
  | zero => rfl
  | succ n ih =>
    obtain ⟨hnext, -, hregs⟩ := hparked.step_wbClk
    rw [List.replicate_succ, trace, List.length_append, ih hnext (by rw [hregs, hfree])]
    simp [freeClocks, hfree, Nat.add_comm]

set_option maxRecDepth 10000 in
theorem transfer_terminates_startedExample :
    let s := run Housekeeping.step (Housekeeping.powerOn 0x8#38 default default 0#32) startedExample
    ∃ front back, List.replicate 497 Event.wbClk = front ++ back ∧
      (run Housekeeping.step s front).loader.xferState = .idle ∧
      (run Housekeeping.step s front).loader.serialBusy = false := by
  intro s
  have hparked : s.Parked := ⟨by decide, by decide, by decide, by decide⟩
  have hfree : heldHigh s.regs = false := by decide
  exact transfer_terminates 0x8#38 default default 0#32 startedExample (List.replicate 497 .wbClk)
    (length_freeClocks_of_parked hparked hfree 497).ge

/-- The bit-bang port has taken over a transfer, with its clock high. -/
structure Stalled (s : Housekeeping) : Prop where
  parked : s.Parked
  xbyte : s.loader.xferState = .xbyte
  held : heldHigh s.regs = true

theorem Stalled.step (h : Stalled s) : Stalled (s.step .wbClk) := by
  obtain ⟨hparked, -, hregs⟩ := h.parked.step_wbClk
  have hclock : serialClock s.loader s.regs = true := by
    obtain ⟨hbb, hhigh⟩ := Bool.and_eq_true_iff.1 h.held
    rw [serialClock, if_pos hbb, hhigh]
  refine ⟨hparked, ?_, by rw [hregs]; exact h.held⟩
  rw [loader_step_wbClk h.parked.outOfReset.2]
  exact xferState_next_of_high h.xbyte hclock

/-- Over the SPI, register `0x13` is written with enable and clock set. -/
def stalledExample : List Event :=
  startedExample ++ Housekeeping.csbFalls :: Housekeeping.sendByte 0x80#8 ++
    Housekeeping.sendByte 0x13#8 ++ Housekeeping.sendByte 0x12#8 ++ [Housekeeping.csbRises]

set_option maxRecDepth 10000 in
theorem stalled_stalledExample :
    Stalled (run Housekeeping.step (Housekeeping.powerOn 0x8#38 default default 0#32)
      stalledExample) :=
  ⟨⟨by decide, by decide, by decide, by decide⟩, by decide, by decide⟩

/-- No number of clocks ends every transfer in progress. -/
theorem no_bound_on_transfers :
    ¬∃ n, ∀ (mgmtGpioIn : BitVec 38) (bus : BackDoor.Bus) (status : Status) (datO : BitVec 32)
      (before : List Event),
      let s := run Housekeeping.step (Housekeeping.powerOn mgmtGpioIn bus status datO) before
      s.loader.xferState ≠ .idle →
        ∃ k ≤ n, (run Housekeeping.step s (List.replicate k .wbClk)).loader.xferState = .idle := by
  rintro ⟨n, h⟩
  have hstalled := stalled_stalledExample
  obtain ⟨k, -, hidle⟩ := h 0x8#38 default default 0#32 stalledExample (by
    rw [hstalled.xbyte]
    decide)
  have hlast : Stalled (run Housekeeping.step (run Housekeeping.step
      (Housekeeping.powerOn 0x8#38 default default 0#32) stalledExample)
      (List.replicate k .wbClk)) :=
    invariant_run (I := Stalled) (P := fun _ e ↦ e = .wbClk)
      (fun _ _ ht he ↦ by rw [he]; exact ht.step) hstalled
      (along_of_forall fun _ he ↦ List.eq_of_mem_replicate he)
  rw [hlast.xbyte] at hidle
  exact absurd hidle (by decide)

end Transfer

end CaravelSoc
