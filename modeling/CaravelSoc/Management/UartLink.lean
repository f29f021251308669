import CaravelSoc.Management.UartFrame

/-!
# The serial line

A transmitter connected to a receiver. The line is either quiet, or one byte is
under way on it; over any run the bytes received, followed by the one still under
way, are the bytes the transmitter took.
-/

open Sequential Sequential.PhaseAccumulator

namespace CaravelSoc.Management

/-- The transmitter of one UART, the synchronizer and the receiver of another. -/
structure UartLink where
  tx : UartTx
  regs0 : Bool
  regs1 : Bool
  rx : UartRx
  deriving DecidableEq, Repr

namespace UartLink

/-- One clock; `sink` is the byte offered to the transmitter. -/
def clockEdge (tTx tRx : BitVec 32) (s : UartLink) (sink : Option (BitVec 8)) : UartLink where
  tx := s.tx.clockEdge tTx sink
  regs0 := s.tx.line
  regs1 := s.regs0
  rx := s.rx.clockEdge tRx s.regs1

/-- The byte the transmitter takes at a clock. -/
def taken (s : UartLink) (sink : Option (BitVec 8)) : List (BitVec 8) :=
  if s.tx.busy then [] else sink.toList

/-- The byte the receiver passes on at a clock. -/
def received (s : UartLink) : List (BitVec 8) :=
  if s.rx.sourceValid s.regs1 then [s.rx.data] else []

/-- Nothing is under way, and no edge is left between the transmitter and the receiver. -/
structure Quiet (s : UartLink) : Prop where
  tx_busy : s.tx.busy = false
  line : s.tx.line = true
  regs1 : s.regs1 = true → s.regs0 = true
  rxD : s.rx.rxD = true → s.regs1 = true
  rx_busy : s.rx.busy = false

/-- `byte` was taken `k` clocks ago, and the transmitter still sends it. The receiver sees the line
three clocks later. -/
structure InFlight (tTx tRx : BitVec 32) (byte : BitVec 8) (k : ℕ) (s : UartLink) : Prop where
  sending : Sending tTx byte k s.tx
  regs0 : s.regs0 = lineBefore tTx byte 1 k
  regs1 : 1 ≤ k → s.regs1 = lineBefore tTx byte 2 k
  rxD : 2 ≤ k → s.rx.rxD = lineBefore tTx byte 3 k
  settled : k = 0 → s.rx.rxD = true → s.regs1 = true
  waiting : k < 3 → s.rx.busy = false
  receiving : ∀ n, k = n + 3 → ticksBefore (2 ^ 31) tRx.toNat n < 10 → Receiving tRx byte n s.rx
  done : ∀ n, k = n + 3 → 10 ≤ ticksBefore (2 ^ 31) tRx.toNat n → s.rx.busy = false

/-- What is still to be received of the byte taken `k` clocks ago. -/
def underWay (tRx : BitVec 32) (byte : BitVec 8) (k : ℕ) : List (BitVec 8) :=
  if ticksBefore (2 ^ 31) tRx.toNat (k - 3) < 10 then [byte] else []

/-- `pending` is what has been taken and not yet received. -/
inductive Carries (tTx tRx : BitVec 32) (s : UartLink) : List (BitVec 8) → Prop
  | quiet (h : Quiet s) : Carries tTx tRx s []
  | inFlight (byte : BitVec 8) (k : ℕ) (h : InFlight tTx tRx byte k s) :
      Carries tTx tRx s (underWay tRx byte k)

variable {tTx tRx : BitVec 32} {byte : BitVec 8} {k : ℕ} {s : UartLink}

theorem underWay_of_lt (hk : k ≤ 3) : underWay tRx byte k = [byte] := by
  rw [underWay, Nat.sub_eq_zero_of_le hk, ticksBefore_zero (by decide)]
  rfl

/-! ## One clock -/

theorem received_of_idle (h : s.rx.busy = false) : s.received = [] := by
  simp [received, UartRx.sourceValid, UartRx.last, h]

theorem Quiet.step_none (h : Quiet s) : Quiet (s.clockEdge tTx tRx none) := by
  have hidle := h.tx_busy
  constructor
  · simp [clockEdge, UartTx.clockEdge, hidle]
  · simp [clockEdge, UartTx.clockEdge, hidle]
  · intro _
    exact h.line
  · intro hrx
    have hregs1 : s.regs1 = true := by
      simpa [clockEdge, UartRx.clockEdge, h.rx_busy] using hrx
    exact h.regs1 hregs1
  · exact idle_step h.rx_busy h.rxD

theorem Quiet.step_some (h : Quiet s) (byte : BitVec 8) :
    InFlight tTx tRx byte 0 (s.clockEdge tTx tRx (some byte)) := by
  constructor
  · exact sending_zero h.tx_busy
  · exact h.line
  · intro hk
    omega
  · intro hk
    omega
  · intro _ hrx
    have hregs1 : s.regs1 = true := by
      simpa [clockEdge, UartRx.clockEdge, h.rx_busy] using hrx
    exact h.regs1 hregs1
  · intro _
    exact idle_step h.rx_busy h.rxD
  · intro n hn
    omega
  · intro n hn
    omega

theorem rxD_clockEdge (sink : Option (BitVec 8)) :
    (s.clockEdge tTx tRx sink).rx.rxD = s.regs1 := by
  cases hbusy : s.rx.busy <;> simp [clockEdge, UartRx.clockEdge, hbusy]

/-- The receiver until the start bit has come through. -/
theorem InFlight.waiting_step (h : InFlight tTx tRx byte k s) (hk : k < 2)
    (sink : Option (BitVec 8)) : (s.clockEdge tTx tRx sink).rx.busy = false := by
  refine idle_step (h.waiting (by omega)) fun hrx ↦ ?_
  rcases Nat.eq_zero_or_pos k with hzero | hpos
  · exact h.settled hzero hrx
  · rw [h.regs1 hpos, lineBefore, if_pos hk]

/-- The start bit comes through. -/
theorem InFlight.start_step (h : InFlight tTx tRx byte 2 s) (sink : Option (BitVec 8)) :
    Receiving tRx byte 0 (s.clockEdge tTx tRx sink).rx := by
  have hregs1 : s.regs1 = false := by
    rw [h.regs1 (by decide), lineBefore, if_neg (by decide), lineAt, ticks_zero (by decide)]
    rfl
  have hrxD : s.rx.rxD = true := by rw [h.rxD le_rfl, lineBefore, if_pos (by decide)]
  change Receiving tRx byte 0 (s.rx.clockEdge tRx s.regs1)
  rw [hregs1]
  exact receiving_zero (h.waiting (by decide)) hrxD

/-- The line at the receiver. -/
theorem InFlight.regs1_eq {n : ℕ} (h : InFlight tTx tRx byte (n + 3) s) :
    s.regs1 = frameBit byte (ticks 0 tTx.toNat (n + 1)) := by
  rw [h.regs1 (by omega), lineBefore, if_neg (by omega)]
  rfl

/-- The receiver once the start bit has come through. -/
theorem InFlight.receiving_step {n : ℕ} (hc : Compatible tTx tRx)
    (h : InFlight tTx tRx byte (n + 3) s) (sink : Option (BitVec 8)) :
    (ticksBefore (2 ^ 31) tRx.toNat (n + 1) < 10 →
        Receiving tRx byte (n + 1) (s.clockEdge tTx tRx sink).rx) ∧
      (10 ≤ ticksBefore (2 ^ 31) tRx.toNat (n + 1) →
        (s.clockEdge tTx tRx sink).rx.busy = false) ∧
      underWay tRx byte (n + 3) = s.received ++ underWay tRx byte (n + 4) := by
  have hcases := ticks_cases (2 ^ 31) n tRx
  have hregs1 := h.regs1_eq
  simp only [underWay, Nat.add_sub_cancel, show n + 4 - 3 = n + 1 by omega, ticksBefore_succ]
  by_cases hlt : ticksBefore (2 ^ 31) tRx.toNat n < 10
  · have hreceiving := h.receiving n rfl hlt
    have hsample : ticks (2 ^ 31) tRx.toNat n = ticksBefore (2 ^ 31) tRx.toNat n + 1 →
        s.regs1 = frameBit byte (ticksBefore (2 ^ 31) tRx.toNat n) := by
      intro htick
      rw [hregs1, hc.sample_in_cell htick hlt]
    by_cases hnext : ticks (2 ^ 31) tRx.toNat n < 10
    · have hlast : s.rx.last = false := by rw [hreceiving.last, decide_eq_false (by omega)]
      refine ⟨fun _ ↦ hreceiving.step hsample hnext, fun hdone ↦ absurd hdone (by omega), ?_⟩
      rw [if_pos hlt, if_pos hnext]
      simp [received, UartRx.sourceValid, hlast]
    · have hten : ticks (2 ^ 31) tRx.toNat n = 10 := by omega
      obtain ⟨hlast, hdata, hidle⟩ := hreceiving.step_last s.regs1 hten
      have hstop : s.regs1 = true := by
        rw [hsample (by omega)]
        exact frameBit_of_le (by omega)
      refine ⟨fun hmore ↦ absurd hmore hnext, fun _ ↦ hidle, ?_⟩
      rw [if_pos hlt, if_neg hnext]
      simp [received, UartRx.sourceValid, hlast, hstop, hdata]
  · have hidle := h.done n rfl (by omega)
    have hstop : s.regs1 = true := by
      rw [hregs1]
      exact frameBit_of_le (hc.stop_bit (by omega))
    refine ⟨fun hmore ↦ absurd hmore (by omega), fun _ ↦ idle_step hidle fun _ ↦ hstop, ?_⟩
    rw [received_of_idle hidle, if_neg hlt, if_neg (by omega), List.append_nil]

/-- What comes in over a clock while the byte is under way. -/
theorem InFlight.received_step (hc : Compatible tTx tRx) (h : InFlight tTx tRx byte k s) :
    underWay tRx byte k = s.received ++ underWay tRx byte (k + 1) := by
  rcases Nat.lt_or_ge k 3 with hk | hk
  · rw [received_of_idle (h.waiting hk), underWay_of_lt hk.le, underWay_of_lt hk, List.nil_append]
  · obtain ⟨n, rfl⟩ := Nat.exists_eq_add_of_le' hk
    exact (h.receiving_step hc none).2.2

/-- A clock at which the transmitter goes on. -/
theorem InFlight.step (hc : Compatible tTx tRx) (h : InFlight tTx tRx byte k s)
    (sink : Option (BitVec 8)) (hlt : ticks 0 tTx.toNat (k + 1) < 10) :
    InFlight tTx tRx byte (k + 1) (s.clockEdge tTx tRx sink) := by
  constructor
  · exact h.sending.step sink hlt
  · rw [lineBefore_succ, lineBefore_zero]
    exact h.sending.line
  · intro _
    rw [lineBefore_succ]
    exact h.regs0
  · intro hk
    rw [rxD_clockEdge, lineBefore_succ]
    exact h.regs1 (by omega)
  · intro hk
    omega
  · intro hk
    exact h.waiting_step (by omega) sink
  · intro n hn hmore
    rcases Nat.eq_zero_or_pos n with rfl | hpos
    · obtain rfl : k = 2 := by omega
      exact h.start_step sink
    · obtain ⟨m, rfl⟩ := Nat.exists_eq_add_of_le' hpos
      obtain rfl : k = m + 3 := by omega
      exact (h.receiving_step hc sink).1 hmore
  · intro n hn hdone
    rcases Nat.eq_zero_or_pos n with rfl | hpos
    · rw [ticksBefore_zero (by decide)] at hdone
      omega
    · obtain ⟨m, rfl⟩ := Nat.exists_eq_add_of_le' hpos
      obtain rfl : k = m + 3 := by omega
      exact (h.receiving_step hc sink).2.1 hdone

/-- The clock at which the transmitter is done: the receiver was done before. -/
theorem InFlight.step_last (hc : Compatible tTx tRx) (h : InFlight tTx tRx byte k s)
    (sink : Option (BitVec 8)) (hten : ticks 0 tTx.toNat (k + 1) = 10) :
    Quiet (s.clockEdge tTx tRx sink) ∧ underWay tRx byte (k + 1) = [] := by
  obtain ⟨hbusy, hline⟩ := h.sending.step_last sink hten
  have hthree : 3 ≤ k := by
    by_contra hk
    have hslow := hc.slow_tx
    have hsmall : (k + 1) * tTx.toNat ≤ 3 * tTx.toNat := Nat.mul_le_mul_right _ (by omega)
    simp only [ticks, sum] at hten
    omega
  obtain ⟨n, rfl⟩ := Nat.exists_eq_add_of_le' hthree
  have hreceived : 10 ≤ ticksBefore (2 ^ 31) tRx.toNat (n + 1) := by
    rw [ticksBefore_succ]
    exact hc.received_first hten.ge
  have hsettled : ∀ d ≤ 3, frameBit byte (ticks 0 tTx.toNat (n + 4 - d)) = true := by
    intro d hd
    apply frameBit_of_le
    apply hc.stop_bit_settled hd
    rw [Nat.sub_add_cancel (by omega)]
    exact hten.ge
  constructor
  · constructor
    · exact hbusy
    · exact hline
    · intro _
      exact h.sending.line.trans (hsettled 1 (by decide))
    · intro _
      exact h.regs0.trans (hsettled 2 (by decide))
    · exact (h.receiving_step hc sink).2.1 hreceived
  · rw [underWay]
    exact if_neg (by rw [show n + 3 + 1 - 3 = n + 1 by omega]; omega)

/-- **One clock of the line.** -/
theorem Carries.step (hc : Compatible tTx tRx) {pending : List (BitVec 8)}
    (h : Carries tTx tRx s pending) (sink : Option (BitVec 8)) :
    ∃ pending', Carries tTx tRx (s.clockEdge tTx tRx sink) pending' ∧
      pending ++ s.taken sink = s.received ++ pending' := by
  cases h with
  | quiet h =>
    have htaken : s.taken sink = sink.toList := by simp [taken, h.tx_busy]
    rw [htaken, received_of_idle h.rx_busy]
    cases sink with
    | none => exact ⟨[], .quiet h.step_none, rfl⟩
    | some byte =>
      refine ⟨_, .inFlight byte 0 (h.step_some byte), ?_⟩
      rw [underWay_of_lt (by decide)]
      rfl
  | inFlight byte k h =>
    have htaken : s.taken sink = [] := by simp [taken, h.sending.busy]
    have hreceived := h.received_step hc
    rw [htaken, List.append_nil]
    have hlt := h.sending.lt
    by_cases hnext : ticks 0 tTx.toNat (k + 1) < 10
    · exact ⟨_, .inFlight byte (k + 1) (h.step hc sink hnext), hreceived⟩
    · have hten : ticks 0 tTx.toNat (k + 1) = 10 := by
        rcases h.sending.cases with ⟨-, hsame⟩ | ⟨-, hup⟩ <;> omega
      obtain ⟨hquiet, hnone⟩ := h.step_last hc sink hten
      refine ⟨[], .quiet hquiet, ?_⟩
      rw [hreceived, hnone]

theorem Carries.length_le {pending : List (BitVec 8)} (h : Carries tTx tRx s pending) :
    pending.length ≤ 1 := by
  cases h with
  | quiet h => exact Nat.zero_le 1
  | inFlight byte k h =>
    rw [underWay]
    split <;> simp

/-- Nothing is under way when the transmitter is idle. -/
theorem Carries.eq_nil {pending : List (BitVec 8)} (h : Carries tTx tRx s pending)
    (hidle : s.tx.busy = false) : pending = [] := by
  cases h with
  | quiet h => rfl
  | inFlight byte k h =>
    rw [h.sending.busy] at hidle
    cases hidle

/-- Over a run. -/
theorem Carries.run (hc : Compatible tTx tRx) {pending : List (BitVec 8)}
    (h : Carries tTx tRx s pending) (sinks : List (Option (BitVec 8))) :
    ∃ pending', Carries tTx tRx (run (clockEdge tTx tRx) s sinks) pending' ∧
      pending ++ trace (clockEdge tTx tRx) taken s sinks =
        trace (clockEdge tTx tRx) (fun s _ ↦ s.received) s sinks ++ pending' := by
  induction sinks generalizing s pending with
  | nil => exact ⟨pending, h, by rw [trace, trace, List.append_nil]; rfl⟩
  | cons sink rest ih =>
    obtain ⟨pending1, hcarries, hfirst⟩ := h.step hc sink
    obtain ⟨pending', hend, hrest⟩ := ih hcarries
    refine ⟨pending', hend, ?_⟩
    rw [trace, trace, ← List.append_assoc, hfirst, List.append_assoc, hrest, List.append_assoc]

end UartLink

end CaravelSoc.Management
