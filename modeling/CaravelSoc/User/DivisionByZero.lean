import CaravelSoc.User.SeqGcd

/-!
# What a division by zero leaves is never seen

An idle unit keeps dividing, and from the reset on its divisor is zero. Whatever
comes out of these divisions goes into the operand registers. A load replaces
both operands before they are looked at, and a computation stops at the first
divisor that is zero, taking the dividend as its result. Runs that differ in
these values only are compared: they agree on everything but the operands of an
idle unit.
-/

open Sequential

namespace CaravelSoc.User

/-- The same pins, and possibly other values for the divisions by zero. -/
def Sample.SameInputs (e e' : Sample) : Prop := { e with byZero := e'.byZero } = e'

/-- The registers agree, the operands as long as they are in use. -/
structure SeqGcd.SameSeen (s s' : SeqGcd) : Prop where
  cs : s.cs = s'.cs
  gcdO : s.gcdO = s'.gcdO
  rdata : s.rdata = s'.rdata
  ready : s.ready = s'.ready
  operands : s.cs = true → s.aQ = s'.aQ ∧ s.bQ = s'.bQ

namespace Project

/-- What can be seen of the unit: its state, its result and the two ports that show it. -/
structure Seen where
  cs : Bool
  gcdO : BitVec 32
  laDataOut : BitVec 128
  ioOut : BitVec 38
  deriving DecidableEq, Repr

def seen (p : Project) : Seen where
  cs := p.seqGcd.cs
  gcdO := p.seqGcd.gcdO
  laDataOut := p.laDataOut
  ioOut := p.ioOut

/-- The quotient step of this clock is used: the unit is busy and stays so. -/
def Divides (p : Project) (e : Sample) : Prop :=
  p.clkRises e = true ∧ e.rst = false ∧ p.seqGcd.cs = true ∧ (p.step e).seqGcd.cs = true

/-- The pins of a run, with what each division by zero leaves given by its place in the run. -/
def interpret (byZero : ℕ → BitVec 32 → BitVec 32) (events : List Sample) : List Sample :=
  events.mapIdx fun i e ↦ { e with byZero := byZero i }

end Project

namespace SeqGcd

variable {s s' : SeqGcd} {laWriteA laWriteB aI bI : BitVec 32}

theorem SameSeen.refl (s : SeqGcd) : SameSeen s s := ⟨rfl, rfl, rfl, rfl, fun _ ↦ ⟨rfl, rfl⟩⟩

/-- An idle unit decides by the write enables alone; a load makes the operands the same. -/
theorem SameSeen.clockEdge_of_idle (h : SameSeen s s') (hidle : s.cs = false)
    (byZero byZero' : BitVec 32 → BitVec 32) :
    SameSeen (s.clockEdge byZero laWriteA laWriteB aI bI)
      (s'.clockEdge byZero' laWriteA laWriteB aI bI) := by
  have hidle' : s'.cs = false := h.cs.symm.trans hidle
  cases hload : laLoad laWriteA laWriteB with
  | true =>
    rw [clockEdge_of_load _ _ _ _ _ hidle hload, clockEdge_of_load _ _ _ _ _ hidle' hload]
    exact ⟨rfl, h.gcdO, h.rdata, h.ready, fun _ ↦ ⟨rfl, rfl⟩⟩
  | false =>
    have hstays : ∀ (byZero : BitVec 32 → BitVec 32) (t : SeqGcd), t.cs = false →
        (t.clockEdge byZero laWriteA laWriteB aI bI).cs = false ∧
          (t.clockEdge byZero laWriteA laWriteB aI bI).gcdO = t.gcdO := by
      intro byZero t ht
      simp [clockEdge, computeNS, ht, hload]
    obtain ⟨hcs, hgcdO⟩ := hstays byZero s hidle
    obtain ⟨hcs', hgcdO'⟩ := hstays byZero' s' hidle'
    refine ⟨hcs.trans hcs'.symm, ?_, h.rdata, h.ready, fun hbusy ↦ ?_⟩
    · rw [hgcdO, hgcdO', h.gcdO]
    · exact absurd (hcs.symm.trans hbusy) (by decide)

/-- A busy unit with a divisor divides by it; without one it is done, and its operands are out of
use from then on. -/
theorem SameSeen.clockEdge_of_busy (h : SameSeen s s') (hbusy : s.cs = true)
    (byZero byZero' : BitVec 32 → BitVec 32) :
    SameSeen (s.clockEdge byZero laWriteA laWriteB aI bI)
      (s'.clockEdge byZero' laWriteA laWriteB aI bI) := by
  obtain ⟨ha, hb⟩ := h.operands hbusy
  have hbusy' : s'.cs = true := h.cs.symm.trans hbusy
  by_cases hdivisor : s.bQ = 0#32
  · have hdone := clockEdge_of_done byZero laWriteA laWriteB aI bI hbusy hdivisor
    have hdone' := clockEdge_of_done byZero' laWriteA laWriteB aI bI hbusy'
      (hb.symm.trans hdivisor)
    refine ⟨hdone.1.trans hdone'.1.symm, ?_, h.rdata, h.ready, fun hstays ↦ ?_⟩
    · rw [hdone.2, hdone'.2, ha]
    · exact absurd (hdone.1.symm.trans hstays) (by decide)
  · rw [clockEdge_of_divisor _ _ _ _ _ hbusy hdivisor,
      clockEdge_of_divisor _ _ _ _ _ hbusy' (by rwa [← hb])]
    exact ⟨h.cs, h.gcdO, h.rdata, h.ready, fun _ ↦ ⟨hb, by simp only [ha, hb]⟩⟩

theorem SameSeen.clockEdge (h : SameSeen s s') (byZero byZero' : BitVec 32 → BitVec 32) :
    SameSeen (s.clockEdge byZero laWriteA laWriteB aI bI)
      (s'.clockEdge byZero' laWriteA laWriteB aI bI) := by
  cases hcs : s.cs with
  | false => exact h.clockEdge_of_idle hcs byZero byZero'
  | true => exact h.clockEdge_of_busy hcs byZero byZero'

end SeqGcd

namespace Project

variable {p p' : Project} {e e' : Sample}

theorem step_of_reset (hrst : e.rst = true) : (p.step e).seqGcd = SeqGcd.reset := by
  simp [step, hrst]

/-- One event, the same in both runs but for what a division by zero leaves. -/
theorem sameSeen_step (h : SeqGcd.SameSeen p.seqGcd p'.seqGcd) (hclk : p.clk = p'.clk)
    (byZero : BitVec 32 → BitVec 32) :
    SeqGcd.SameSeen (p.step e).seqGcd (p'.step { e with byZero := byZero }).seqGcd := by
  have hrises : p'.clkRises { e with byZero := byZero } = p.clkRises e := by
    unfold clkRises
    rw [hclk]
    rfl
  cases hrst : e.rst with
  | true =>
    rw [step_of_reset hrst, step_of_reset (e := { e with byZero := byZero }) hrst]
    exact SeqGcd.SameSeen.refl _
  | false =>
    cases hedge : p.clkRises e with
    | false =>
      rw [step_of_no_clock hrst hedge,
        step_of_no_clock (e := { e with byZero := byZero }) hrst (hrises.trans hedge)]
      exact h
    | true =>
      rw [step_of_clock hrst hedge,
        step_of_clock (e := { e with byZero := byZero }) hrst (hrises.trans hedge)]
      exact h.clockEdge e.byZero byZero

/-- The two runs in lockstep. -/
theorem trace_seen_of_sameInputs {events events' : List Sample}
    (h : SeqGcd.SameSeen p.seqGcd p'.seqGcd) (hclk : p.clk = p'.clk)
    (hevents : List.Forall₂ Sample.SameInputs events events') :
    trace step (fun before e ↦ [(before.step e).seen]) p events =
      trace step (fun before e ↦ [(before.step e).seen]) p' events' := by
  refine (lockstep_run (P := fun _ _ ↦ True)
    (R := fun q q' ↦ SeqGcd.SameSeen q.seqGcd q'.seqGcd ∧ q.clk = q'.clk)
    (fun q q' f f' hq hf _ ↦ ?_) ⟨h, hclk⟩ hevents (along_of_forall fun _ _ ↦ trivial)).2
  have hseen := sameSeen_step (e := f) hq.1 hq.2 f'.byZero
  rw [hf] at hseen
  have hclk' : f.clk = f'.clk := by
    rw [← hf]
    rfl
  refine ⟨⟨hseen, hclk'⟩, ?_⟩
  simp only [seen, laDataOut, ioOut, hseen.cs, hseen.gcdO]

/-- A divisor of zero ends the computation. -/
theorem Divides.divisor_ne_zero (h : p.Divides e) : p.seqGcd.bQ ≠ 0#32 := by
  obtain ⟨hclk, hrst, hbusy, hstays⟩ := h
  intro hzero
  have hdone := SeqGcd.clockEdge_of_done e.byZero e.laWriteA e.laWriteB e.aI e.bI hbusy hzero
  rw [← step_of_clock hrst hclk] at hdone
  exact absurd (hdone.1.symm.trans hstays) (by decide)

theorem sameInputs_interpret (byZero byZero' : ℕ → BitVec 32 → BitVec 32)
    (events : List Sample) :
    List.Forall₂ Sample.SameInputs (interpret byZero events) (interpret byZero' events) := by
  unfold interpret
  rw [List.forall₂_iff_get]
  refine ⟨by simp, fun i hi hi' ↦ ?_⟩
  simp [Sample.SameInputs]

/-- **Division by zero.** From the reset on, whatever the pins do and whatever each single division
by zero leaves, the same is seen; and no quotient that is used is one by zero. -/
theorem division_by_zero_unseen (clk : Bool) (events : List Sample)
    (byZero byZero' : ℕ → BitVec 32 → BitVec 32) :
    let p : Project := { clk := clk, seqGcd := SeqGcd.reset }
    trace step (fun before e ↦ [(before.step e).seen]) p (interpret byZero events) =
        trace step (fun before e ↦ [(before.step e).seen]) p (interpret byZero' events) ∧
      Along step (fun before e ↦ before.Divides e → before.seqGcd.bQ ≠ 0#32) p
        (interpret byZero events) := by
  intro p
  refine ⟨?_, ?_⟩
  · exact trace_seen_of_sameInputs (SeqGcd.SameSeen.refl _) rfl
      (sameInputs_interpret byZero byZero' events)
  · have hall : Along step (fun _ _ ↦ True) p (interpret byZero events) :=
      along_of_forall fun _ _ ↦ trivial
    exact hall.mono fun _ _ _ hdivides ↦ hdivides.divisor_ne_zero

end Project

end CaravelSoc.User
