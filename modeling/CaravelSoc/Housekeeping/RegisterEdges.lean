import CaravelSoc.Housekeeping.System

/-!
# Edges of the register clock

What one event does to each register group, and the edge of `csclk` it makes.
An edge records everything the register block samples, so that the register map
after a run is the fold of its edges, whichever port made them.
-/

open Sequential

namespace CaravelSoc

namespace Event

/-- Neither reset input changes. -/
def Running : Event → Prop
  | wbRstn _ | porb _ => False
  | wbClk | gpioIn _ _ | wishbone _ | status _ => True

/-- Neither reset input nor the Wishbone inputs change. -/
def Held : Event → Prop
  | wbRstn _ | porb _ | wishbone _ => False
  | wbClk | gpioIn _ _ | status _ => True

instance : DecidablePred Running
  | wbRstn _ | porb _ => isFalse id
  | wbClk | gpioIn _ _ | wishbone _ | status _ => isTrue trivial

instance : DecidablePred Held
  | wbRstn _ | porb _ | wishbone _ => isFalse id
  | wbClk | gpioIn _ _ | status _ => isTrue trivial

theorem Held.running {e : Event} (h : e.Held) : e.Running := by
  cases e <;> first | exact h | trivial

end Event

/-- One rising edge of `csclk`, with what the register block samples. -/
structure RegisterEdge where
  /-- `wbbd_busy`, the select of the port multiplexers. -/
  backDoor : Bool
  caddr : BitVec 8
  cdata : BitVec 8
  cwstb : Bool
  spiIsActive : Bool
  /-- `fdata(caddr)` immediately before the edge. -/
  before : BitVec 8
  deriving DecidableEq, Repr

/-- The register block at one edge. -/
def RegisterEdge.apply (r : RegisterMap.Registers) (x : RegisterEdge) : RegisterMap.Registers :=
  RegisterMap.posedgeCsclk r x.caddr x.cdata x.cwstb x.spiIsActive

namespace Housekeeping

/-- The edge of `csclk` that an event makes, if any. -/
def registerEdges (s : Housekeeping) (e : Event) : List RegisterEdge :=
  let d := s.drive e
  if csclkRises s d then
    [{ backDoor := d.wbbd.busy, caddr := d.caddr, cdata := d.cdata, cwstb := d.cwstb
       spiIsActive := d.spiIsActive, before := s.fdata d.caddr }]
  else []

/-- The edges made while the back door drives the register port. -/
def backDoorEdges (s : Housekeeping) (e : Event) : List RegisterEdge :=
  (s.registerEdges e).filter RegisterEdge.backDoor

/-- The edges made by the SPI clock. -/
def spiEdges (s : Housekeeping) (e : Event) : List RegisterEdge :=
  (s.registerEdges e).filter fun x ↦ !x.backDoor

theorem trace_backDoorEdges (s : Housekeeping) (es : List Event) :
    trace step backDoorEdges s es =
      (trace step registerEdges s es).filter RegisterEdge.backDoor :=
  trace_filter ..

theorem trace_spiEdges (s : Housekeeping) (es : List Event) :
    trace step spiEdges s es = (trace step registerEdges s es).filter fun x ↦ !x.backDoor :=
  trace_filter ..

/-! ## Register groups after one event -/

variable {s : Housekeeping} {e : Event}

@[simp]
theorem step_wbbd : (s.step e).wbbd = (s.drive e).wbbd := rfl

@[simp]
theorem step_loader : (s.step e).loader = (s.drive e).loader := rfl

@[simp]
theorem drive_regs : (s.drive e).regs = s.regs := by cases e <;> rfl

@[simp]
theorem drive_spi : (s.drive e).spi = s.spi := by cases e <;> rfl

theorem drive_wbbd_wbClk (hrstn : s.wbRstn = true) :
    (s.drive .wbClk).wbbd = BackDoor.next s.wbbd s.bus s.spiIsBusy s.odata := by
  simp [drive, hrstn]

theorem drive_wbbd_of_ne_wbClk (he : e ≠ .wbClk) (hrun : e.Running) :
    (s.drive e).wbbd = s.wbbd := by
  cases e <;> first | rfl | exact absurd rfl he | exact hrun.elim

theorem drive_wbRstn_of_running (hrun : e.Running) : (s.drive e).wbRstn = s.wbRstn := by
  cases e <;> first | rfl | exact hrun.elim

theorem drive_porb_of_running (hrun : e.Running) : (s.drive e).porb = s.porb := by
  cases e <;> first | rfl | exact hrun.elim

theorem drive_bus_of_held (hheld : e.Held) : (s.drive e).bus = s.bus := by
  cases e <;> first | rfl | exact hheld.elim

/-- An event makes at most one edge. -/
theorem registerEdges_cases (s : Housekeeping) (e : Event) :
    s.registerEdges e = [] ∨ ∃ x, s.registerEdges e = [x] := by
  rw [registerEdges]
  by_cases hrises : csclkRises s (s.drive e) = true
  · exact .inr ⟨_, if_pos hrises⟩
  · exact .inl (if_neg hrises)

/-- An edge of the back door is the only one of its event. -/
theorem registerEdges_of_backDoorEdges {x : RegisterEdge} (h : s.backDoorEdges e = [x]) :
    s.registerEdges e = [x] := by
  rw [backDoorEdges] at h
  rcases s.registerEdges_cases e with hnone | ⟨y, hone⟩
  · simp [hnone] at h
  · rw [hone] at h
    have hx : x = y := List.mem_singleton.1 (List.mem_of_mem_filter (h ▸ List.mem_singleton_self x))
    rw [hone, hx]

/-- With power good, the register map moves at register edges only. -/
theorem step_regs (hporb : (s.step e).porb = true) :
    (s.step e).regs = (s.registerEdges e).foldl RegisterEdge.apply s.regs := by
  change nextRegs s (s.drive e) = _
  have hporb' : (s.drive e).porb = true := hporb
  rw [nextRegs, registerEdges]
  split_ifs <;> simp_all [RegisterEdge.apply]

/-- The register map after a run is the fold of the run's register edges. -/
theorem run_regs {es : List Event} (hporb : Always step (fun t ↦ t.porb = true) s es) :
    (run step s es).regs =
      (trace step registerEdges s es).foldl RegisterEdge.apply s.regs :=
  run_eq_foldl_trace regs RegisterEdge.apply registerEdges (fun _ _ h ↦ step_regs h.2) hporb.along

/-- What an edge reads is read in the state before it. -/
theorem before_eq {x : RegisterEdge} (hx : x ∈ s.registerEdges e) :
    x.before = s.fdata x.caddr := by
  rw [registerEdges] at hx
  split at hx
  · obtain rfl := List.mem_singleton.1 hx
    rfl
  · simp at hx

/-- Edges without the strobe leave every register except the two self-resetting flags. -/
theorem foldl_apply_of_not_strobed {edges : List RegisterEdge} (r : RegisterMap.Registers)
    (hstrobe : ∀ x ∈ edges, x.cwstb = false) :
    edges.foldl RegisterEdge.apply r = r ∨
      edges.foldl RegisterEdge.apply r = { r with serialXfer := false, irqSpi := false } := by
  induction edges generalizing r with
  | nil => exact .inl rfl
  | cons x rest ih =>
    rw [List.forall_mem_cons] at hstrobe
    have hx : x.apply r = { r with serialXfer := false, irqSpi := false } := by
      simp [RegisterEdge.apply, RegisterMap.posedgeCsclk, hstrobe.1]
    rw [List.foldl_cons, hx]
    rcases ih { r with serialXfer := false, irqSpi := false } hstrobe.2 with h | h
    · exact .inr h
    · exact .inr h

/-! ## Runs without reset -/

/-- Neither reset is asserted. -/
def OutOfReset (s : Housekeeping) : Prop := s.wbRstn = true ∧ s.porb = true

instance : DecidablePred OutOfReset := fun _ ↦ instDecidableAnd

theorem OutOfReset.step (h : s.OutOfReset) (hrun : e.Running) : (s.step e).OutOfReset :=
  ⟨(drive_wbRstn_of_running hrun).trans h.1, (drive_porb_of_running hrun).trans h.2⟩

theorem OutOfReset.always {es : List Event} (h : s.OutOfReset) (hrun : ∀ e ∈ es, e.Running) :
    Always Housekeeping.step OutOfReset s es :=
  always_of_invariant (fun _ _ hinv he ↦ hinv.step he) h (along_of_forall hrun)

end Housekeeping

end CaravelSoc
