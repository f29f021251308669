import CaravelSoc.Housekeeping.Access
import CaravelSoc.Transfer.AutomaticLoad

/-!
# Automatic configuration transfer, end to end

While bit-bang stays disabled, the whole system projects onto the clocked machine
of the loader and the pads: only rising edges of `wb_clk_i` count, and each feeds
the machine the register block it samples. A requested transfer then sends every
configuration word to the pad of its own number, whatever the chains held.
-/

open Sequential

namespace CaravelSoc.Transfer

/-- Power is good and the bit-bang port is disabled. -/
def Automatic (s : Soc) : Prop := s.hk.porb = true ∧ s.hk.regs.serialBbEnable = false

instance : DecidablePred Automatic := fun _ ↦ instDecidableAnd

/-- What an event feeds to the loader: the registers, at a rising edge of `wb_clk_i`. -/
def clockSamples (s : Soc) (e : Event) : List RegisterMap.Registers :=
  if e = .wbClk then [s.hk.regs] else []

theorem length_trace_clockSamples (s : Soc) (es : List Event) :
    (trace Soc.step clockSamples s es).length = es.count .wbClk := by
  induction es generalizing s with
  | nil => rfl
  | cons e rest ih =>
    rw [trace, List.length_append, ih, List.count_cons, clockSamples]
    by_cases he : e = .wbClk
    · simp [he, Nat.add_comm]
    · simp [he]

theorem trace_clockSamples_wbClk (s : Soc) (es : List Event) :
    trace Soc.step clockSamples s (.wbClk :: es) =
      s.hk.regs :: trace Soc.step clockSamples (s.step .wbClk) es := rfl

theorem serialLines_eq_autoLines {s : Housekeeping} (hbb : s.regs.serialBbEnable = false) :
    s.serialLines = autoLines s.loader := by
  simp [Housekeeping.serialLines, autoLines, Housekeeping.serialClock, Housekeeping.serialLoad,
    Housekeeping.serialResetn, Housekeeping.serialData1, Housekeeping.serialData2,
    SerialLoader.serialClock, SerialLoader.serialLoad, SerialLoader.serialResetn,
    RegisterMap.serialData1, RegisterMap.serialData2, Housekeeping.nets, hbb]

/-- Between clock edges the loader holds still. -/
theorem loader_step_of_ne_wbClk {s : Housekeeping} {e : Event} (he : e ≠ .wbClk)
    (hporb : (s.step e).porb = true) : (s.step e).loader = s.loader := by
  cases e with
  | wbClk => exact absurd rfl he
  | porb level =>
    have hlevel : level = true := hporb
    subst hlevel
    rfl
  | gpioIn | wishbone | status | wbRstn => rfl

theorem loader_step_wbClk {s : Housekeeping} (hporb : s.porb = true) :
    (s.step .wbClk).loader = SerialLoader.next s.loader s.regs := by
  simp [Housekeeping.step, Housekeeping.settle, Housekeeping.drive, hporb]

/-- Every clock releases the reset of the pad ring. -/
theorem next_serialResetnPre (l : SerialLoader.Registers) (r : RegisterMap.Registers) :
    (SerialLoader.next l r).serialResetnPre = true := by
  unfold SerialLoader.next
  split
  · rfl
  · rfl
  · simp only [SerialLoader.xbyteStep]
    split_ifs <;> rfl
  · simp only [SerialLoader.loadStep]
    split_ifs <;> rfl

/-- The clocked machine that the system projects onto. -/
def Projects (s : Soc) (t : Machine) : Prop := s.hk.loader = t.loader ∧ s.pads = t.pads

/-- One event is one clock of the machine, or none. -/
theorem projects_step {s : Soc} {t : Machine} {e : Event} (h : Projects s t)
    (hauto : Automatic s) (hauto' : Automatic (s.step e))
    (hresetn : e ≠ .wbClk → s.hk.loader.serialResetnPre = true) :
    Projects (s.step e) (run Machine.step t (clockSamples s e)) ∧
      s.serialEdges e = trace Machine.step Machine.edges t (clockSamples s e) := by
  obtain ⟨hloader, hpads⟩ := h
  have hlines : s.hk.serialLines = autoLines t.loader := by
    rw [serialLines_eq_autoLines hauto.2, hloader]
  by_cases he : e = .wbClk
  · subst he
    have hnext : (s.hk.step .wbClk).loader = SerialLoader.next t.loader s.hk.regs := by
      rw [loader_step_wbClk hauto.1, hloader]
    have hlines' : (s.hk.step .wbClk).serialLines =
        autoLines (SerialLoader.next t.loader s.hk.regs) := by
      rw [serialLines_eq_autoLines (s := s.hk.step .wbClk) hauto'.2, hnext]
    refine ⟨⟨hnext, ?_⟩, ?_⟩
    · simp only [Soc.step, hlines, hlines', hpads, clockSamples, if_true, run, Machine.step]
    · simp only [Soc.serialEdges, hlines, hlines', clockSamples, if_true, trace, Machine.edges,
        List.append_nil]
  · have hkeep : (s.hk.step e).loader = t.loader := by
      rw [loader_step_of_ne_wbClk he hauto'.1, hloader]
    have hlines' : (s.hk.step e).serialLines = autoLines t.loader := by
      rw [serialLines_eq_autoLines (s := s.hk.step e) hauto'.2, hkeep]
    have hreleased : (autoLines t.loader).resetn = true := by
      rw [← hloader]
      exact hresetn he
    refine ⟨⟨?_, ?_⟩, ?_⟩
    · simpa only [clockSamples, he, if_false, run, Soc.step_hk] using hkeep
    · simp only [Soc.step, hlines, hlines', clockSamples, he, if_false, run]
      rw [Pads.follow_same hreleased, hpads]
    · simp only [Soc.serialEdges, hlines, hlines', clockSamples, he, if_false, trace,
        Pads.SerialLines.edges_same]

theorem resetn_step {s : Soc} {e : Event} (h : s.hk.loader.serialResetnPre = true)
    (hauto : Automatic s) (hauto' : Automatic (s.step e)) :
    (s.step e).hk.loader.serialResetnPre = true := by
  by_cases he : e = .wbClk
  · subst he
    change (s.hk.step .wbClk).loader.serialResetnPre = true
    rw [loader_step_wbClk hauto.1]
    exact next_serialResetnPre _ _
  · change (s.hk.step e).loader.serialResetnPre = true
    rw [loader_step_of_ne_wbClk he hauto'.1]
    exact h

/-- A run whose first event is a clock edge projects onto the machine, serial edges included. -/
theorem projects_run {s : Soc} {es : List Event} (h : Always Soc.step Automatic s (.wbClk :: es)) :
    Projects (run Soc.step s (.wbClk :: es)) (run Machine.step ⟨s.hk.loader, s.pads⟩
        (trace Soc.step clockSamples s (.wbClk :: es))) ∧
      trace Soc.step Soc.serialEdges s (.wbClk :: es) =
        trace Machine.step Machine.edges ⟨s.hk.loader, s.pads⟩
          (trace Soc.step clockSamples s (.wbClk :: es)) := by
  have hfirst : (s.step .wbClk).hk.loader.serialResetnPre = true := by
    change (s.hk.step .wbClk).loader.serialResetnPre = true
    rw [loader_step_wbClk h.1.1]
    exact next_serialResetnPre _ _
  have hrest := h.2.along.with_invariant
    (I := fun before ↦ before.hk.loader.serialResetnPre = true)
    (fun _ _ hinv hauto ↦ resetn_step hinv hauto.1 hauto.2) hfirst
  refine simulation_run (R := Projects)
    (P := fun before event ↦ (Automatic before ∧ Automatic (before.step event)) ∧
      (event ≠ .wbClk → before.hk.loader.serialResetnPre = true))
    (fun _ _ _ hrel hP ↦ projects_step hrel hP.1.1 hP.1.2 hP.2) ⟨rfl, rfl⟩ ⟨⟨?_, ?_⟩, ?_⟩
  · exact ⟨h.1, h.2.head⟩
  · exact fun hne ↦ absurd rfl hne
  · exact hrest.mono fun _ _ hP ↦ ⟨hP.2, fun _ ↦ hP.1⟩

/-- Bit-bang is disabled and `gpio_configure` holds `cfg`. -/
def Configured (cfg : Fin 38 → BitVec 13) (s : Soc) : Prop :=
  Automatic s ∧ s.hk.regs.gpioConfigure = cfg

/-- What holds of the registers all along a run holds of the samples. -/
theorem forall_mem_clockSamples {Q : RegisterMap.Registers → Prop} {s : Soc} {es : List Event}
    (h : Always Soc.step (fun t ↦ Q t.hk.regs) s es) :
    ∀ r ∈ trace Soc.step clockSamples s es, Q r := by
  rw [forall_mem_trace_iff]
  refine h.along.mono fun t e ht r hr ↦ ?_
  rw [clockSamples] at hr
  split at hr
  · obtain rfl := List.mem_singleton.1 hr
    exact ht.1
  · simp at hr

/-- **The automatic transfer.** From any idle loader and any chain contents, once a clock edge
samples `serial_xfer`, the 498 clocks up to the return to idle make 247 rising serial clocks and
then one rising load, at which every pad latches its own configuration word. -/
theorem transfer_end_to_end (cfg : Fin 38 → BitVec 13) (s : Soc) (es : List Event)
    (hidle : s.hk.loader.xferState = .idle) (hsettled : Pads.Settled s.pads)
    (hxfer : s.hk.regs.serialXfer = true)
    (hrun : Always Soc.step (Configured cfg) s (.wbClk :: es))
    (hclocks : (Event.wbClk :: es).count .wbClk = 498) :
    trace Soc.step Soc.serialEdges s (.wbClk :: es) =
        List.replicate (19 * 13) .clockRise ++ [.loadRise] ∧
      (run Soc.step s (.wbClk :: es)).hk.loader.xferState = .idle ∧
      (run Soc.step s (.wbClk :: es)).hk.loader.serialBusy = false ∧
      ∀ pad, ((run Soc.step s (.wbClk :: es)).pads pad).config =
        Pads.PadConfig.ofWord (cfg pad) := by
  have hauto : Always Soc.step Automatic s (.wbClk :: es) := hrun.mono fun _ h ↦ h.1
  obtain ⟨hproj, hedges⟩ := projects_run hauto
  have hquiet : ∀ r ∈ trace Soc.step clockSamples s (.wbClk :: es), Quiet cfg r :=
    forall_mem_clockSamples (hrun.mono fun _ h ↦ ⟨h.1.2, h.2⟩)
  have hlength := length_trace_clockSamples s (.wbClk :: es)
  simp only [trace, clockSamples, if_true, List.singleton_append, List.mem_cons,
    forall_eq_or_imp] at hquiet
  simp only [trace, clockSamples, if_true, List.singleton_append, List.length_cons,
    hclocks] at hlength
  obtain ⟨hloader, hmachine, hconfig⟩ := transfer_run (t := ⟨s.hk.loader, s.pads⟩)
    (r := s.hk.regs) hidle hsettled hxfer _ (Nat.succ.inj hlength) hquiet.2
  simp only [trace, clockSamples, if_true, List.singleton_append] at hproj hedges
  refine ⟨hedges.trans hmachine, ?_, ?_, fun pad ↦ ?_⟩
  · rw [hproj.1, hloader]
    rfl
  · rw [hproj.1, hloader]
    rfl
  · rw [hproj.2]
    exact hconfig pad

/-- Clocks alone leave the register map as it is while the back door is parked. -/
theorem always_configured_of_parked {s : Soc} (hparked : s.hk.Parked)
    (hbb : s.hk.regs.serialBbEnable = false) (n : ℕ) :
    Always Soc.step (Configured s.hk.regs.gpioConfigure) s (List.replicate n .wbClk) := by
  refine (always_of_invariant (I := fun t : Soc ↦ t.hk.Parked ∧ t.hk.regs = s.hk.regs)
    (P := fun _ e ↦ e = .wbClk) ?_ ⟨hparked, rfl⟩
    (along_of_forall fun e he ↦ List.eq_of_mem_replicate he)).mono ?_
  · rintro t e ⟨ht, hregs⟩ rfl
    obtain ⟨hnext, -, hkeep⟩ := ht.step_wbClk
    exact ⟨hnext, hkeep.trans hregs⟩
  · rintro t ⟨ht, hregs⟩
    exact ⟨⟨ht.outOfReset.2, by rw [hregs, hbb]⟩, by rw [hregs]⟩

/-- Out of reset with a transfer requested, and every chain full of ones. -/
def requestedExample : Soc where
  hk :=
    { Housekeeping.released 0x8#38 default with
      regs := { RegisterMap.resetRegisters with serialXfer := true } }
  pads := fun _ ↦
    { shiftRegister := 0x1fff#13, serialDataOut := true, config := Pads.PadConfig.ofWord 0#13 }

theorem transfer_end_to_end_requestedExample :
    ((run Soc.step requestedExample (.wbClk :: List.replicate 497 .wbClk)).pads 18).config =
      Pads.PadConfig.ofWord 0x0403#13 := by
  have hparked : requestedExample.hk.Parked :=
    ⟨by decide, by decide, by decide, by decide⟩
  have hsettled : Pads.Settled requestedExample.pads :=
    fun _ ↦ show true = (0x1fff#13).getLsbD 12 by decide
  have hrun := always_configured_of_parked hparked rfl (497 + 1)
  rw [List.replicate_succ] at hrun
  exact (transfer_end_to_end requestedExample.hk.regs.gpioConfigure requestedExample
    (List.replicate 497 .wbClk) rfl hsettled rfl hrun
    (by rw [List.count_cons_self, List.count_replicate_self])).2.2.2 18

end CaravelSoc.Transfer
