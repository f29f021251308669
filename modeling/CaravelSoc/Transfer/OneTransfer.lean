import CaravelSoc.Housekeeping.AccessLaw
import CaravelSoc.Housekeeping.RegisterLaws
import CaravelSoc.Transfer.EndToEnd

/-!
# How often a request is served

`serial_xfer` is meant to reset itself, but only a later edge of the register
clock does so: one without the write strobe, or a write of zero to the bit. The
idle loader samples the flag at every clock, so a request that no such edge has
cleared when the transfer returns to idle is served again. The configuration may
change meanwhile: the serial clock and load depend on the control registers of
the loader only.
-/

open Sequential

namespace CaravelSoc

/-- The register edges of the housekeeping module. -/
def Soc.registerEdges (s : Soc) (e : Event) : List RegisterEdge := s.hk.registerEdges e

namespace Transfer

/-! ## Control registers of the loader -/

/-- The loaders agree except for the words they have staged. -/
def SameControl (l l' : SerialLoader.Registers) : Prop :=
  ∃ data1 data2, l' = { l with serialDataStaging1 := data1, serialDataStaging2 := data2 }

variable {l l' : SerialLoader.Registers} {r r' : RegisterMap.Registers}

theorem SameControl.next (h : SameControl l l') (hbb : r.serialBbEnable = false)
    (hbb' : r'.serialBbEnable = false) (hxfer : r.serialXfer = r'.serialXfer) :
    SameControl (SerialLoader.next l r) (SerialLoader.next l' r') := by
  obtain ⟨data1, data2, rfl⟩ := h
  cases hstate : l.xferState with
  | idle =>
    simp only [SerialLoader.next, SerialLoader.idleStep, hstate, hxfer]
    exact ⟨_, _, rfl⟩
  | start =>
    simp only [SerialLoader.next, SerialLoader.startStep, hstate]
    exact ⟨_, _, rfl⟩
  | xbyte =>
    simp only [SerialLoader.next, SerialLoader.xbyteStep, SerialLoader.serialClock, hstate, hbb,
      hbb', Bool.false_eq_true, if_false]
    split_ifs <;> exact ⟨_, _, rfl⟩
  | load =>
    simp only [SerialLoader.next, SerialLoader.loadStep, hstate]
    split_ifs <;> exact ⟨_, _, rfl⟩

theorem SameControl.edges {m m' : SerialLoader.Registers} (h : SameControl l l')
    (hm : SameControl m m') :
    (autoLines l).edges (autoLines m) = (autoLines l').edges (autoLines m') := by
  obtain ⟨_, _, rfl⟩ := h
  obtain ⟨_, _, rfl⟩ := hm
  rfl

/-- Machines with the same control make the same edges from samples with the same requests. -/
theorem edges_of_sameControl {t t' : Machine} (h : SameControl t.loader t'.loader)
    {rs rs' : List RegisterMap.Registers}
    (hrs : List.Forall₂ (fun r r' ↦ r.serialBbEnable = false ∧ r'.serialBbEnable = false ∧
      r.serialXfer = r'.serialXfer) rs rs') :
    SameControl (run Machine.step t rs).loader (run Machine.step t' rs').loader ∧
      trace Machine.step Machine.edges t rs = trace Machine.step Machine.edges t' rs' := by
  induction hrs generalizing t t' with
  | nil => exact ⟨h, rfl⟩
  | @cons r r' rest rest' hr _ ih =>
    have hnext : SameControl (t.step r).loader (t'.step r').loader := h.next hr.1 hr.2.1 hr.2.2
    obtain ⟨hrun, htrace⟩ := ih hnext
    refine ⟨hrun, ?_⟩
    rw [trace, trace, htrace]
    exact congrArg (· ++ _) (h.edges hnext)

/-- The loader rests in `` `GPIO_IDLE `` with its strobes low. -/
structure AtRest (l : SerialLoader.Registers) : Prop where
  idle : l.xferState = .idle
  clockLow : l.serialClockPre = false
  loadLow : l.serialLoadPre = false

/-- A requested transfer is 498 clocks long, whatever is written to the configuration meanwhile. -/
theorem transfer_edges {t : Machine} (hidle : t.loader.xferState = .idle)
    (hxfer : r.serialXfer = true) (hbb : r.serialBbEnable = false)
    (rs : List RegisterMap.Registers) (hlen : rs.length = 497)
    (hrs : ∀ r ∈ rs, r.serialBbEnable = false) :
    AtRest (run Machine.step t (r :: rs)).loader ∧
      trace Machine.step Machine.edges t (r :: rs) =
        List.replicate 247 .clockRise ++ [.loadRise] := by
  let cfg : Fin 38 → BitVec 13 := r.gpioConfigure
  let t' : Machine := ⟨t.loader, fun pad ↦ Pads.GpioControlBlock.reset (Pads.gpioDefaults pad)⟩
  let rs' := rs.map fun r ↦ { r with gpioConfigure := cfg }
  have hsame : List.Forall₂ (fun r r' : RegisterMap.Registers ↦ r.serialBbEnable = false ∧
      r'.serialBbEnable = false ∧ r.serialXfer = r'.serialXfer) (r :: rs) (r :: rs') := by
    refine .cons ⟨hbb, hbb, rfl⟩ (List.forall₂_map_right_iff.2 (List.forall₂_same.2 fun r hr ↦ ?_))
    exact ⟨hrs r hr, hrs r hr, rfl⟩
  have hsettled : Pads.Settled t'.pads := fun _ ↦ show false = (0#13).getLsbD 12 by decide
  obtain ⟨hcontrol, hedges⟩ :=
    edges_of_sameControl (show SameControl t.loader t'.loader from ⟨_, _, rfl⟩) hsame
  have hquiet : ∀ r' ∈ rs', Quiet cfg r' := by
    intro r' hr'
    obtain ⟨r, hr, rfl⟩ := List.mem_map.1 hr'
    exact ⟨hrs r hr, rfl⟩
  obtain ⟨hfinished, htrace, -⟩ := transfer_run (t := t') hidle hsettled hxfer rs'
    (by rw [List.length_map, hlen]) hquiet
  obtain ⟨_, _, hlast⟩ := hcontrol
  rw [hfinished] at hlast
  refine ⟨⟨?_, ?_, ?_⟩, hedges.trans htrace⟩
  · exact (congrArg SerialLoader.Registers.xferState hlast).symm
  · exact (congrArg SerialLoader.Registers.serialClockPre hlast).symm
  · exact (congrArg SerialLoader.Registers.serialLoadPre hlast).symm

/-- Without a request the loader rests. -/
theorem rest_edges {t : Machine} (hrest : AtRest t.loader) (rs : List RegisterMap.Registers)
    (hrs : ∀ r ∈ rs, r.serialXfer = false) :
    trace Machine.step Machine.edges t rs = [] := by
  induction rs generalizing t with
  | nil => rfl
  | cons r rest ih =>
    rw [List.forall_mem_cons] at hrs
    have hnext : (t.step r).loader = SerialLoader.idleStep t.loader false := by
      rw [Machine.step_loader, SerialLoader.next, hrest.idle, hrs.1]
    have hstill : t.edges r = [] := by
      simp only [Machine.edges, Pads.SerialLines.edges]
      rw [← Machine.step_loader, hnext]
      simp [autoLines, Pads.SerialLines.clockRises, Pads.SerialLines.loadRises,
        SerialLoader.idleStep]
    rw [trace, hstill, List.nil_append]
    exact ih (hnext ▸ ⟨rfl, rfl, rfl⟩) hrs.2

/-! ## The request flag -/

/-- The edge writes one to `serial_xfer`. -/
def requests (x : RegisterEdge) : Bool := x.cwstb && (x.caddr == 0x13#8 && x.cdata.getLsbD 0)

/-- The edge clears `serial_xfer`, by itself or by a write of zero. -/
def clears (x : RegisterEdge) : Bool := !x.cwstb || (x.caddr == 0x13#8 && !x.cdata.getLsbD 0)

theorem serialXfer_apply (r : RegisterMap.Registers) (x : RegisterEdge) (hx : requests x = false) :
    (x.apply r).serialXfer = (r.serialXfer && !clears x) := by
  unfold RegisterEdge.apply RegisterMap.posedgeCsclk clears
  unfold requests at hx
  cases hstrobe : x.cwstb with
  | false => simp
  | true =>
    rw [if_pos rfl, RegisterMap.serialXfer_write]
    by_cases haddr : x.caddr = 0x13#8
    · have hbit : x.cdata.getLsbD 0 = false := by simpa [hstrobe, haddr] using hx
      rw [if_pos ((RegisterMap.writeRow_eq_gpioControl_iff _).2 haddr), hbit]
      simp [haddr]
    · rw [if_neg fun hrow ↦ haddr ((RegisterMap.writeRow_eq_gpioControl_iff _).1 hrow)]
      simp [haddr]

theorem serialXfer_foldl (r : RegisterMap.Registers) {edges : List RegisterEdge}
    (hedges : ∀ x ∈ edges, requests x = false) :
    (edges.foldl RegisterEdge.apply r).serialXfer = (r.serialXfer && !edges.any clears) := by
  induction edges generalizing r with
  | nil => simp
  | cons x rest ih =>
    rw [List.forall_mem_cons] at hedges
    calc
      ((x :: rest).foldl RegisterEdge.apply r).serialXfer
      _ = ((x.apply r).serialXfer && !rest.any clears) := ih _ hedges.2
      _ = (r.serialXfer && !clears x && !rest.any clears) := by
        rw [serialXfer_apply r x hedges.1]
      _ = (r.serialXfer && !(x :: rest).any clears) := by
        rw [List.any_cons, Bool.not_or, Bool.and_assoc]

/-- After a run that makes no request, the flag is up only if it was and nothing cleared it. -/
theorem serialXfer_run {s : Soc} {es : List Event} (hrun : Always Soc.step Automatic s es)
    (hedges : ∀ x ∈ trace Soc.step Soc.registerEdges s es, requests x = false) :
    (run Soc.step s es).hk.regs.serialXfer =
      (s.hk.regs.serialXfer && !(trace Soc.step Soc.registerEdges s es).any clears) := by
  have hregs := run_eq_foldl_trace (fun t : Soc ↦ t.hk.regs) RegisterEdge.apply Soc.registerEdges
    (fun t e ht ↦ Housekeeping.step_regs (s := t.hk) (e := e) ht.2.1) hrun.along
  rw [hregs, serialXfer_foldl _ hedges]

/-- A flag that is down stays down while nothing requests. -/
theorem always_no_request {s : Soc} {es : List Event} (hrun : Always Soc.step Automatic s es)
    (hedges : ∀ x ∈ trace Soc.step Soc.registerEdges s es, requests x = false)
    (hlow : s.hk.regs.serialXfer = false) :
    Always Soc.step (fun t ↦ t.hk.regs.serialXfer = false) s es := by
  rw [forall_mem_trace_iff] at hedges
  refine always_of_invariant ?_ hlow (hrun.along.and hedges)
  rintro t e ht ⟨hauto, hquiet⟩
  calc
    (t.step e).hk.regs.serialXfer
    _ = ((t.hk.registerEdges e).foldl RegisterEdge.apply t.hk.regs).serialXfer := by
      rw [Soc.step_hk, Housekeeping.step_regs hauto.2.1]
    _ = (t.hk.regs.serialXfer && !(t.hk.registerEdges e).any clears) := serialXfer_foldl _ hquiet
    _ = false := by rw [ht, Bool.false_and]

/-! ## Requests and transfers -/

/-- A sampled request is served within 498 clocks. -/
theorem serialEdges_of_request {s : Soc} {es : List Event}
    (hidle : s.hk.loader.xferState = .idle) (hxfer : s.hk.regs.serialXfer = true)
    (hrun : Always Soc.step Automatic s (.wbClk :: es)) (hclocks : 497 ≤ es.count .wbClk) :
    ∃ later, trace Soc.step Soc.serialEdges s (.wbClk :: es) =
        List.replicate 247 .clockRise ++ [.loadRise] ++ later ∧
      (es.count .wbClk = 497 → later = [] ∧ AtRest (run Soc.step s (.wbClk :: es)).hk.loader) := by
  obtain ⟨hproj, hedges⟩ := projects_run hrun
  have hbb : ∀ r ∈ trace Soc.step clockSamples s (.wbClk :: es), r.serialBbEnable = false :=
    forall_mem_clockSamples (hrun.mono fun _ h ↦ h.2)
  have hlength := length_trace_clockSamples (s.step .wbClk) es
  rw [trace_clockSamples_wbClk] at hproj hedges hbb
  rw [List.forall_mem_cons] at hbb
  rw [hedges]
  generalize trace Soc.step clockSamples (s.step .wbClk) es = rs at *
  obtain ⟨front, back, rfl, hfront, -⟩ :=
    exists_append_of_length (show rs.length = 497 + (rs.length - 497) by omega)
  obtain ⟨hrest, htransfer⟩ := transfer_edges (t := ⟨s.hk.loader, s.pads⟩) hidle hxfer hbb.1 front
    hfront fun r hr ↦ hbb.2 r (List.mem_append_left _ hr)
  refine ⟨trace Machine.step Machine.edges (run Machine.step ⟨s.hk.loader, s.pads⟩
    (s.hk.regs :: front)) back, ?_, fun hcount ↦ ?_⟩
  · rw [← List.cons_append, trace_append, htransfer]
  · obtain rfl : back = [] := by
      apply List.eq_nil_of_length_eq_zero
      rw [List.length_append] at hlength
      omega
    rw [List.append_nil] at hproj
    exact ⟨rfl, by rw [hproj.1]; exact hrest⟩

/-- A transfer has one load strobe. -/
theorem count_loadRise (n : ℕ) (later : List SerialEdge) :
    (List.replicate n SerialEdge.clockRise ++ [SerialEdge.loadRise] ++ later).count
        SerialEdge.loadRise = 1 + later.count SerialEdge.loadRise := by
  simp [List.count_append, List.count_replicate, Nat.add_comm]

/-- Without a request the pads see no serial edge. -/
theorem serialEdges_of_rest {s : Soc} {es : List Event} (hrest : AtRest s.hk.loader)
    (hrun : Always Soc.step Automatic s (.wbClk :: es))
    (hlow : Always Soc.step (fun t ↦ t.hk.regs.serialXfer = false) s (.wbClk :: es)) :
    trace Soc.step Soc.serialEdges s (.wbClk :: es) = [] := by
  rw [(projects_run hrun).2]
  exact rest_edges (t := ⟨s.hk.loader, s.pads⟩) hrest _ (forall_mem_clockSamples hlow)

section Request

variable {s : Soc} {es es' : List Event}

/-- A request that a register edge clears during its transfer is served once. -/
theorem count_of_cleared (hidle : s.hk.loader.xferState = .idle)
    (hxfer : s.hk.regs.serialXfer = true)
    (hrun : Always Soc.step Automatic s ((.wbClk :: es) ++ (.wbClk :: es')))
    (hclocks : es.count .wbClk = 497)
    (hrequest : ∀ x ∈ trace Soc.step Soc.registerEdges s ((.wbClk :: es) ++ (.wbClk :: es')),
      requests x = false)
    (hclear : ∃ x ∈ trace Soc.step Soc.registerEdges s (.wbClk :: es), clears x = true) :
    (trace Soc.step Soc.serialEdges s ((.wbClk :: es) ++ (.wbClk :: es'))).count .loadRise = 1 := by
  obtain ⟨hfirst, hsecond⟩ := (always_append _ _ _ _ _).1 hrun
  rw [trace_append, List.forall_mem_append] at hrequest
  obtain ⟨later, htransfer, hdone⟩ := serialEdges_of_request hidle hxfer hfirst hclocks.ge
  obtain ⟨rfl, hrest⟩ := hdone hclocks
  have hflag := serialXfer_run hfirst hrequest.1
  rw [List.any_eq_true.2 hclear, Bool.not_true, Bool.and_false] at hflag
  have hquiet := serialEdges_of_rest hrest hsecond (always_no_request hsecond hrequest.2 hflag)
  calc
    (trace Soc.step Soc.serialEdges s ((.wbClk :: es) ++ (.wbClk :: es'))).count .loadRise
    _ = (List.replicate 247 SerialEdge.clockRise ++ [SerialEdge.loadRise] ++ []).count
        SerialEdge.loadRise := by
      rw [trace_append, htransfer, hquiet, List.append_nil]
    _ = 1 + List.count SerialEdge.loadRise [] := count_loadRise 247 []
    _ = 1 := by rw [List.count_nil]

/-- A request that nothing clears during its transfer is served again. -/
theorem two_le_count_of_not_cleared (hidle : s.hk.loader.xferState = .idle)
    (hxfer : s.hk.regs.serialXfer = true)
    (hrun : Always Soc.step Automatic s ((.wbClk :: es) ++ (.wbClk :: es')))
    (hclocks : es.count .wbClk = 497)
    (hrequest : ∀ x ∈ trace Soc.step Soc.registerEdges s ((.wbClk :: es) ++ (.wbClk :: es')),
      requests x = false)
    (hkept : ¬∃ x ∈ trace Soc.step Soc.registerEdges s (.wbClk :: es), clears x = true)
    (hlong : 497 ≤ es'.count .wbClk) :
    2 ≤ (trace Soc.step Soc.serialEdges s ((.wbClk :: es) ++ (.wbClk :: es'))).count .loadRise := by
  obtain ⟨hfirst, hsecond⟩ := (always_append _ _ _ _ _).1 hrun
  rw [trace_append, List.forall_mem_append] at hrequest
  obtain ⟨later, htransfer, hdone⟩ := serialEdges_of_request hidle hxfer hfirst hclocks.ge
  obtain ⟨rfl, hrest⟩ := hdone hclocks
  have hany : (trace Soc.step Soc.registerEdges s (.wbClk :: es)).any clears = false := by
    rw [← Bool.not_eq_true, List.any_eq_true]
    exact hkept
  have hflag := serialXfer_run hfirst hrequest.1
  rw [hany, hxfer, Bool.not_false, Bool.and_true] at hflag
  obtain ⟨again, hagain, -⟩ := serialEdges_of_request hrest.idle hflag hsecond hlong
  calc
    2 ≤ 1 + (1 + again.count .loadRise) := by omega
    _ = (trace Soc.step Soc.serialEdges s ((.wbClk :: es) ++ (.wbClk :: es'))).count
        .loadRise := by
      rw [trace_append, htransfer, List.append_nil, count_loadRise, hagain, count_loadRise]

end Request

/-- **One request, one transfer?** An idle loader samples a request at a clock edge, and nothing
writes a request afterwards. If a register edge clears the flag within the 498 clocks of the
transfer, exactly one load strobe follows, however long the run; and in every run long enough for a
second transfer there is exactly one only if such an edge was made. -/
theorem one_transfer_iff_cleared (s : Soc) (es es' : List Event)
    (hidle : s.hk.loader.xferState = .idle) (hxfer : s.hk.regs.serialXfer = true)
    (hrun : Always Soc.step Automatic s ((.wbClk :: es) ++ (.wbClk :: es')))
    (hclocks : es.count .wbClk = 497)
    (hrequest : ∀ x ∈ trace Soc.step Soc.registerEdges s ((.wbClk :: es) ++ (.wbClk :: es')),
      requests x = false) :
    ((∃ x ∈ trace Soc.step Soc.registerEdges s (.wbClk :: es), clears x = true) →
        (trace Soc.step Soc.serialEdges s
          ((.wbClk :: es) ++ (.wbClk :: es'))).count .loadRise = 1) ∧
      (497 ≤ es'.count .wbClk →
        ((trace Soc.step Soc.serialEdges s
          ((.wbClk :: es) ++ (.wbClk :: es'))).count .loadRise = 1 ↔
          ∃ x ∈ trace Soc.step Soc.registerEdges s (.wbClk :: es), clears x = true)) := by
  have honce := count_of_cleared hidle hxfer hrun hclocks hrequest
  refine ⟨honce, fun hlong ↦ ⟨fun h ↦ ?_, honce⟩⟩
  by_contra hkept
  have htwice := two_le_count_of_not_cleared hidle hxfer hrun hclocks hrequest hkept hlong
  omega

/-! ## A request cleared and a request kept -/

theorem registerEdges_of_parked {s : Soc} (hparked : s.hk.Parked) (n : ℕ) :
    trace Soc.step Soc.registerEdges s (List.replicate n .wbClk) = [] := by
  refine trace_eq_nil (P := fun t e ↦ t.hk.Parked ∧ e = .wbClk) ?_ ?_
  · rintro t e ⟨ht, rfl⟩
    exact ht.step_wbClk.2.1
  · refine (along_of_forall fun e he ↦ List.eq_of_mem_replicate he).with_invariant ?_ hparked
    rintro t e ht rfl
    exact ht.step_wbClk.1

theorem automatic_of_parked {s : Soc} (hparked : s.hk.Parked)
    (hbb : s.hk.regs.serialBbEnable = false) (n : ℕ) :
    Always Soc.step Automatic s (List.replicate n .wbClk) :=
  (always_configured_of_parked hparked hbb n).mono fun _ h ↦ h.1

/-- The SPI selects the chip and raises its clock once: a register edge without the strobe. -/
def clearingExample : List Event := [Housekeeping.csbFalls, .gpioIn 4 true]

theorem one_transfer_iff_cleared_clearingExample :
    (trace Soc.step Soc.serialEdges requestedExample
      ((.wbClk :: (clearingExample ++ List.replicate 497 .wbClk)) ++
        [.wbClk])).count .loadRise = 1 := by
  have hparked : (run Soc.step requestedExample (.wbClk :: clearingExample)).hk.Parked :=
    ⟨by decide, by decide, by decide, by decide⟩
  -- The number of clocks stays a variable, so that no list of this length is ever written out.
  suffices h : ∀ n, n = 497 → (trace Soc.step Soc.serialEdges requestedExample
      ((.wbClk :: (clearingExample ++ List.replicate n .wbClk)) ++
        [.wbClk])).count .loadRise = 1 from
    h 497 rfl
  intro n hn
  have hsplit : (.wbClk :: (clearingExample ++ List.replicate n .wbClk)) ++ [.wbClk] =
      (.wbClk :: clearingExample) ++ List.replicate (n + 1) .wbClk := by
    rw [List.replicate_succ']
    simp
  have hedges : trace Soc.step Soc.registerEdges requestedExample
      ((.wbClk :: (clearingExample ++ List.replicate n .wbClk)) ++ [.wbClk]) =
        trace Soc.step Soc.registerEdges requestedExample (.wbClk :: clearingExample) := by
    rw [hsplit, trace_append, registerEdges_of_parked hparked, List.append_nil]
  refine (one_transfer_iff_cleared requestedExample (clearingExample ++ List.replicate n .wbClk)
    [] rfl rfl ?_ ?_ ?_).1 ?_
  · rw [hsplit, always_append]
    exact ⟨by decide, automatic_of_parked hparked (by decide) _⟩
  · rw [List.count_append, List.count_replicate_self, hn]
    decide
  · rw [hedges]
    decide
  · rw [← List.cons_append, trace_append, registerEdges_of_parked hparked, List.append_nil]
    decide

/-- The SPI writes one to bit 0 of register `0x13` and raises CSB. -/
def spiRequestExample : Soc :=
  run Soc.step ⟨Housekeeping.released 0x8#38 default, requestedExample.pads⟩
    (Housekeeping.csbFalls :: Housekeeping.sendByte 0x80#8 ++ Housekeeping.sendByte 0x13#8 ++
      Housekeeping.sendByte 0x01#8 ++ [Housekeeping.csbRises])

set_option maxRecDepth 10000 in
theorem spiRequestExample_requested :
    spiRequestExample.hk.loader.xferState = .idle ∧ spiRequestExample.hk.regs.serialXfer = true ∧
      spiRequestExample.hk.regs.serialBbEnable = false ∧ spiRequestExample.hk.OutOfReset ∧
      spiRequestExample.hk.wbbd.state = .idle ∧ spiRequestExample.hk.wbbd.busy = false ∧
      BackDoor.request spiRequestExample.hk.bus = false := by
  decide

/-- With no later access the request of the SPI is never cleared, and is served again. -/
theorem request_served_twice :
    ¬∀ (s : Soc) (es es' : List Event), s.hk.loader.xferState = .idle →
      s.hk.regs.serialXfer = true →
      Always Soc.step Automatic s ((.wbClk :: es) ++ (.wbClk :: es')) →
      es.count .wbClk = 497 →
      (∀ x ∈ trace Soc.step Soc.registerEdges s ((.wbClk :: es) ++ (.wbClk :: es')),
        requests x = false) →
      (trace Soc.step Soc.serialEdges s
        ((.wbClk :: es) ++ (.wbClk :: es'))).count .loadRise = 1 := by
  intro h
  obtain ⟨hidle, hxfer, hbb, hrst, hstate, hbusy, hreq⟩ := spiRequestExample_requested
  have hparked : spiRequestExample.hk.Parked := ⟨hrst, hstate, hbusy, hreq⟩
  obtain ⟨n, hn⟩ : ∃ n, n = 497 := ⟨497, rfl⟩
  have hall : (.wbClk :: List.replicate n .wbClk) ++ (.wbClk :: List.replicate n .wbClk) =
      List.replicate (n + 1 + (n + 1)) Event.wbClk := by
    rw [← List.replicate_succ, ← List.replicate_add]
  have hauto : Always Soc.step Automatic spiRequestExample
      ((.wbClk :: List.replicate n .wbClk) ++ (.wbClk :: List.replicate n .wbClk)) := by
    rw [hall]
    exact automatic_of_parked hparked hbb _
  have hrequest : ∀ x ∈ trace Soc.step Soc.registerEdges spiRequestExample
      ((.wbClk :: List.replicate n .wbClk) ++ (.wbClk :: List.replicate n .wbClk)),
        requests x = false := by
    rw [hall, registerEdges_of_parked hparked]
    simp
  have hcount : (List.replicate n Event.wbClk).count .wbClk = 497 := by
    rw [List.count_replicate_self, hn]
  have honce := h spiRequestExample _ _ hidle hxfer hauto hcount hrequest
  have htwice := two_le_count_of_not_cleared hidle hxfer hauto hcount hrequest
    (by rw [← List.replicate_succ, registerEdges_of_parked hparked]; simp) hcount.ge
  omega

end Transfer

end CaravelSoc
