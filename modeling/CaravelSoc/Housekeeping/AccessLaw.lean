import CaravelSoc.Housekeeping.Access

/-!
# The law of Wishbone accesses

An access runs from the clock that accepts a request to the first acknowledge.
It makes four register edges and one acknowledge, whatever happens to the SPI
pins. The state machine samples the bus anew in each setup state and does not
look at `wb_cyc_i`, `wb_stb_i` or the address windows after the acceptance: a
master that holds its request gets four edges of that request, and a master that
abandons it gets four edges of whatever the bus carries then.
-/

open Sequential

namespace CaravelSoc.Housekeeping

open BackDoor

/-- The events `es` lead from the acceptance of a request, at a first clock edge, to the first
acknowledge, without a reset. -/
structure AccessRun (s : Housekeeping) (es : List Event) : Prop where
  outOfReset : s.OutOfReset
  idle : s.wbbd.state = .idle
  request : request s.bus = true
  running : ∀ e ∈ es, e.Running
  waiting : Along step (fun before _ ↦ before.wbbd.ack = false) (s.step .wbClk) es
  acked : (run step s (.wbClk :: es)).wbbd.ack = true

variable {s : Housekeeping} {e : Event} {es : List Event} {pending : List (Fin 4 × Bus)}

/-- The whole of an access runs out of reset. -/
theorem AccessRun.always_outOfReset (h : AccessRun s es) :
    Always step OutOfReset s (.wbClk :: es) :=
  h.outOfReset.always (List.forall_mem_cons.2 ⟨trivial, h.running⟩)

/-- The accepting clock starts an access in the first setup state. -/
theorem inAccess_accept (hrst : s.OutOfReset) (hidle : s.wbbd.state = .idle)
    (hreq : BackDoor.request s.bus = true) :
    InAccess [] (s.step .wbClk).wbbd ∧ (s.step .wbClk).wbbd.state = .setup 0 := by
  rw [step_wbbd, drive_wbbd_wbClk hrst.1]
  exact next_idle hidle hreq

theorem setupSamples_idle (hidle : s.wbbd.state = .idle) : s.setupSamples .wbClk = [] := by
  simp [setupSamples, hidle]

/-- The four lanes of an access, in order, each with the bus it was set up from. -/
theorem AccessRun.lanes (h : AccessRun s es) :
    (trace step setupSamples s (.wbClk :: es)).map Prod.fst = List.finRange 4 ∧
      List.Forall₂ (IsLane (run step s (.wbClk :: es)).wbbd.datO)
        (trace step setupSamples s (.wbClk :: es)) (trace step backDoorEdges s (.wbClk :: es)) := by
  obtain ⟨hacc, hstate⟩ := inAccess_accept h.outOfReset h.idle h.request
  obtain ⟨hlanes, hedges, -⟩ :=
    access_run (h.outOfReset.step (e := .wbClk) trivial) h.running hacc h.waiting h.acked
  rw [trace, trace, setupSamples_idle h.idle, backDoorEdges_idle h.outOfReset h.idle]
  rw [hstate] at hlanes
  exact ⟨hlanes, hedges⟩

theorem bus_run_of_held (hheld : ∀ e ∈ es, e.Held) : (run step s es).bus = s.bus := by
  refine invariant_run (I := fun t : Housekeeping ↦ t.bus = s.bus)
    (P := fun _ (e : Event) ↦ e.Held) ?_ rfl
    (along_of_forall hheld)
  intro t e ht he
  exact (drive_bus_of_held he).trans ht

/-- A held bus is the bus every lane is set up from. -/
theorem snd_setupSamples_of_held (hheld : ∀ e ∈ es, e.Held) :
    ∀ x ∈ trace step setupSamples s es, x.2 = s.bus := by
  induction es generalizing s with
  | nil => simp [trace]
  | cons e rest ih =>
    intro x hx
    rw [trace, List.mem_append] at hx
    rcases hx with hx | hx
    · unfold setupSamples at hx
      split at hx
      · split at hx
        · split at hx
          · simp at hx
          · obtain rfl := List.mem_singleton.1 hx
            rfl
        all_goals simp at hx
      all_goals simp at hx
    · rw [ih (fun other hother ↦ hheld other (List.mem_cons_of_mem _ hother)) x hx]
      exact drive_bus_of_held (hheld e List.mem_cons_self)

/-- The four lanes of an access whose master holds the bus. -/
theorem AccessRun.held_lanes (h : AccessRun s es) (hheld : ∀ e ∈ es, e.Held) :
    List.Forall₂ (IsLane (run step s (.wbClk :: es)).wbbd.datO)
      ((List.finRange 4).map fun lane ↦ (lane, s.bus))
      (trace step backDoorEdges s (.wbClk :: es)) := by
  obtain ⟨hlanes, hedges⟩ := h.lanes
  have hall : ∀ e ∈ Event.wbClk :: es, e.Held := by
    rw [List.forall_mem_cons]
    exact ⟨trivial, hheld⟩
  have hbus := snd_setupSamples_of_held (s := s) hall
  have hsamples : trace step setupSamples s (.wbClk :: es) =
      (List.finRange 4).map fun lane ↦ (lane, s.bus) := by
    rw [← hlanes, List.map_map]
    refine (List.map_id _).symm.trans (List.map_congr_left fun x hx ↦ ?_)
    exact Prod.ext rfl (hbus x hx)
  rwa [hsamples] at hedges

/-- The edges of a held access, one by one. -/
theorem AccessRun.four_edges (h : AccessRun s es) (hheld : ∀ e ∈ es, e.Held) :
    ∃ x₀ x₁ x₂ x₃, trace step backDoorEdges s (.wbClk :: es) = [x₀, x₁, x₂, x₃] ∧
      IsLane (run step s (.wbClk :: es)).wbbd.datO (0, s.bus) x₀ ∧
      IsLane (run step s (.wbClk :: es)).wbbd.datO (1, s.bus) x₁ ∧
      IsLane (run step s (.wbClk :: es)).wbbd.datO (2, s.bus) x₂ ∧
      IsLane (run step s (.wbClk :: es)).wbbd.datO (3, s.bus) x₃ := by
  have hlanes := h.held_lanes hheld
  generalize trace step backDoorEdges s (.wbClk :: es) = edges at hlanes
  obtain _ | ⟨h₀, _ | ⟨h₁, _ | ⟨h₂, _ | ⟨h₃, _ | _⟩⟩⟩⟩ := hlanes
  exact ⟨_, _, _, _, rfl, h₀, h₁, h₂, h₃⟩

/-- The state machine stays out of `` `WBBD_IDLE `` all the way to the acknowledge. -/
theorem inAccess_along (hrst : s.OutOfReset) (hrun : ∀ e ∈ es, e.Running)
    (hacc : InAccess pending s.wbbd)
    (hwait : Along step (fun before _ ↦ before.wbbd.ack = false) s es) :
    Always step (fun t ↦ ∃ pending', InAccess pending' t.wbbd) s es := by
  refine (always_of_invariant
    (I := fun t ↦ t.OutOfReset ∧ ∃ pending', InAccess pending' t.wbbd)
    (P := fun t e ↦ t.wbbd.ack = false ∧ e.Running) ?_ ⟨hrst, pending, hacc⟩
    (hwait.and (along_of_forall hrun))).mono fun _ h ↦ h.2
  rintro t e ⟨hrst', pending', hacc'⟩ ⟨hlow, he⟩
  obtain ⟨_, after, _, hafter, _⟩ := serves_step hrst' he hacc' hlow
  exact ⟨hrst'.step he, after, hafter⟩

/-- The acknowledge is up and lasts for one clock: other events keep it, and the next clock returns
the state machine to idle without another register edge. -/
def AckPulse (s : Housekeeping) : Prop :=
  ∀ more, (∀ e ∈ more, e.Running) → .wbClk ∉ more →
    (run step s more).wbbd.ack = true ∧
      (run step s (more ++ [.wbClk])).wbbd.ack = false ∧
      (run step s (more ++ [.wbClk])).wbbd.state = .idle ∧
      trace step backDoorEdges s (more ++ [.wbClk]) = []

theorem ack_pulse (hrst : s.OutOfReset) (hacc : InAccess pending s.wbbd)
    (hack : s.wbbd.ack = true) : AckPulse s := by
  intro more hrun hclk
  have hdone : s.wbbd.state = .done := by
    unfold InAccess at hacc
    split at hacc
    · exact hacc.elim
    · simp [hacc.2] at hack
    · obtain ⟨_, _, _, _, _, hlow⟩ := hacc
      simp [hlow] at hack
    · assumption
  induction more generalizing s with
  | nil =>
    have hwbbd := drive_wbbd_wbClk (s := s) hrst.1
    simp only [next, hdone] at hwbbd
    simp [run, trace, hack, hwbbd, backDoorEdges_done hrst hdone]
  | cons e rest ih =>
    rw [List.forall_mem_cons] at hrun
    rw [List.mem_cons, not_or] at hclk
    have he : e ≠ .wbClk := Ne.symm hclk.1
    have hkeep : (s.step e).wbbd = s.wbbd := drive_wbbd_of_ne_wbClk he hrun.1
    have hnext := ih (hrst.step hrun.1) (hkeep ▸ hacc) (hkeep ▸ hack) hrun.2 hclk.2 (hkeep ▸ hdone)
    simpa only [List.cons_append, run, trace, backDoorEdges_of_ne_wbClk he hrun.1,
      List.nil_append] using hnext

/-- A setup state waits for the SPI. -/
def stalled (s : Housekeeping) : Bool :=
  match s.wbbd.state with
  | .setup _ => s.spiIsBusy
  | .idle | .rw _ | .done => false

/-- The clocks that find the state machine not stalled. -/
def unstalledClocks (s : Housekeeping) (e : Event) : List Unit :=
  if e = .wbClk ∧ s.stalled = false then [()] else []

theorem unstalledClocks_of_ne_wbClk (he : e ≠ .wbClk) : s.unstalledClocks e = [] :=
  if_neg fun h ↦ he h.1

/-- While the SPI is never busy, all clocks are counted. -/
theorem length_unstalledClocks_of_free
    (hfree : Along step (fun before _ ↦ before.spiIsBusy = false) s es) :
    (trace step unstalledClocks s es).length = es.count .wbClk := by
  induction es generalizing s with
  | nil => rfl
  | cons e rest ih =>
    rw [trace, List.length_append, ih hfree.2]
    by_cases he : e = .wbClk
    · have hstalled : s.stalled = false := by
        unfold stalled
        split <;> simp [hfree.1]
      rw [he, List.count_cons_self, unstalledClocks, if_pos ⟨rfl, hstalled⟩, List.length_singleton,
        Nat.add_comm]
    · rw [List.count_cons_of_ne he, unstalledClocks_of_ne_wbClk he, List.length_nil, Nat.zero_add]

/-- Every clock that is not stalled brings the acknowledge nearer by one. -/
theorem clocksLeft_step (hrst : s.OutOfReset) (hrun : e.Running) (hacc : InAccess pending s.wbbd)
    (hlow : s.wbbd.ack = false) :
    clocksLeft (s.step e).wbbd.state + (s.unstalledClocks e).length =
      clocksLeft s.wbbd.state := by
  by_cases he : e = .wbClk
  · subst he
    rw [step_wbbd, drive_wbbd_wbClk hrst.1]
    unfold InAccess at hacc
    split at hacc
    · exact hacc.elim
    · next lane hstate =>
      rw [next_setup hstate, hstate]
      cases hbusy : s.spiIsBusy with
      | true => simp [setup, unstalledClocks, stalled, hstate, hbusy]
      | false =>
        rw [clocksLeft_setup]
        simp [setup, unstalledClocks, stalled, hstate, hbusy]
    · next lane hstate =>
      rw [next_rw hstate, hstate, clocksLeft_rw]
      simp [rw, unstalledClocks, stalled, hstate]
    · simp [hacc.2] at hlow
  · rw [step_wbbd, drive_wbbd_of_ne_wbClk he hrun, unstalledClocks_of_ne_wbClk he,
      List.length_nil, Nat.add_zero]

/-- Up to the acknowledge the access is not left, and its unstalled clocks are counted down. -/
theorem clocksLeft_run (hrst : s.OutOfReset) (hacc : InAccess pending s.wbbd)
    (hrun : ∀ e ∈ es, e.Running)
    (hclocks : (trace step unstalledClocks s es).length ≤ clocksLeft s.wbbd.state) :
    Always step (fun t ↦ ∃ pending', InAccess pending' t.wbbd) s es ∧
      clocksLeft (run step s es).wbbd.state + (trace step unstalledClocks s es).length =
        clocksLeft s.wbbd.state := by
  induction es generalizing s pending with
  | nil => exact ⟨⟨pending, hacc⟩, rfl⟩
  | cons e rest ih =>
    rw [List.forall_mem_cons] at hrun
    rw [trace, List.length_append] at hclocks ⊢
    cases hlow : s.wbbd.ack with
    | false =>
      obtain ⟨_, after, _, hafter, _⟩ := serves_step hrst hrun.1 hacc hlow
      have hleft := clocksLeft_step hrst hrun.1 hacc hlow
      obtain ⟨halways, hcount⟩ := ih (hrst.step hrun.1) hafter hrun.2 (by omega)
      refine ⟨⟨⟨pending, hacc⟩, halways⟩, ?_⟩
      rw [run]
      omega
    | true =>
      -- no clock may follow the acknowledge, so the back door stays as it is
      have hzero : clocksLeft s.wbbd.state = 0 := hacc.ack_iff.1 hlow
      have he : e ≠ .wbClk := by
        rintro rfl
        have hstalled : s.stalled = false := by
          unfold stalled
          split
          · next lane hstate => simp [hstate, clocksLeft_setup] at hzero
          all_goals rfl
        simp [unstalledClocks, hstalled, hzero] at hclocks
      have hkeep : (s.step e).wbbd = s.wbbd := drive_wbbd_of_ne_wbClk he hrun.1
      rw [unstalledClocks_of_ne_wbClk he, List.length_nil, Nat.zero_add] at hclocks ⊢
      obtain ⟨halways, hcount⟩ :=
        ih (hrst.step hrun.1) (hkeep ▸ hacc) hrun.2 (by rwa [hkeep])
      rw [hkeep] at hcount
      exact ⟨⟨⟨pending, hacc⟩, halways⟩, hcount⟩

/-- An accepted access is not left before its acknowledge, which comes at the eighth clock that
finds no setup state stalled. -/
theorem ack_iff_eight_unstalled (hrst : s.OutOfReset) (hidle : s.wbbd.state = .idle)
    (hreq : BackDoor.request s.bus = true) (hrun : ∀ e ∈ es, e.Running)
    (hclocks : (trace step unstalledClocks (s.step .wbClk) es).length ≤ 8) :
    Always step (fun t ↦ t.wbbd.state ≠ .idle) (s.step .wbClk) es ∧
      ((run step s (.wbClk :: es)).wbbd.ack = true ↔
        (trace step unstalledClocks (s.step .wbClk) es).length = 8) := by
  obtain ⟨hacc, hstate⟩ := inAccess_accept hrst hidle hreq
  have hleft : clocksLeft (s.step .wbClk).wbbd.state = 8 := by
    rw [hstate]
    rfl
  obtain ⟨halways, hcount⟩ :=
    clocksLeft_run (hrst.step (e := .wbClk) trivial) hacc hrun (by rwa [hleft])
  refine ⟨halways.mono fun _ ⟨_, hin⟩ ↦ hin.state_ne_idle, ?_⟩
  obtain ⟨pending', hin⟩ := halways.last
  rw [run, hin.ack_iff]
  omega

/-- Without a stall, the acknowledge comes eight clocks after the acceptance. -/
theorem ack_iff_eight_clocks (hrst : s.OutOfReset) (hidle : s.wbbd.state = .idle)
    (hreq : BackDoor.request s.bus = true) (hrun : ∀ e ∈ es, e.Running)
    (hfree : Along step (fun before _ ↦ before.spiIsBusy = false) (s.step .wbClk) es)
    (hclocks : es.count .wbClk ≤ 8) :
    (run step s (.wbClk :: es)).wbbd.ack = true ↔ es.count .wbClk = 8 := by
  rw [← length_unstalledClocks_of_free hfree] at hclocks ⊢
  exact (ack_iff_eight_unstalled hrst hidle hreq hrun hclocks).2

/-- An acknowledge is up in `` `WBBD_DONE `` only. -/
def AckWhenDone (w : BackDoor.Registers) : Prop := w.ack = true → w.state = .done

theorem ackWhenDone_next {w : BackDoor.Registers} {bus : Bus} {spiIsBusy : Bool}
    {odata : BitVec 8} (h : AckWhenDone w) : AckWhenDone (next w bus spiIsBusy odata) := by
  unfold AckWhenDone next at *
  cases hstate : w.state with
  | idle =>
    have hlow : w.ack = false := by simpa [hstate] using h
    simp only
    split <;> simp [hlow]
  | setup lane =>
    have hlow : w.ack = false := by simpa [hstate] using h
    simp [setup, hlow]
  | rw lane =>
    have hlow : w.ack = false := by simpa [hstate] using h
    by_cases hlast : lane = 3 <;> simp [BackDoor.rw, hlast, hlow]
  | done => simp

/-- No event, a reset included, raises the acknowledge elsewhere. -/
theorem ackWhenDone_step (h : AckWhenDone s.wbbd) : AckWhenDone (s.step e).wbbd := by
  rw [step_wbbd]
  cases e with
  | wbClk =>
    simp only [drive]
    split
    · exact ackWhenDone_next h
    · simp [AckWhenDone, reset]
  | wbRstn level =>
    simp only [drive]
    split
    · exact h
    · simp [AckWhenDone, reset]
  | gpioIn | wishbone | status | porb => exact h

/-- From an idle back door, as long as no clock samples a request, nothing is acknowledged and no
register edge is made. -/
theorem quiet_without_request (hrst : s.OutOfReset) (hidle : s.wbbd.state = .idle)
    (hlow : s.wbbd.ack = false)
    (hrun : Along step (fun t e ↦ e.Running ∧ (e = .wbClk → BackDoor.request t.bus = false)) s es) :
    Always step (fun t ↦ t.wbbd.ack = false ∧ t.wbbd.state = .idle) s es ∧
      trace step backDoorEdges s es = [] := by
  induction es generalizing s with
  | nil => exact ⟨⟨hlow, hidle⟩, rfl⟩
  | cons e rest ih =>
    obtain ⟨⟨hrune, hnoreq⟩, hrest⟩ := hrun
    have hnext : (s.step e).wbbd.state = .idle ∧ (s.step e).wbbd.ack = false ∧
        s.backDoorEdges e = [] := by
      by_cases he : e = .wbClk
      · subst he
        rw [step_wbbd, drive_wbbd_wbClk hrst.1, backDoorEdges_idle hrst hidle]
        simp [next, hidle, hnoreq rfl, hlow]
      · rw [step_wbbd, drive_wbbd_of_ne_wbClk he hrune, backDoorEdges_of_ne_wbClk he hrune]
        exact ⟨hidle, hlow, rfl⟩
    obtain ⟨halways, htrace⟩ := ih (hrst.step hrune) hnext.1 hnext.2.1 hrest
    rw [trace, hnext.2.2, htrace]
    exact ⟨⟨⟨hlow, hidle⟩, halways⟩, rfl⟩

/-- Since power-on an idle back door has its acknowledge down. -/
theorem quiet_of_powerOn {mgmtGpioIn : BitVec 38} {bus : Bus} {status : Status}
    {datO : BitVec 32} {before : List Event}
    (hs : run step (powerOn mgmtGpioIn bus status datO) before = s) (hrst : s.OutOfReset)
    (hidle : s.wbbd.state = .idle)
    (hrun : Along step (fun t e ↦ e.Running ∧ (e = .wbClk → BackDoor.request t.bus = false)) s es) :
    Always step (fun t ↦ t.wbbd.ack = false ∧ t.wbbd.state = .idle) s es ∧
      trace step backDoorEdges s es = [] := by
  have hdone : AckWhenDone s.wbbd := by
    rw [← hs]
    exact invariant_run (I := fun t : Housekeeping ↦ AckWhenDone t.wbbd) (P := fun _ _ ↦ True)
      (fun _ _ h _ ↦ ackWhenDone_step h) (fun h ↦ absurd h (by simp [powerOn]))
      (along_of_forall fun _ _ ↦ trivial)
  have hlow : s.wbbd.ack = false := by
    rw [← Bool.not_eq_true]
    intro hack
    simp [hdone hack] at hidle
  exact quiet_without_request hrst hidle hlow hrun

/-- The bus does not change between the acceptance of a request and its acknowledge. -/
def HeldUntilAck (s : Housekeeping) (e : Event) : Prop :=
  s.wbbd.state ≠ .idle → s.wbbd.ack = false → (s.step e).bus = s.bus

instance (s : Housekeeping) (e : Event) : Decidable (HeldUntilAck s e) := by
  unfold HeldUntilAck
  infer_instance

/-- An access that waits for its acknowledge has its request on the bus. -/
def Requested (s : Housekeeping) : Prop :=
  s.wbbd.state ≠ .idle → s.wbbd.ack = false → BackDoor.request s.bus = true

/-- An access that waits after a clock waited before it, or was accepted at it. -/
theorem next_waiting {w : BackDoor.Registers} {bus : Bus} {spiIsBusy : Bool} {odata : BitVec 8}
    (hne : (next w bus spiIsBusy odata).state ≠ .idle)
    (hlow : (next w bus spiIsBusy odata).ack = false) :
    w.state ≠ .idle ∧ w.ack = false ∨ BackDoor.request bus = true := by
  unfold next at hne hlow
  cases hstate : w.state with
  | idle =>
    simp only [hstate] at hne
    split at hne
    · next hreq => exact .inr hreq
    · exact absurd rfl hne
  | setup lane =>
    simp only [hstate] at hlow
    exact .inl ⟨by simp, hlow⟩
  | rw lane =>
    simp only [hstate, BackDoor.rw] at hlow
    split at hlow
    · cases hlow
    · exact .inl ⟨by simp, hlow⟩
  | done => simp [hstate] at hne

/-- An acknowledge does not rise out of idle. -/
theorem next_ack_rises {w : BackDoor.Registers} {bus : Bus} {spiIsBusy : Bool} {odata : BitVec 8}
    (hlow : w.ack = false) (hack : (next w bus spiIsBusy odata).ack = true) :
    w.state ≠ .idle := by
  intro hidle
  simp only [next, hidle] at hack
  split at hack <;> simp [hlow] at hack

/-- No event, a reset included, leaves an access waiting without its request. -/
theorem requested_step (h : Requested s) (hheld : HeldUntilAck s e) : Requested (s.step e) := by
  intro hne hlow
  have hkeep : s.wbbd.state ≠ .idle → s.wbbd.ack = false →
      BackDoor.request (s.step e).bus = true := fun hne' hlow' ↦ by
    rw [hheld hne' hlow']
    exact h hne' hlow'
  rw [step_wbbd] at hne hlow
  cases e with
  | wbClk =>
    simp only [drive] at hne hlow
    split at hne
    · next hrstn =>
      rw [if_pos hrstn] at hlow
      obtain ⟨hne', hlow'⟩ | hreq := next_waiting hne hlow
      · exact hkeep hne' hlow'
      · exact hreq
    · exact absurd rfl hne
  | wbRstn level =>
    simp only [drive] at hne hlow
    split at hne
    · next hlevel =>
      rw [if_pos hlevel] at hlow
      exact hkeep hne hlow
    · exact absurd rfl hne
  | gpioIn | wishbone | status | porb => exact hkeep hne hlow

/-- The acknowledge rises at a clock, and out of an access. -/
theorem ack_rises (hlow : s.wbbd.ack = false) (hack : (s.step e).wbbd.ack = true) :
    e = .wbClk ∧ s.wbbd.state ≠ .idle := by
  rw [step_wbbd] at hack
  cases e with
  | wbClk =>
    simp only [drive] at hack
    split at hack
    · exact ⟨rfl, next_ack_rises hlow hack⟩
    · simp [reset] at hack
  | wbRstn level =>
    simp only [drive] at hack
    split at hack
    · simp [hlow] at hack
    · simp [reset] at hack
  | gpioIn | wishbone | status | porb => simp [drive, hlow] at hack

/-- Of a master that holds the bus up to its acknowledges, every one answers a request. -/
theorem ack_answers_request (h : Requested s) (hheld : Along step HeldUntilAck s es) :
    Along step (fun t e ↦ t.wbbd.ack = false → (t.step e).wbbd.ack = true →
      e = .wbClk ∧ BackDoor.request t.bus = true) s es := by
  refine (hheld.with_invariant (I := Requested) (fun _ _ ↦ requested_step) h).mono ?_
  rintro t e ⟨hreq, -⟩ hlow hack
  obtain ⟨hclk, hne⟩ := ack_rises hlow hack
  exact ⟨hclk, hreq hne hlow⟩

/-! ## The two laws -/

/-- **The access law.** While the master holds its request, an access makes exactly four register
edges, one for each lane in order, with that lane's address, strobe and, when strobed, data; the
data output ends up with the four bytes read just before these edges. The state machine stays out
of idle up to the acknowledge, which lasts one clock and is followed by idle. If the SPI is never
busy, the acknowledge comes at the eighth clock after the acceptance. From power-on on, with a
master that keeps the bus up to its acknowledges, every acknowledge rises at a clock at which the
bus carries a request for the housekeeping; an idle back door that samples none neither acknowledges
nor makes a register edge, whatever else is on the bus. -/
theorem wishbone_access_law :
    (∀ s, OutOfReset s → s.wbbd.state = .idle → request s.bus = true →
      (∀ es, AccessRun s es → (∀ e ∈ es, e.Held) →
        List.Forall₂ (IsLane (run step s (.wbClk :: es)).wbbd.datO)
            ((List.finRange 4).map fun lane ↦ (lane, s.bus))
            (trace step backDoorEdges s (.wbClk :: es)) ∧
          selected (run step s (.wbClk :: es)).bus = true ∧
          Always step (fun t ↦ t.wbbd.state ≠ .idle) (s.step .wbClk) es ∧
          AckPulse (run step s (.wbClk :: es))) ∧
        ∀ es, (∀ e ∈ es, e.Held) →
          Along step (fun before _ ↦ before.spiIsBusy = false) (s.step .wbClk) es →
          es.count .wbClk ≤ 8 →
            ((run step s (.wbClk :: es)).wbbd.ack = true ↔ es.count .wbClk = 8)) ∧
      (∀ mgmtGpioIn bus status datO es,
        let s := powerOn mgmtGpioIn bus status datO
        Along step HeldUntilAck s es →
          Along step (fun t e ↦ t.wbbd.ack = false → (t.step e).wbbd.ack = true →
            e = .wbClk ∧ request t.bus = true) s es) ∧
      ∀ mgmtGpioIn bus status datO before es,
        let s := run step (powerOn mgmtGpioIn bus status datO) before
        s.OutOfReset → s.wbbd.state = .idle →
        Along step (fun t e ↦ e.Running ∧ (e = .wbClk → request t.bus = false)) s es →
          Always step (fun t ↦ t.wbbd.ack = false ∧ t.wbbd.state = .idle) s es ∧
            trace step backDoorEdges s es = [] := by
  refine ⟨fun s hrst hidle hreq ↦ ⟨fun es h hheld ↦ ?_, fun es hheld hfree hclocks ↦ ?_⟩, ?_, ?_⟩
  · have hacc := (inAccess_accept hrst hidle hreq).1
    have halong := inAccess_along (hrst.step (e := .wbClk) trivial) h.running hacc h.waiting
    have hrstEnd := h.always_outOfReset.last
    obtain ⟨pending', hlast⟩ := halong.last
    refine ⟨h.held_lanes hheld, ?_, halong.mono fun _ ⟨_, hin⟩ ↦ hin.state_ne_idle,
      ack_pulse hrstEnd hlast h.acked⟩
    · have hall : ∀ e ∈ Event.wbClk :: es, e.Held := List.forall_mem_cons.2 ⟨trivial, hheld⟩
      rw [bus_run_of_held hall]
      simp only [BackDoor.request, Bool.and_eq_true] at hreq
      exact hreq.1.1
  · exact ack_iff_eight_clocks hrst hidle hreq (fun e he ↦ (hheld e he).running) hfree hclocks
  · intro mgmtGpioIn bus status datO es s hheld
    exact ack_answers_request (fun hne ↦ absurd rfl hne) hheld
  · intro mgmtGpioIn bus status datO before es s hrst hidle hrun
    exact quiet_of_powerOn rfl hrst hidle hrun

/-- A read of a pad word, with data on the bus. -/
def readExample : Bus where
  adr := 0x26000024#32
  dat := 0x12345678#32
  sel := 0b1111#4
  we := false
  cyc := true
  stb := true

theorem accessRun_readExample :
    AccessRun (released 0x8#38 readExample) (List.replicate 8 .wbClk) where
  outOfReset := by decide
  idle := by decide
  request := by decide
  running := by decide
  waiting := by decide
  acked := by decide

/-- A request outside the housekeeping windows, then the read. -/
def unselectedExample : List Event :=
  [.porb true, .wbRstn true, .wishbone { readExample with adr := 0x30000000#32 }] ++
    List.replicate 2 .wbClk ++ .wishbone readExample :: List.replicate 9 .wbClk

theorem wishbone_access_law_readExample :
    List.Forall₂
        (IsLane (run step (released 0x8#38 readExample) (List.replicate 9 .wbClk)).wbbd.datO)
        ((List.finRange 4).map fun lane ↦ (lane, readExample))
        (trace step backDoorEdges (released 0x8#38 readExample) (List.replicate 9 .wbClk)) ∧
      Along step (fun t e ↦ t.wbbd.ack = false → (t.step e).wbbd.ack = true →
        e = .wbClk ∧ request t.bus = true) (powerOn 0x8#38 default default 0#32)
        unselectedExample ∧
      trace step backDoorEdges
        (run step (powerOn 0x8#38 default default 0#32) (unselectedExample.take 3))
        (List.replicate 2 .wbClk) = [] :=
  ⟨((wishbone_access_law.1 (released 0x8#38 readExample) (by decide) (by decide) (by decide)).1
      (List.replicate 8 .wbClk) accessRun_readExample (by decide)).1,
    wishbone_access_law.2.1 _ _ _ _ unselectedExample (by decide +kernel),
    (wishbone_access_law.2.2 _ _ _ _ (unselectedExample.take 3) (List.replicate 2 .wbClk)
      (by decide) (by decide) (by decide)).2⟩

/-- A lane that is not written presents the data latched by an earlier one. -/
theorem unwritten_lane_data :
    ¬∀ s es, AccessRun s es → (∀ e ∈ es, e.Held) →
      (trace step backDoorEdges s (.wbClk :: es)).map RegisterEdge.cdata =
        (List.finRange 4).map (laneData s.bus) := by
  intro h
  have hread := h _ _ accessRun_readExample (by decide)
  revert hread
  decide

/-- **An accepted access completes.** Whatever the master puts on the bus after the acceptance, the
four lanes are accessed in order, each as the bus asks at the clock leaving its setup state, and
one acknowledge follows: the state machine does not return to idle before it, and it comes at the
eighth clock that finds no setup state waiting for the SPI. From reset on, nothing else makes a
back-door register edge or an acknowledge. -/
theorem accepted_access_completes :
    (∀ s es, AccessRun s es →
      (trace step setupSamples s (.wbClk :: es)).map Prod.fst = List.finRange 4 ∧
        List.Forall₂ (IsLane (run step s (.wbClk :: es)).wbbd.datO)
          (trace step setupSamples s (.wbClk :: es))
          (trace step backDoorEdges s (.wbClk :: es)) ∧
        AckPulse (run step s (.wbClk :: es))) ∧
      (∀ s es, s.OutOfReset → s.wbbd.state = .idle → request s.bus = true →
        (∀ e ∈ es, e.Running) →
        (trace step unstalledClocks (s.step .wbClk) es).length ≤ 8 →
          Always step (fun t ↦ t.wbbd.state ≠ .idle) (s.step .wbClk) es ∧
            ((run step s (.wbClk :: es)).wbbd.ack = true ↔
              (trace step unstalledClocks (s.step .wbClk) es).length = 8)) ∧
      (∀ s es, s.OutOfReset → s.wbbd.state = .idle → request s.bus = true →
        (∀ e ∈ es, e.Running) →
        Along step (fun before _ ↦ before.spiIsBusy = false) (s.step .wbClk) es →
        es.count .wbClk ≤ 8 →
          ((run step s (.wbClk :: es)).wbbd.ack = true ↔ es.count .wbClk = 8)) ∧
      ∀ mgmtGpioIn bus status datO before es,
        let s := run step (powerOn mgmtGpioIn bus status datO) before
        s.OutOfReset → s.wbbd.state = .idle →
        Along step (fun t e ↦ e.Running ∧ (e = .wbClk → request t.bus = false)) s es →
          Always step (fun t ↦ t.wbbd.ack = false ∧ t.wbbd.state = .idle) s es ∧
            trace step backDoorEdges s es = [] := by
  refine ⟨fun s es h ↦ ?_, fun s es hrst hidle hreq hrun hclocks ↦ ?_,
    fun s es hrst hidle hreq hrun hfree hclocks ↦ ?_, ?_⟩
  · have hacc := (inAccess_accept h.outOfReset h.idle h.request).1
    have hrst := h.outOfReset.step (e := .wbClk) trivial
    obtain ⟨pending', hlast⟩ := (inAccess_along hrst h.running hacc h.waiting).last
    exact ⟨h.lanes.1, h.lanes.2, ack_pulse h.always_outOfReset.last hlast h.acked⟩
  · exact ack_iff_eight_unstalled hrst hidle hreq hrun hclocks
  · exact ack_iff_eight_clocks hrst hidle hreq hrun hfree hclocks
  · intro mgmtGpioIn bus status datO before es s hrst hidle hrun
    exact quiet_of_powerOn rfl hrst hidle hrun

/-- A write of a pad word. -/
def writeExample : Bus := { readExample with we := true }

/-- The master lets go of its request and moves outside the housekeeping windows. -/
def abandonedExample : List Event :=
  .wishbone { writeExample with adr := 0x30000000#32, cyc := false, stb := false } ::
    List.replicate 8 .wbClk

theorem accessRun_writeExample :
    AccessRun (released 0x8#38 writeExample) (List.replicate 8 .wbClk) where
  outOfReset := by decide
  idle := by decide
  request := by decide
  running := by decide
  waiting := by decide
  acked := by decide

/-- The SPI is about to write a byte and waits there for its clock. -/
def aboutToWrite : Housekeeping :=
  run step (released 0x8#38 writeExample)
    (csbFalls :: sendByte 0x80#8 ++ sendByte 0x1b#8 ++ (List.replicate 7 (sendBit false)).flatten)

/-- The master lets go while the first setup state waits; then the SPI takes its byte. -/
def abandonedStalled : List Event :=
  abandonedExample ++ sendBit false ++ List.replicate 8 .wbClk

theorem accepted_access_completes_abandonedExample :
    AckPulse (run step (released 0x8#38 writeExample) (.wbClk :: abandonedExample)) ∧
      Always step (fun t ↦ t.wbbd.state ≠ .idle) (aboutToWrite.step .wbClk) abandonedStalled ∧
      (run step aboutToWrite (.wbClk :: abandonedStalled)).wbbd.ack = true := by
  have hstalled := accepted_access_completes.2.1 aboutToWrite abandonedStalled (by decide +kernel)
    (by decide +kernel) (by decide +kernel) (by decide +kernel) (by decide +kernel)
  exact ⟨(accepted_access_completes.1 (released 0x8#38 writeExample) abandonedExample
    { outOfReset := by decide
      idle := by decide
      request := by decide
      running := by decide
      waiting := by decide
      acked := by decide }).2.2, hstalled.1, hstalled.2.2 (by decide +kernel)⟩

/-- After the master has let go, the access still writes and acknowledges. -/
theorem abandoned_access_not_harmless :
    ¬∀ s es es', s.OutOfReset → s.wbbd.state = .idle → request s.bus = true →
      (∀ e ∈ es ++ es', e.Running) → request (run step s (.wbClk :: es)).bus = false →
      Along step (fun before _ ↦ before.wbbd.ack = false) (run step s (.wbClk :: es)) es' →
        (∀ x ∈ trace step backDoorEdges (run step s (.wbClk :: es)) es', x.cwstb = false) ∧
          (run step s (.wbClk :: es ++ es')).wbbd.ack = false := by
  intro h
  have habandoned := h (released 0x8#38 writeExample) (abandonedExample.take 1)
    (abandonedExample.drop 1) (by decide) (by decide) (by decide) (by decide) (by decide)
    (by decide)
  revert habandoned
  decide

end CaravelSoc.Housekeeping
