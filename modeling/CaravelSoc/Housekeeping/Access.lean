import CaravelSoc.Housekeeping.RegisterEdges
import Mathlib.Data.List.FinRange

/-!
# One access through the Wishbone back door

From the clock that accepts a request to its acknowledge, the back door makes one
register edge for each byte lane, in order. Each edge presents the address, data
and strobe that the bus carried at the clock leaving the setup state of its lane;
the SPI pins can delay these clocks but not add, drop or reorder an edge.
-/

open Sequential

namespace CaravelSoc.BackDoor

/-- The lanes whose register edge is still to come. -/
def lanesLeft : State → List (Fin 4)
  | .idle | .done => []
  | .setup lane | .rw lane => (List.finRange 4).drop lane

/-- The clocks to the acknowledge when no setup state stalls. -/
def clocksLeft : State → ℕ
  | .idle | .done => 0
  | .setup lane => 2 * (4 - lane)
  | .rw lane => 2 * (4 - lane) - 1

/-- The address, strobe and data registers hold what `bus` asked of the lane. -/
structure Latched (w : Registers) (lane : Fin 4) (bus : Bus) : Prop where
  addr : w.addr = laneAddr bus lane
  write : w.write = laneWrite bus lane
  data : laneWrite bus lane = true → w.data = laneData bus lane

/-- An accepted access that is not acknowledged yet, or just so. The lane latched by a setup
state waits in `pending` for its register edge. -/
def InAccess (pending : List (Fin 4 × Bus)) (w : Registers) : Prop :=
  match w.state with
  | .idle => False
  | .setup _ => pending = [] ∧ w.ack = false
  | .rw lane =>
    ∃ bus, pending = [(lane, bus)] ∧ Latched w lane bus ∧ w.busy = true ∧ w.sck = false ∧
      w.ack = false
  | .done => pending = [] ∧ w.ack = true

variable {w : Registers} {bus : Bus} {spiIsBusy : Bool} {odata : BitVec 8} {lane : Fin 4}
  {pending : List (Fin 4 × Bus)}

theorem lanesLeft_rw (lane : Fin 4) :
    lanesLeft (.rw lane) = lane :: lanesLeft (if lane = 3 then .done else .setup (lane + 1)) := by
  revert lane
  decide

theorem clocksLeft_rw (lane : Fin 4) :
    clocksLeft (.rw lane) = clocksLeft (if lane = 3 then .done else .setup (lane + 1)) + 1 := by
  revert lane
  decide

theorem clocksLeft_setup (lane : Fin 4) : clocksLeft (.setup lane) = clocksLeft (.rw lane) + 1 := by
  revert lane
  decide

theorem InAccess.state_ne_idle (h : InAccess pending w) : w.state ≠ .idle := by
  intro hidle
  simp [InAccess, hidle] at h

theorem InAccess.ack_iff (h : InAccess pending w) : w.ack = true ↔ clocksLeft w.state = 0 := by
  unfold InAccess at h
  split at h
  · exact h.elim
  · next lane hstate =>
    rw [h.2, hstate, clocksLeft_setup]
    simp
  · next lane hstate =>
    obtain ⟨_, _, _, _, _, hack⟩ := h
    rw [hack, hstate, clocksLeft_rw]
    simp
  · next hstate =>
    rw [h.2, hstate]
    simp [clocksLeft]

theorem next_idle (hstate : w.state = .idle) (hreq : request bus = true) :
    InAccess [] (next w bus spiIsBusy odata) ∧
      (next w bus spiIsBusy odata).state = .setup 0 := by
  simp [next, hstate, hreq, InAccess]

theorem next_setup (hstate : w.state = .setup lane) :
    next w bus spiIsBusy odata = setup w bus spiIsBusy lane := by
  simp [next, hstate]

theorem next_rw (hstate : w.state = .rw lane) : next w bus spiIsBusy odata = rw w odata lane := by
  simp [next, hstate]

theorem latched_setup : Latched (setup w bus spiIsBusy lane) lane bus where
  addr := rfl
  write := rfl
  data h := by simp [setup, h]

theorem inAccess_setup_busy (hack : w.ack = false) : InAccess [] (setup w bus true lane) :=
  ⟨rfl, hack⟩

theorem inAccess_setup (hack : w.ack = false) :
    InAccess [(lane, bus)] (setup w bus false lane) :=
  ⟨bus, rfl, latched_setup, rfl, rfl, hack⟩

theorem inAccess_rw (hack : w.ack = false) : InAccess [] (rw w odata lane) := by
  by_cases hlast : lane = 3
  · simp [InAccess, rw, hlast]
  · simp [InAccess, rw, hlast, hack]

end CaravelSoc.BackDoor

namespace CaravelSoc.Housekeeping

open BackDoor

/-- The lane and bus that a clock edge latches when it leaves a setup state. -/
def setupSamples (s : Housekeeping) : Event → List (Fin 4 × Bus)
  | .wbClk =>
    match s.wbbd.state with
    | .setup lane => if s.spiIsBusy then [] else [(lane, s.bus)]
    | .idle | .rw _ | .done => []
  | .gpioIn _ _ | .wishbone _ | .status _ | .wbRstn _ | .porb _ => []

/-- The register edge of one lane: address, strobe and data are the bus's, and the byte read is
the one that the data output holds in the end. -/
structure IsLane (datO : BitVec 32) (sample : Fin 4 × Bus) (x : RegisterEdge) : Prop where
  caddr : x.caddr = laneAddr sample.2 sample.1
  cwstb : x.cwstb = laneWrite sample.2 sample.1
  cdata : laneWrite sample.2 sample.1 = true → x.cdata = laneData sample.2 sample.1
  read : datO.extractLsb' (8 * sample.1) 8 = x.before

variable {s : Housekeeping} {e : Event} {lane : Fin 4}

theorem setupSamples_of_ne_wbClk (he : e ≠ .wbClk) : s.setupSamples e = [] := by
  cases e <;> first | rfl | exact absurd rfl he

/-- Between clock edges the back door holds the register clock still. -/
theorem backDoorEdges_of_ne_wbClk (he : e ≠ .wbClk) (hrun : e.Running) :
    s.backDoorEdges e = [] := by
  have hwbbd := drive_wbbd_of_ne_wbClk (s := s) he hrun
  cases hbusy : s.wbbd.busy
  · rw [backDoorEdges, registerEdges]
    split <;> simp [hwbbd, hbusy]
  · have hrises : csclkRises s (s.drive e) = false := by simp [csclkRises, csclk, hwbbd, hbusy]
    simp [backDoorEdges, registerEdges, hrises]

/-- A clock after which the back-door clock is low, or its port is closed, makes no edge. -/
theorem backDoorEdges_wbClk_of_low (h : ((s.drive .wbClk).wbbd.busy &&
    (s.drive .wbClk).wbbd.sck) = false) : s.backDoorEdges .wbClk = [] := by
  rw [backDoorEdges, registerEdges]
  cases hbusy : (s.drive .wbClk).wbbd.busy
  · split <;> simp
  · have hsck : (s.drive .wbClk).wbbd.sck = false := by simpa [hbusy] using h
    simp [csclkRises, csclk, hbusy, hsck]

theorem backDoorEdges_setup (hrst : s.OutOfReset) (hstate : s.wbbd.state = .setup lane) :
    s.backDoorEdges .wbClk = [] := by
  apply backDoorEdges_wbClk_of_low
  simp [drive_wbbd_wbClk hrst.1, next_setup hstate, setup]

theorem backDoorEdges_idle (hrst : s.OutOfReset) (hstate : s.wbbd.state = .idle) :
    s.backDoorEdges .wbClk = [] := by
  apply backDoorEdges_wbClk_of_low
  simp only [drive_wbbd_wbClk hrst.1, next, hstate]
  split <;> simp

theorem backDoorEdges_done (hrst : s.OutOfReset) (hstate : s.wbbd.state = .done) :
    s.backDoorEdges .wbClk = [] := by
  apply backDoorEdges_wbClk_of_low
  simp [drive_wbbd_wbClk hrst.1, next, hstate]

/-- An access state makes exactly one edge, from the latched registers. -/
theorem backDoorEdges_rw (hrst : s.OutOfReset) (hstate : s.wbbd.state = .rw lane)
    (hbusy : s.wbbd.busy = true) (hsck : s.wbbd.sck = false) :
    s.backDoorEdges .wbClk =
      [{ backDoor := true, caddr := s.wbbd.addr, cdata := s.wbbd.data, cwstb := s.wbbd.write
         spiIsActive := s.spiIsActive, before := s.odata }] := by
  have hwbbd := (drive_wbbd_wbClk hrst.1).trans (next_rw hstate)
  have hporb : (s.drive .wbClk).porb = true := hrst.2
  have hrises : csclkRises s (s.drive .wbClk) = true := by
    simp [csclkRises, csclk, hwbbd, rw, hbusy, hsck, hporb]
  simp only [backDoorEdges, registerEdges, hrises, if_true]
  simp [caddr, cdata, cwstb, hwbbd, rw, odata, hbusy]
  rfl

theorem IsLane.of_read_eq {datO datO' : BitVec 32} {sample : Fin 4 × Bus} {x : RegisterEdge}
    (h : IsLane datO sample x)
    (hread : datO'.extractLsb' (8 * sample.1) 8 = datO.extractLsb' (8 * sample.1) 8) :
    IsLane datO' sample x :=
  ⟨h.caddr, h.cwstb, h.cdata, hread.trans h.read⟩

/-- A strobed lane writes its row. -/
theorem IsLane.apply_of_strobed {datO : BitVec 32} {bus : Bus} {x : RegisterEdge}
    (h : IsLane datO (lane, bus) x) (hstrobe : laneWrite bus lane = true)
    (r : RegisterMap.Registers) :
    x.apply r =
      (RegisterMap.writeRow (laneAddr bus lane)).write r (laneData bus lane) x.spiIsActive := by
  rw [RegisterEdge.apply, RegisterMap.posedgeCsclk, if_pos (h.cwstb.trans hstrobe), h.caddr,
    h.cdata hstrobe]

/-- What one event of an access does: the lanes `served` make their register edges, those still
latched wait in `pending'`, and the bytes of the other lanes stay as they are. -/
def Serves (s : Housekeeping) (e : Event) (pending : List (Fin 4 × Bus)) : Prop :=
  ∃ served pending', pending ++ s.setupSamples e = served ++ pending' ∧
    InAccess pending' (s.step e).wbbd ∧
    lanesLeft s.wbbd.state = served.map Prod.fst ++ lanesLeft (s.step e).wbbd.state ∧
    List.Forall₂ (IsLane (s.step e).wbbd.datO) served (s.backDoorEdges e) ∧
    ∀ lane ∉ served.map Prod.fst,
      (s.step e).wbbd.datO.extractLsb' (8 * lane) 8 = s.wbbd.datO.extractLsb' (8 * lane) 8

theorem serves_setup (hrst : s.OutOfReset) (hstate : s.wbbd.state = .setup lane)
    (hlow : s.wbbd.ack = false) : Serves s .wbClk [] := by
  have hwbbd : (s.step .wbClk).wbbd = setup s.wbbd s.bus s.spiIsBusy lane :=
    (drive_wbbd_wbClk hrst.1).trans (next_setup hstate)
  have hedges := backDoorEdges_setup hrst hstate
  cases hbusy : s.spiIsBusy
  · rw [hbusy] at hwbbd
    refine ⟨[], [(lane, s.bus)], ?_, ?_, ?_, ?_, fun _ _ ↦ ?_⟩
    · simp [setupSamples, hstate, hbusy]
    · rw [hwbbd]
      exact inAccess_setup hlow
    · rw [hwbbd, hstate]
      rfl
    · simp [hedges]
    · rw [hwbbd]
      rfl
  · rw [hbusy] at hwbbd
    refine ⟨[], [], ?_, ?_, ?_, ?_, fun _ _ ↦ ?_⟩
    · simp [setupSamples, hstate, hbusy]
    · rw [hwbbd]
      exact inAccess_setup_busy hlow
    · rw [hwbbd, hstate]
      rfl
    · simp [hedges]
    · rw [hwbbd]
      rfl

theorem serves_rw {bus : Bus} (hrst : s.OutOfReset) (hstate : s.wbbd.state = .rw lane)
    (hlatched : Latched s.wbbd lane bus) (hbusy : s.wbbd.busy = true) (hsck : s.wbbd.sck = false)
    (hlow : s.wbbd.ack = false) : Serves s .wbClk [(lane, bus)] := by
  have hwbbd : (s.step .wbClk).wbbd = rw s.wbbd s.odata lane :=
    (drive_wbbd_wbClk hrst.1).trans (next_rw hstate)
  refine ⟨[(lane, bus)], [], ?_, ?_, ?_, ?_, fun other hother ↦ ?_⟩
  · simp [setupSamples, hstate]
  · rw [hwbbd]
    exact inAccess_rw hlow
  · rw [hwbbd, hstate]
    exact lanesLeft_rw lane
  · rw [backDoorEdges_rw hrst hstate hbusy hsck, hwbbd]
    refine .cons ⟨hlatched.addr, hlatched.write, hlatched.data, ?_⟩ .nil
    exact extractLsb'_setPart_self _ _ _ (by simp only; omega)
  · rw [hwbbd]
    apply extractLsb'_setPart_of_disjoint
    have hne : (other : ℕ) ≠ lane := fun h ↦ hother (by simp [Fin.ext h])
    omega

/-- The step lemma of an access. -/
theorem serves_step {pending : List (Fin 4 × Bus)} (hrst : s.OutOfReset) (hrun : e.Running)
    (hacc : InAccess pending s.wbbd) (hlow : s.wbbd.ack = false) : Serves s e pending := by
  by_cases he : e = .wbClk
  · subst he
    unfold InAccess at hacc
    split at hacc
    · exact hacc.elim
    · next lane hstate =>
      obtain ⟨rfl, -⟩ := hacc
      exact serves_setup hrst hstate hlow
    · next lane hstate =>
      obtain ⟨bus, rfl, hlatched, hbusy, hsck, -⟩ := hacc
      exact serves_rw hrst hstate hlatched hbusy hsck hlow
    · simp [hacc.2] at hlow
  · have hwbbd : (s.step e).wbbd = s.wbbd := drive_wbbd_of_ne_wbClk he hrun
    refine ⟨[], pending, ?_, hwbbd ▸ hacc, by rw [hwbbd]; rfl, ?_, fun _ _ ↦ by rw [hwbbd]⟩
    · rw [setupSamples_of_ne_wbClk he, List.append_nil, List.nil_append]
    · rw [backDoorEdges_of_ne_wbClk he hrun]
      exact .nil

theorem nodup_lanesLeft (state : BackDoor.State) : (lanesLeft state).Nodup := by
  cases state with
  | idle | done => exact List.nodup_nil
  | setup lane | rw lane => exact (List.nodup_finRange 4).sublist (List.drop_sublist _ _)

/-- **One access.** From any point of an accepted access to its acknowledge, with no reset, the
lanes still to come are latched in order and each makes one register edge; the data output holds
the bytes read there and keeps the others. -/
theorem access_run {pending : List (Fin 4 × Bus)} {es : List Event} (hrst : s.OutOfReset)
    (hrun : ∀ e ∈ es, e.Running) (hacc : InAccess pending s.wbbd)
    (hwait : Along step (fun before _ ↦ before.wbbd.ack = false) s es)
    (hack : (run step s es).wbbd.ack = true) :
    (pending ++ trace step setupSamples s es).map Prod.fst = lanesLeft s.wbbd.state ∧
      List.Forall₂ (IsLane (run step s es).wbbd.datO) (pending ++ trace step setupSamples s es)
        (trace step backDoorEdges s es) ∧
      ∀ lane ∉ lanesLeft s.wbbd.state,
        (run step s es).wbbd.datO.extractLsb' (8 * lane) 8 =
          s.wbbd.datO.extractLsb' (8 * lane) 8 := by
  induction es generalizing s pending with
  | nil =>
    have hack' : s.wbbd.ack = true := hack
    unfold InAccess at hacc
    split at hacc
    · exact hacc.elim
    · simp [hacc.2] at hack'
    · obtain ⟨_, _, _, _, _, hlow⟩ := hacc
      simp [hlow] at hack'
    · next hstate =>
      rw [hacc.1, hstate]
      exact ⟨rfl, .nil, fun _ _ ↦ rfl⟩
  | cons e rest ih =>
    have hrune : e.Running := hrun e List.mem_cons_self
    obtain ⟨served, pending', hsplit, hacc', hlanes, hedges, hkeep⟩ :=
      serves_step hrst hrune hacc hwait.1
    obtain ⟨hlanes', hedges', hkeep'⟩ := ih (hrst.step hrune)
      (fun other hother ↦ hrun other (List.mem_cons_of_mem _ hother)) hacc' hwait.2 hack
    have hnodup : (served.map Prod.fst ++ lanesLeft (s.step e).wbbd.state).Nodup :=
      hlanes ▸ nodup_lanesLeft _
    have hsamples : pending ++ trace step setupSamples s (e :: rest) =
        served ++ (pending' ++ trace step setupSamples (s.step e) rest) := by
      rw [trace, ← List.append_assoc, hsplit, List.append_assoc]
    refine ⟨?_, ?_, fun lane hlane ↦ ?_⟩
    · rw [hsamples, List.map_append, hlanes', ← hlanes]
    · rw [hsamples, trace]
      refine List.rel_append ?_ hedges'
      refine List.forall₂_iff_get.2 ⟨hedges.length_eq, fun i h h' ↦ ?_⟩
      refine (hedges.get h h').of_read_eq (hkeep' _ fun hmem ↦ ?_)
      exact List.disjoint_of_nodup_append hnodup
        (List.mem_map_of_mem (List.get_mem served ⟨i, h⟩)) hmem
    · rw [hlanes, List.mem_append, not_or] at hlane
      exact (hkeep' lane hlane.2).trans (hkeep lane hlane.1)

/-! ## No access in progress -/

/-- The back door rests with its port closed, and nothing is requested. -/
structure Parked (s : Housekeeping) : Prop where
  outOfReset : s.OutOfReset
  idle : s.wbbd.state = .idle
  closed : s.wbbd.busy = false
  noRequest : request s.bus = false

instance : DecidablePred Parked := fun s ↦
  decidable_of_iff (s.OutOfReset ∧ s.wbbd.state = .idle ∧ s.wbbd.busy = false ∧
    request s.bus = false) ⟨fun h ↦ ⟨h.1, h.2.1, h.2.2.1, h.2.2.2⟩, fun h ↦ ⟨h.1, h.2, h.3, h.4⟩⟩

theorem Parked.drive_wbbd (h : Parked s) (hrun : e.Running) : (s.drive e).wbbd = s.wbbd := by
  by_cases he : e = .wbClk
  · subst he
    rw [drive_wbbd_wbClk h.outOfReset.1, next, h.idle]
    simp only [h.noRequest, Bool.false_eq_true, if_false]
    rw [← h.closed, ← h.idle]
  · exact drive_wbbd_of_ne_wbClk he hrun

theorem Parked.step (h : Parked s) (hrun : e.Running) (hreq : request (s.step e).bus = false) :
    Parked (s.step e) := by
  have hwbbd : (s.step e).wbbd = s.wbbd := h.drive_wbbd hrun
  exact ⟨h.outOfReset.step hrun, hwbbd ▸ h.idle, hwbbd ▸ h.closed, hreq⟩

/-- A parked back door leaves the register clock to the pins. -/
theorem Parked.registerEdges_of_pins (h : Parked s) (hrun : e.Running)
    (hpins : (s.drive e).mgmtGpioIn = s.mgmtGpioIn) : s.registerEdges e = [] := by
  have hclk : (s.drive e).csclk = s.csclk := by
    simp [csclk, h.drive_wbbd hrun, spiIsActive, spiIsEnabled, csbPin, sck, hpins]
  simp [registerEdges, csclkRises, hclk]

theorem Parked.step_wbClk (h : Parked s) :
    Parked (s.step .wbClk) ∧ s.registerEdges .wbClk = [] ∧ (s.step .wbClk).regs = s.regs := by
  have hedges : s.registerEdges .wbClk = [] := h.registerEdges_of_pins trivial rfl
  refine ⟨h.step trivial h.noRequest, hedges, ?_⟩
  rw [step_regs (h.outOfReset.step (e := .wbClk) trivial).2, hedges]
  rfl

end CaravelSoc.Housekeeping
