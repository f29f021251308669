import CaravelSoc.Housekeeping.PadAccess

/-!
# Half-written pad configurations

A word written to `reg_mprj_io_k` arrives in two bytes, at the clocks that leave
the first and the second access state. In between, for the two clocks that leave
the second setup state and the second access state, `gpio_configure[k]` holds the
new low byte under the old upper bits. This file follows one configuration word
through any interleaving of such writes with other accesses.
-/

open Sequential

namespace CaravelSoc

/-- A write to a byte of `gpio_configure`, or one that enables bit-bang. -/
def RegisterEdge.reconfigures (x : RegisterEdge) : Bool :=
  x.cwstb && (RegisterMap.isGpioConfigure x.caddr || (x.caddr == 0x13#8 && x.cdata.getLsbD 1))

section Edge

variable {x : RegisterEdge} {r : RegisterMap.Registers}

theorem RegisterEdge.gpioConfigure_apply (hx : x.reconfigures = false) :
    (x.apply r).gpioConfigure = r.gpioConfigure := by
  rw [RegisterEdge.apply, RegisterMap.posedgeCsclk]
  split
  · next hstrobe =>
    simp only [reconfigures, hstrobe, Bool.true_and, Bool.or_eq_false_iff] at hx
    exact RegisterMap.gpioConfigure_write_of_not _ _ _ hx.1
  · rfl

theorem RegisterEdge.serialBbEnable_apply (hx : x.reconfigures = false)
    (hbb : r.serialBbEnable = false) : (x.apply r).serialBbEnable = false := by
  rw [RegisterEdge.apply, RegisterMap.posedgeCsclk]
  split
  · next hstrobe =>
    simp only [reconfigures, hstrobe, Bool.true_and, Bool.or_eq_false_iff] at hx
    rw [RegisterMap.serialBbEnable_write]
    split
    · next hrow =>
      have haddr := (RegisterMap.writeRow_eq_gpioControl_iff _).1 hrow
      simpa [haddr] using hx.2
    · exact hbb
  · exact hbb

theorem RegisterEdge.foldl_apply_of_not_reconfigures {edges : List RegisterEdge}
    (hedges : ∀ x ∈ edges, x.reconfigures = false) :
    (edges.foldl RegisterEdge.apply r).gpioConfigure = r.gpioConfigure ∧
      (r.serialBbEnable = false →
        (edges.foldl RegisterEdge.apply r).serialBbEnable = false) := by
  induction edges generalizing r with
  | nil => exact ⟨rfl, id⟩
  | cons x rest ih =>
    rw [List.forall_mem_cons] at hedges
    obtain ⟨hconfigure, hbb⟩ := ih (r := x.apply r) hedges.2
    exact ⟨hconfigure.trans (gpioConfigure_apply hedges.1),
      fun h ↦ hbb (serialBbEnable_apply hedges.1 h)⟩

end Edge

namespace Housekeeping

open BackDoor RegisterMap

/-! ## The accesses -/

/-- The bus carries a word write to `reg_mprj_io_k`. -/
def writesPad (bus : Bus) (pad : Fin mprjIoPads) : Bool :=
  bus.we && (bus.sel == 0b1111#4 && bus.adr == regMprjIo pad)

/-- The bus carries a word write to a pad, or nothing that configures a pad or enables
bit-bang. -/
def Whole (bus : Bus) : Prop :=
  (∃ pad, writesPad bus pad = true) ∨
    ∀ lane, laneWrite bus lane = true → isGpioConfigure (laneAddr bus lane) = false ∧
      (laneAddr bus lane == 0x13#8 && (laneData bus lane).getLsbD 1) = false

/-- An access in progress is whole, and an access state has latched its lane. -/
structure HeldAccess (s : Housekeeping) : Prop where
  whole : s.wbbd.state ≠ .idle → s.wbbd.state ≠ .done → Whole s.bus
  latched : ∀ lane, s.wbbd.state = .rw lane →
    Latched s.wbbd lane s.bus ∧ s.wbbd.busy = true ∧ s.wbbd.sck = false

/-- Whole accesses whose master holds the bus up to the acknowledge, and an SPI that does not
reconfigure. -/
structure Interleaved (s : Housekeeping) (e : Event) : Prop where
  running : e.Running
  held : e.Held ∨ s.wbbd.state = .idle ∨ s.wbbd.state = .done
  whole : e = .wbClk → s.wbbd.state = .idle → request s.bus = true → Whole s.bus
  spi : ∀ x ∈ s.spiEdges e, x.reconfigures = false

instance : DecidablePred Whole := fun _ ↦ instDecidableOr

instance (s : Housekeeping) (e : Event) : Decidable (Interleaved s e) :=
  decidable_of_iff (e.Running ∧ (e.Held ∨ s.wbbd.state = .idle ∨ s.wbbd.state = .done) ∧
    (e = .wbClk → s.wbbd.state = .idle → request s.bus = true → Whole s.bus) ∧
    ∀ x ∈ s.spiEdges e, x.reconfigures = false)
    ⟨fun h ↦ ⟨h.1, h.2.1, h.2.2.1, h.2.2.2⟩, fun h ↦ ⟨h.1, h.2, h.3, h.4⟩⟩

/-- The byte of lane 0 has been accessed and that of lane 1 has not. -/
def betweenBytes : BackDoor.State → Bool
  | .setup lane | .rw lane => lane == 1
  | .idle | .done => false

/-- The low byte of a word write to the pad has arrived and the upper bits have not. -/
def halfWritten (pad : Fin mprjIoPads) (s : Housekeeping) : Bool :=
  betweenBytes s.wbbd.state && writesPad s.bus pad

/-- The word whose write to the pad is completed by the event, if any. -/
def completedWords (pad : Fin mprjIoPads) (s : Housekeeping) (e : Event) : List (BitVec 13) :=
  if e = .wbClk ∧ s.wbbd.state = .rw 1 ∧ writesPad s.bus pad = true then
    [s.bus.dat.extractLsb' 0 13]
  else []

/-- `gpio_configure` of the pad, if `word` is its last complete value. -/
def shownWord (pad : Fin mprjIoPads) (word : BitVec 13) (s : Housekeeping) : BitVec 13 :=
  if s.halfWritten pad then setPart word 0 (s.bus.dat.extractLsb' 0 8) else word

variable {s : Housekeeping} {e : Event} {pad : Fin mprjIoPads} {word : BitVec 13}

/-! ## One event -/

/-- Without an edge of the back door the configuration stays. -/
theorem configure_step_of_spi (hporb : (s.step e).porb = true) (hback : s.backDoorEdges e = [])
    (hspi : ∀ x ∈ s.spiEdges e, x.reconfigures = false) :
    (s.step e).regs.gpioConfigure = s.regs.gpioConfigure ∧
      (s.regs.serialBbEnable = false → (s.step e).regs.serialBbEnable = false) := by
  have hall : ∀ x ∈ s.registerEdges e, x.reconfigures = false := by
    intro x hx
    cases hfront : x.backDoor with
    | false => exact hspi x (List.mem_filter.2 ⟨hx, by simp [hfront]⟩)
    | true =>
      have hmem : x ∈ s.backDoorEdges e := List.mem_filter.2 ⟨hx, hfront⟩
      simp [hback] at hmem
  rw [step_regs hporb]
  exact RegisterEdge.foldl_apply_of_not_reconfigures hall

/-- Between the clocks an access stays as it is. -/
theorem Interleaved.unclocked (he : Interleaved s e) (hclk : e ≠ .wbClk) :
    (s.step e).wbbd = s.wbbd ∧
      ((s.step e).bus = s.bus ∨ s.wbbd.state = .idle ∨ s.wbbd.state = .done) :=
  ⟨drive_wbbd_of_ne_wbClk hclk he.running, he.held.imp_left fun hheld ↦ drive_bus_of_held hheld⟩

theorem HeldAccess.step_wbClk (h : HeldAccess s) (hrst : s.OutOfReset)
    (he : Interleaved s .wbClk) : HeldAccess (s.step .wbClk) := by
  have hwbbd : (s.step .wbClk).wbbd = next s.wbbd s.bus s.spiIsBusy s.odata :=
    drive_wbbd_wbClk hrst.1
  have hbus : (s.step .wbClk).bus = s.bus := rfl
  cases hstate : s.wbbd.state with
  | idle =>
    cases hreq : request s.bus with
    | false =>
      rw [next, hstate, hreq] at hwbbd
      constructor <;> simp [-step_wbbd, hwbbd]
    | true =>
      rw [next, hstate, hreq] at hwbbd
      refine ⟨fun _ _ ↦ hbus ▸ he.whole rfl hstate hreq, ?_⟩
      simp [-step_wbbd, hwbbd]
  | setup lane =>
    rw [next_setup hstate] at hwbbd
    refine ⟨fun _ _ ↦ hbus ▸ h.whole (by simp [hstate]) (by simp [hstate]), ?_⟩
    intro lane' hrw
    obtain rfl : lane = lane' := by
      rw [hwbbd, setup] at hrw
      cases hbusy : s.spiIsBusy <;> simp_all
    rw [hwbbd, hbus]
    exact ⟨latched_setup, rfl, rfl⟩
  | rw lane =>
    rw [next_rw hstate] at hwbbd
    refine ⟨fun _ _ ↦ hbus ▸ h.whole (by simp [hstate]) (by simp [hstate]), ?_⟩
    intro lane' hrw
    rw [hwbbd, BackDoor.rw] at hrw
    by_cases hlast : lane = 3 <;> simp [hlast] at hrw
  | done =>
    rw [next, hstate] at hwbbd
    constructor <;> simp [-step_wbbd, hwbbd]

theorem HeldAccess.step (h : HeldAccess s) (hrst : s.OutOfReset) (he : Interleaved s e) :
    HeldAccess (s.step e) := by
  by_cases hclk : e = .wbClk
  · subst hclk
    exact h.step_wbClk hrst he
  · obtain ⟨hwbbd, hsame | hidle | hdone⟩ := he.unclocked hclk
    · constructor
      · rw [hwbbd, hsame]
        exact h.whole
      · rw [hwbbd, hsame]
        exact h.latched
    · rw [← hwbbd] at hidle
      constructor <;> simp [-step_wbbd, hidle]
    · rw [← hwbbd] at hdone
      constructor <;> simp [-step_wbbd, hdone]

/-- Only an access state changes what is shown. -/
theorem shownWord_step (hrst : s.OutOfReset) (he : Interleaved s e)
    (hrw : e = .wbClk → ∀ lane, s.wbbd.state ≠ .rw lane) :
    (s.step e).shownWord pad word = s.shownWord pad word := by
  by_cases hclk : e = .wbClk
  · subst hclk
    have hwbbd : (s.drive .wbClk).wbbd = next s.wbbd s.bus s.spiIsBusy s.odata :=
      drive_wbbd_wbClk hrst.1
    have hbus : (s.step .wbClk).bus = s.bus := rfl
    have hhalf : (s.step .wbClk).halfWritten pad = s.halfWritten pad := by
      cases hstate : s.wbbd.state with
      | rw lane => exact absurd hstate (hrw rfl lane)
      | idle =>
        cases hreq : request s.bus <;>
          simp [halfWritten, betweenBytes, hwbbd, next, hstate, hreq]
      | setup lane =>
        rw [next_setup hstate] at hwbbd
        cases hbusy : s.spiIsBusy <;>
          simp [halfWritten, betweenBytes, hwbbd, hbus, setup, hstate, hbusy]
      | done => simp [halfWritten, betweenBytes, hwbbd, next, hstate]
    rw [shownWord, shownWord, hhalf, hbus]
  · obtain ⟨hwbbd, hsame | hidle | hdone⟩ := he.unclocked hclk
    · unfold shownWord halfWritten
      rw [hwbbd, hsame]
    · simp [-step_wbbd, shownWord, halfWritten, betweenBytes, hwbbd, hidle]
    · simp [-step_wbbd, shownWord, halfWritten, betweenBytes, hwbbd, hdone]

/-! ## The lanes of a word write -/

section Lanes

variable {bus : Bus} {pad' : Fin mprjIoPads} {lane : Fin 4}

theorem writesPad_iff :
    writesPad bus pad = true ↔ bus.we = true ∧ bus.sel = 0b1111#4 ∧ bus.adr = regMprjIo pad := by
  simp [writesPad]

theorem laneWrite_of_writesPad (h : writesPad bus pad = true) (lane : Fin 4) :
    laneWrite bus lane = true := by
  obtain ⟨hwe, hsel, -⟩ := writesPad_iff.1 h
  rw [laneWrite, hsel, hwe, Bool.and_true]
  revert lane
  decide

/-- The rows that the four lanes write. -/
theorem writeRow_of_writesPad (h : writesPad bus pad = true) :
    writeRow (laneAddr bus 0) = .gpioConfigureLow pad ∧
      writeRow (laneAddr bus 1) = .gpioConfigureHigh pad ∧
      writeRow (laneAddr bus 2) = .unmapped ∧ writeRow (laneAddr bus 3) = .unmapped := by
  obtain ⟨h₀, h₁, h₂, h₃⟩ := spiaddr_regMprjIo pad
  obtain ⟨hlow, hhigh⟩ := writeRow_gpioConfigure pad
  have hadr : ∀ lane : Fin 4,
      laneAddr bus lane = spiaddr (regMprjIo pad + BitVec.ofNat 32 lane.val) :=
    fun lane ↦ by rw [laneAddr, (writesPad_iff.1 h).2.2]
  rw [hadr, hadr, hadr, hadr, h₀, h₁, h₂, h₃]
  exact ⟨hlow, hhigh, rfl, rfl⟩

theorem lane_cases : ∀ lane : Fin 4, lane = 0 ∨ lane = 1 ∨ lane = 2 ∨ lane = 3 := by
  decide

/-- What the lanes of a word write do to their own pad. -/
theorem gpioConfigure_lanes (h : writesPad bus pad = true) (r : RegisterMap.Registers)
    (spiIsActive : Bool) :
    ((writeRow (laneAddr bus 0)).write r (laneData bus 0) spiIsActive).gpioConfigure pad =
        setPart (r.gpioConfigure pad) 0 (bus.dat.extractLsb' 0 8) ∧
      ((writeRow (laneAddr bus 1)).write r (laneData bus 1) spiIsActive).gpioConfigure pad =
        setPart (r.gpioConfigure pad) 8 ((bus.dat.extractLsb' 8 8).extractLsb' 0 5) ∧
      ((writeRow (laneAddr bus 2)).write r (laneData bus 2) spiIsActive).gpioConfigure pad =
        r.gpioConfigure pad ∧
      ((writeRow (laneAddr bus 3)).write r (laneData bus 3) spiIsActive).gpioConfigure pad =
        r.gpioConfigure pad := by
  obtain ⟨h₀, h₁, h₂, h₃⟩ := writeRow_of_writesPad h
  rw [h₀, h₁, h₂, h₃]
  exact ⟨Function.update_self _ _ _, Function.update_self _ _ _, rfl, rfl⟩

/-- A lane of a word write changes no other pad, and does not enable bit-bang. -/
theorem write_of_writesPad (h : writesPad bus pad' = true) (r : RegisterMap.Registers)
    (cdata : BitVec 8) (spiIsActive : Bool) (lane : Fin 4) (pad : Fin mprjIoPads) :
    (pad ≠ pad' → ((writeRow (laneAddr bus lane)).write r cdata spiIsActive).gpioConfigure pad =
        r.gpioConfigure pad) ∧
      ((writeRow (laneAddr bus lane)).write r cdata spiIsActive).serialBbEnable =
        r.serialBbEnable := by
  obtain ⟨h₀, h₁, h₂, h₃⟩ := writeRow_of_writesPad h
  rcases lane_cases lane with rfl | rfl | rfl | rfl
  · rw [h₀]
    exact ⟨fun hne ↦ Function.update_of_ne hne _ _, rfl⟩
  · rw [h₁]
    exact ⟨fun hne ↦ Function.update_of_ne hne _ _, rfl⟩
  · rw [h₂]
    exact ⟨fun _ ↦ rfl, rfl⟩
  · rw [h₃]
    exact ⟨fun _ ↦ rfl, rfl⟩

/-- A whole access either writes a word to a pad, or its edges do not reconfigure. -/
theorem Whole.cases (h : Whole bus) :
    (∃ pad, writesPad bus pad = true) ∨
      (∀ pad, writesPad bus pad = false) ∧ ∀ x : RegisterEdge, ∀ lane,
        x.caddr = laneAddr bus lane → x.cwstb = laneWrite bus lane →
        (laneWrite bus lane = true → x.cdata = laneData bus lane) → x.reconfigures = false := by
  rcases h with hpad | hother
  · exact .inl hpad
  · right
    constructor
    · intro pad
      rw [← Bool.not_eq_true]
      intro hpad
      have haddress := (isGpioConfigure_address pad).2
      rw [← (spiaddr_regMprjIo pad).1, ← (writesPad_iff.1 hpad).2.2] at haddress
      have hlane := (hother 0 (laneWrite_of_writesPad hpad 0)).1
      rw [laneAddr, haddress] at hlane
      exact absurd hlane (by decide)
    · intro x lane haddr hstrobe hdata
      rw [RegisterEdge.reconfigures, hstrobe]
      cases hwrite : laneWrite bus lane with
      | false => rfl
      | true =>
        obtain ⟨hconfigure, hbb⟩ := hother lane hwrite
        rw [haddr, hdata hwrite, hconfigure, hbb]
        rfl

end Lanes

theorem shownWord_of_not_writesPad (h : writesPad s.bus pad = false) :
    s.shownWord pad word = word := by
  rw [shownWord, halfWritten, h, Bool.and_false]
  rfl

/-- The clock of an access state makes the edge of its lane. -/
theorem regs_step_rw (hrst : s.OutOfReset) (hheld : HeldAccess s) {lane : Fin 4}
    (hstate : s.wbbd.state = .rw lane) :
    ∃ x : RegisterEdge, (s.step .wbClk).regs = x.apply s.regs ∧
      x.caddr = laneAddr s.bus lane ∧ x.cwstb = laneWrite s.bus lane ∧
      (laneWrite s.bus lane = true → x.cdata = laneData s.bus lane) := by
  obtain ⟨hlatched, hbusy, hsck⟩ := hheld.latched lane hstate
  have hedge := registerEdges_of_backDoorEdges (backDoorEdges_rw hrst hstate hbusy hsck)
  refine ⟨{ backDoor := true, caddr := s.wbbd.addr, cdata := s.wbbd.data, cwstb := s.wbbd.write
            spiIsActive := s.spiIsActive, before := s.odata },
    ?_, hlatched.addr, hlatched.write, hlatched.data⟩
  rw [step_regs (hrst.step (e := .wbClk) trivial).2, hedge, List.foldl_cons, List.foldl_nil]

theorem halfWritten_step_rw (hrst : s.OutOfReset) {lane : Fin 4}
    (hstate : s.wbbd.state = .rw lane) (pad : Fin mprjIoPads) :
    (s.step .wbClk).halfWritten pad = (lane == 0 && writesPad s.bus pad) := by
  have hwbbd : (s.drive .wbClk).wbbd = BackDoor.rw s.wbbd s.odata lane :=
    (drive_wbbd_wbClk hrst.1).trans (next_rw hstate)
  have hbus : (s.step .wbClk).bus = s.bus := rfl
  have hnext : ∀ lane : Fin 4,
      betweenBytes (if lane = 3 then .done else .setup (lane + 1)) = (lane == 0) := by
    decide
  rw [halfWritten, step_wbbd, hwbbd, hbus]
  exact congrArg (· && writesPad s.bus pad) (hnext lane)

/-- The clock of an access state, for a pad that the access does not write. -/
theorem gpioConfigure_step_rw_of_not (hrst : s.OutOfReset) (hheld : HeldAccess s) {lane : Fin 4}
    (hstate : s.wbbd.state = .rw lane) (hpad : writesPad s.bus pad = false) :
    (s.step .wbClk).regs.gpioConfigure pad = s.regs.gpioConfigure pad := by
  obtain ⟨x, happly, haddr, hstrobe, hdata⟩ := regs_step_rw hrst hheld hstate
  have hwhole := hheld.whole (by simp [hstate]) (by simp [hstate])
  rw [happly]
  rcases hwhole.cases with ⟨pad', hpad'⟩ | ⟨-, hnone⟩
  · have hne : pad ≠ pad' := by
      rintro rfl
      simp [hpad] at hpad'
    rw [RegisterEdge.apply, RegisterMap.posedgeCsclk, hstrobe, laneWrite_of_writesPad hpad',
      if_pos rfl, haddr]
    exact (write_of_writesPad hpad' _ _ _ lane pad).1 hne
  · rw [RegisterEdge.gpioConfigure_apply (hnone x lane haddr hstrobe hdata)]

/-- The clock of an access state, for the pad that the access writes. -/
theorem gpioConfigure_step_rw_of_writesPad (hrst : s.OutOfReset) (hheld : HeldAccess s)
    {lane : Fin 4} (hstate : s.wbbd.state = .rw lane) (hpad : writesPad s.bus pad = true) :
    ∃ spiIsActive, (s.step .wbClk).regs.gpioConfigure pad =
      ((writeRow (laneAddr s.bus lane)).write s.regs (laneData s.bus lane)
        spiIsActive).gpioConfigure pad := by
  obtain ⟨x, happly, haddr, hstrobe, hdata⟩ := regs_step_rw hrst hheld hstate
  have hwrite := laneWrite_of_writesPad hpad lane
  refine ⟨x.spiIsActive, ?_⟩
  rw [happly, RegisterEdge.apply, RegisterMap.posedgeCsclk, hstrobe, hwrite, if_pos rfl, haddr,
    hdata hwrite]

/-- The clock of an access state, for the configuration word of one pad. -/
theorem shownWord_step_rw (hrst : s.OutOfReset) (hheld : HeldAccess s) {lane : Fin 4}
    (hstate : s.wbbd.state = .rw lane)
    (hregs : s.regs.gpioConfigure pad = s.shownWord pad word) :
    (s.step .wbClk).regs.gpioConfigure pad =
      (s.step .wbClk).shownWord pad ((completedWords pad s .wbClk).getLastD word) := by
  have hhalf := halfWritten_step_rw hrst hstate pad
  have hbus : (s.step .wbClk).bus = s.bus := rfl
  cases hpad : writesPad s.bus pad with
  | false =>
    have hnone : completedWords pad s .wbClk = [] := by simp [completedWords, hpad]
    rw [gpioConfigure_step_rw_of_not hrst hheld hstate hpad, hregs, hnone,
      shownWord_of_not_writesPad hpad, shownWord_of_not_writesPad (s := s.step .wbClk) hpad]
    rfl
  | true =>
    obtain ⟨spiIsActive, hlane⟩ := gpioConfigure_step_rw_of_writesPad hrst hheld hstate hpad
    obtain ⟨h₀, h₁, h₂, h₃⟩ := gpioConfigure_lanes hpad s.regs spiIsActive
    have hwords : completedWords pad s .wbClk =
        if lane = 1 then [s.bus.dat.extractLsb' 0 13] else [] := by
      simp [completedWords, hstate, hpad]
    rw [hlane, hwords, shownWord, hhalf, hbus, hpad, Bool.and_true]
    rw [shownWord, halfWritten, hstate, hpad, Bool.and_true] at hregs
    rcases lane_cases lane with rfl | rfl | rfl | rfl
    · rw [h₀, hregs]
      rfl
    · calc
        ((writeRow (laneAddr s.bus 1)).write s.regs (laneData s.bus 1)
          spiIsActive).gpioConfigure pad
        _ = setPart (setPart word 0 (s.bus.dat.extractLsb' 0 8)) 8
            ((s.bus.dat.extractLsb' 8 8).extractLsb' 0 5) := by
          rw [h₁, hregs]
          rfl
        _ = s.bus.dat.extractLsb' 0 13 := setPart_low_high word s.bus.dat
    · rw [h₂, hregs]
      rfl
    · rw [h₃, hregs]
      rfl

/-! ## Runs -/

/-- What is known of every state: the back door is in a whole access or none, and bit-bang is
off. -/
structure Accessed (s : Housekeeping) : Prop where
  outOfReset : s.OutOfReset
  held : HeldAccess s
  bb : s.regs.serialBbEnable = false

theorem backDoorEdges_of_not_rw (hrst : s.OutOfReset) (hrun : e.Running)
    (hrw : e = .wbClk → ∀ lane, s.wbbd.state ≠ .rw lane) : s.backDoorEdges e = [] := by
  by_cases hclk : e = .wbClk
  · subst hclk
    cases hstate : s.wbbd.state with
    | idle => exact backDoorEdges_idle hrst hstate
    | setup lane => exact backDoorEdges_setup hrst hstate
    | rw lane => exact absurd hstate (hrw rfl lane)
    | done => exact backDoorEdges_done hrst hstate
  · exact backDoorEdges_of_ne_wbClk hclk hrun

/-- No edge of an access enables bit-bang. -/
theorem serialBbEnable_step_rw (h : Accessed s) {lane : Fin 4} (hstate : s.wbbd.state = .rw lane) :
    (s.step .wbClk).regs.serialBbEnable = false := by
  obtain ⟨x, happly, haddr, hstrobe, hdata⟩ := regs_step_rw h.outOfReset h.held hstate
  rw [happly]
  rcases (h.held.whole (by simp [hstate]) (by simp [hstate])).cases with ⟨pad, hpad⟩ | ⟨-, hnone⟩
  · calc
      (x.apply s.regs).serialBbEnable
      _ = ((writeRow (laneAddr s.bus lane)).write s.regs x.cdata x.spiIsActive).serialBbEnable := by
        rw [RegisterEdge.apply, RegisterMap.posedgeCsclk, hstrobe, laneWrite_of_writesPad hpad,
          if_pos rfl, haddr]
      _ = s.regs.serialBbEnable :=
        (write_of_writesPad hpad _ _ _ lane pad).2
      _ = false := h.bb
  · exact RegisterEdge.serialBbEnable_apply (hnone x lane haddr hstrobe hdata) h.bb

/-- The step lemma. -/
theorem Accessed.step (h : Accessed s) (he : Interleaved s e)
    (hregs : s.regs.gpioConfigure pad = s.shownWord pad word) :
    Accessed (s.step e) ∧ (s.step e).regs.gpioConfigure pad =
      (s.step e).shownWord pad ((completedWords pad s e).getLastD word) := by
  have hrst := h.outOfReset.step he.running
  have hheld := h.held.step h.outOfReset he
  by_cases hrw : ∃ lane, e = .wbClk ∧ s.wbbd.state = .rw lane
  · obtain ⟨lane, rfl, hstate⟩ := hrw
    exact ⟨⟨hrst, hheld, serialBbEnable_step_rw h hstate⟩,
      shownWord_step_rw h.outOfReset h.held hstate hregs⟩
  · have hrw' : e = .wbClk → ∀ lane, s.wbbd.state ≠ .rw lane :=
      fun hclk lane hstate ↦ hrw ⟨lane, hclk, hstate⟩
    obtain ⟨hconfigure, hbb⟩ := configure_step_of_spi hrst.2
      (backDoorEdges_of_not_rw h.outOfReset he.running hrw') he.spi
    have hnone : completedWords pad s e = [] := if_neg fun hdone ↦ hrw ⟨1, hdone.1, hdone.2.1⟩
    refine ⟨⟨hrst, hheld, hbb h.bb⟩, ?_⟩
    calc
      (s.step e).regs.gpioConfigure pad
      _ = s.shownWord pad word := by rw [hconfigure, hregs]
      _ = (s.step e).shownWord pad word := (shownWord_step h.outOfReset he hrw').symm
      _ = (s.step e).shownWord pad ((completedWords pad s e).getLastD word) := by rw [hnone]; rfl

/-- **Words in flight.** Along any interleaving of whole accesses, the configuration word of a pad
is the last one completed, except between the two bytes of a write to the pad. -/
theorem gpioConfigure_run {es : List Event} (h : Accessed s) (hrun : Along step Interleaved s es)
    (hregs : s.regs.gpioConfigure pad = s.shownWord pad word) :
    Always step Accessed s es ∧
      (run step s es).regs.gpioConfigure pad =
        (run step s es).shownWord pad ((trace step (completedWords pad) s es).getLastD word) := by
  induction es generalizing s word with
  | nil => exact ⟨h, hregs⟩
  | cons e rest ih =>
    obtain ⟨hnext, hshown⟩ := h.step hrun.1 hregs
    obtain ⟨halways, hlast⟩ := ih hnext hrun.2 hshown
    rw [trace, getLastD_append]
    exact ⟨⟨h, halways⟩, hlast⟩

end Housekeeping

end CaravelSoc
