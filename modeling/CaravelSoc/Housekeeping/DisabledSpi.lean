import CaravelSoc.Housekeeping.PassThrough
import CaravelSoc.Housekeeping.RegisterLaws

/-!
# A disabled SPI has no influence

The SPI pins reach the register clock, the busy indication, the pass-through
multiplexers and the choice between direct and buffered output data, all of them
through `spi_is_enabled`. Two runs that differ in the levels of these pins only
are compared: while the SPI is disabled they agree on everything but the raw pin
inputs.
-/

open Sequential

namespace CaravelSoc

/-- A change of SCK, SDI or CSB. -/
def Event.isSpiPin : Event → Bool
  | gpioIn pad _ => pad.val == 2 || pad.val == 3 || pad.val == 4
  | wbClk | wishbone _ | status _ | wbRstn _ | porb _ => false

/-- An event on another input. -/
def Event.isOther (e : Event) : Bool := !e.isSpiPin

namespace BackDoor

/-- The back door without its data output. -/
def control (w : Registers) : Registers := { w with datO := 0#32 }

theorem control_eq_iff {w w' : Registers} :
    control w = control w' ↔ w' = { w with datO := w'.datO } := by
  constructor
  · intro h
    cases w
    cases w'
    simp_all [control]
  · intro h
    rw [h]
    rfl

theorem fields_of_control {w w' : Registers} (h : control w = control w') :
    w.state = w'.state ∧ w.busy = w'.busy ∧ w.addr = w'.addr ∧ w.data = w'.data ∧
      w.write = w'.write := by
  rw [control_eq_iff.1 h]
  exact ⟨rfl, rfl, rfl, rfl, rfl⟩

theorem control_reset {w w' : Registers} (h : control w = control w') :
    control (reset w) = control (reset w') := by
  rw [control_eq_iff.1 h]
  rfl

/-- What the back door reads goes to its data output only. -/
theorem control_next {w w' : Registers} (h : control w = control w') (bus : Bus)
    (spiIsBusy : Bool) (odata odata' : BitVec 8) :
    control (next w bus spiIsBusy odata) = control (next w' bus spiIsBusy odata') := by
  rw [control_eq_iff.1 h]
  cases hstate : w.state with
  | idle =>
    simp only [next, hstate]
    split_ifs <;> rfl
  | setup lane | rw lane | done =>
    simp only [next, hstate]
    rfl

end BackDoor

namespace Housekeeping

open HousekeepingSpi BackDoor

/-- Two states that agree behind the SPI pins, the SPI itself in reset. -/
structure SameBehind (s s' : Housekeeping) : Prop where
  regs : s.regs = s'.regs
  spi : s.spi = HousekeepingSpi.reset
  spi' : s'.spi = HousekeepingSpi.reset
  wbbd : control s.wbbd = control s'.wbbd
  loader : s.loader = s'.loader
  pins : ∀ i, i ≠ 2 → i ≠ 3 → i ≠ 4 → s.mgmtGpioIn.getLsbD i = s'.mgmtGpioIn.getLsbD i
  bus : s.bus = s'.bus
  wbRstn : s.wbRstn = s'.wbRstn
  porb : s.porb = s'.porb
  status : s.status = s'.status

/-- The pairs of states that are compared: alike behind the pins, with the SPI disabled. -/
structure SameDisabled (s s' : Housekeeping) : Prop where
  same : SameBehind s s'
  disabled : s.spiIsEnabled = false
  /-- While power is bad the registers have their reset values. -/
  held : s.porb = false → s.regs = RegisterMap.resetRegisters

/-- The SPI stays disabled. -/
def StaysDisabled (s : Housekeeping) (e : Event) : Prop := (s.step e).spiIsEnabled = false

variable {s s' : Housekeeping} {e : Event}

theorem SameBehind.spiIsEnabled (h : SameBehind s s') : s.spiIsEnabled = s'.spiIsEnabled := by
  rw [Housekeeping.spiIsEnabled, Housekeeping.spiIsEnabled, h.regs]

theorem spiIsActive_of_disabled (h : s.spiIsEnabled = false) : s.spiIsActive = false := by
  rw [spiIsActive, h, Bool.false_and]

theorem csbReset_of_disabled (h : s.spiIsEnabled = false) : s.csbReset = true := by
  simp [csbReset, csb, h]

theorem spiIsEnabled_drive : (s.drive e).spiIsEnabled = s.spiIsEnabled := by
  rw [spiIsEnabled, spiIsEnabled, drive_regs]

/-- A disabled SPI is in reset after every event. -/
theorem step_spi_of_disabled (h : s.spiIsEnabled = false) :
    (s.step e).spi = HousekeepingSpi.reset := by
  have hreset : (s.drive e).csbReset = true :=
    csbReset_of_disabled (spiIsEnabled_drive.trans h)
  have hnext : nextSpi s (s.drive e) = HousekeepingSpi.reset := by
    rw [nextSpi, if_pos hreset]
  change (if _ then HousekeepingSpi.reset else nextSpi s (s.drive e)) = _
  rw [hnext, ite_self]

/-- With the SPI disabled, the register clock is the back door's. -/
theorem csclk_of_disabled (h : s.spiIsEnabled = false) :
    s.csclk = (s.wbbd.busy && s.wbbd.sck) := by
  rw [csclk, spiIsActive_of_disabled h]
  cases s.wbbd.busy <;> rfl

/-- With the SPI disabled, its pins move nothing. -/
theorem sameDisabled_of_isSpiPin (he : e.isSpiPin = true) (h : SameDisabled s s') :
    SameDisabled (s.step e) s' := by
  obtain ⟨h, hdisabled, hheld⟩ := h
  cases e with
  | wbClk | wishbone | status | wbRstn | porb => exact absurd he Bool.false_ne_true
  | gpioIn pad level =>
    have hrises : csclkRises s (s.drive (.gpioIn pad level)) = false := by
      rw [csclkRises, csclk_of_disabled hdisabled,
        csclk_of_disabled (spiIsEnabled_drive.trans hdisabled)]
      change (s.porb && !(s.wbbd.busy && s.wbbd.sck) && (s.wbbd.busy && s.wbbd.sck)) = false
      cases s.wbbd.busy && s.wbbd.sck <;> simp
    have hregs : (s.step (.gpioIn pad level)).regs = s.regs := by
      change nextRegs s (s.drive (.gpioIn pad level)) = _
      simp only [nextRegs, hrises, Bool.false_eq_true, if_false, drive_regs]
      split_ifs with hbad
      · exact (hheld (by simpa [drive] using hbad)).symm
      · rfl
    have hpin : pad.val = 2 ∨ pad.val = 3 ∨ pad.val = 4 := by
      simpa [Event.isSpiPin, or_assoc] using he
    refine ⟨⟨hregs.trans h.regs, step_spi_of_disabled hdisabled, h.spi', h.wbbd, h.loader, ?_,
      h.bus, h.wbRstn, h.porb, h.status⟩, ?_, fun hbad ↦ hregs.trans (hheld hbad)⟩
    · intro i h₂ h₃ h₄
      rw [← h.pins i h₂ h₃ h₄]
      change (setPart s.mgmtGpioIn pad (BitVec.ofBool level)).getLsbD i = s.mgmtGpioIn.getLsbD i
      by_cases hi : i < 38
      · rw [getLsbD_setPart _ _ _ _ hi, if_neg (by omega)]
      · rw [BitVec.getLsbD_of_ge _ _ (by omega), BitVec.getLsbD_of_ge _ _ (by omega)]
    · rw [Housekeeping.spiIsEnabled, hregs]
      exact hdisabled

theorem SameBehind.control_drive (h : SameBehind s s') (hdisabled : s.spiIsEnabled = false) :
    control (s.drive e).wbbd = control (s'.drive e).wbbd := by
  have hbusy : s.spiIsBusy = s'.spiIsBusy := by
    rw [spiIsBusy, spiIsBusy, spiIsActive_of_disabled hdisabled,
      spiIsActive_of_disabled (h.spiIsEnabled.symm.trans hdisabled), Bool.false_and, Bool.false_and]
  cases e with
  | wbClk =>
    simp only [drive, ← h.wbRstn, ← h.bus, ← hbusy]
    split_ifs
    · exact control_next h.wbbd _ _ _ _
    · exact control_reset h.wbbd
  | wbRstn level =>
    simp only [drive]
    split_ifs
    · exact h.wbbd
    · exact control_reset h.wbbd
  | gpioIn | wishbone | status | porb => exact h.wbbd

theorem SameBehind.csclk (h : SameBehind s s') (hdisabled : s.spiIsEnabled = false) :
    s.csclk = s'.csclk := by
  rw [csclk_of_disabled hdisabled, csclk_of_disabled (h.spiIsEnabled.symm.trans hdisabled),
    control_eq_iff.1 h.wbbd]

/-- An event drives both states alike. -/
theorem SameBehind.drive (h : SameBehind s s') (hdisabled : s.spiIsEnabled = false) :
    SameBehind (s.drive e) (s'.drive e) where
  regs := by rw [drive_regs, drive_regs, h.regs]
  spi := by rw [drive_spi, h.spi]
  spi' := by rw [drive_spi, h.spi']
  wbbd := h.control_drive hdisabled
  loader := by cases e <;> simp only [Housekeeping.drive, h.loader, h.porb, h.regs]
  pins i h₂ h₃ h₄ := by
    cases e with
    | gpioIn pad level =>
      change (setPart s.mgmtGpioIn pad (BitVec.ofBool level)).getLsbD i =
        (setPart s'.mgmtGpioIn pad (BitVec.ofBool level)).getLsbD i
      by_cases hi : i < 38
      · rw [getLsbD_setPart _ _ _ _ hi, getLsbD_setPart _ _ _ _ hi, h.pins i h₂ h₃ h₄]
      · rw [BitVec.getLsbD_of_ge _ _ (by omega), BitVec.getLsbD_of_ge _ _ (by omega)]
    | wbClk | wishbone | status | wbRstn | porb => exact h.pins i h₂ h₃ h₄
  bus := by cases e <;> simp only [Housekeeping.drive, h.bus]
  wbRstn := by cases e <;> simp only [Housekeeping.drive, h.wbRstn]
  porb := by cases e <;> simp only [Housekeeping.drive, h.porb]
  status := by cases e <;> simp only [Housekeeping.drive, h.status]

/-- Register edges come from the back door alone, so both states make the same. -/
theorem SameBehind.nextRegs (h : SameBehind s s') (hdisabled : s.spiIsEnabled = false) :
    nextRegs s (s.drive e) = nextRegs s' (s'.drive e) := by
  have hdriven := h.drive (e := e) hdisabled
  have hdisabled' : (s.drive e).spiIsEnabled = false := spiIsEnabled_drive.trans hdisabled
  have hclk := hdriven.csclk hdisabled'
  have hrises : csclkRises s (s.drive e) = csclkRises s' (s'.drive e) := by
    rw [csclkRises, csclkRises, hdriven.porb, h.csclk hdisabled, hclk]
  rw [Housekeeping.nextRegs, Housekeeping.nextRegs, ← hrises, ← hdriven.porb, ← hdriven.regs]
  split_ifs with hbad hrise
  · rfl
  · have hbusy : (s.drive e).wbbd.busy = true := by
      simp only [csclkRises, csclk_of_disabled hdisabled', Bool.and_eq_true] at hrise
      exact hrise.2.1
    have hactive : (s'.drive e).spiIsActive = (s.drive e).spiIsActive := by
      rw [spiIsActive_of_disabled hdisabled',
        spiIsActive_of_disabled (hdriven.spiIsEnabled.symm.trans hdisabled')]
    obtain ⟨-, hbusy', haddr, hdata, hwrite⟩ := fields_of_control hdriven.wbbd
    simp only [caddr, cdata, cwstb, hactive, ← hbusy', hbusy, haddr, hdata, hwrite, if_true]
  · rfl

theorem sameDisabled_of_isOther (h : SameDisabled s s') (hstays : StaysDisabled s e) :
    SameDisabled (s.step e) (s'.step e) := by
  obtain ⟨h, hdisabled, -⟩ := h
  have hdriven := h.drive (e := e) hdisabled
  refine ⟨⟨h.nextRegs hdisabled, step_spi_of_disabled hdisabled,
    step_spi_of_disabled (h.spiIsEnabled.symm.trans hdisabled), hdriven.wbbd, hdriven.loader,
    hdriven.pins, hdriven.bus, hdriven.wbRstn, hdriven.porb, hdriven.status⟩, hstays, fun hbad ↦ ?_⟩
  have hbad' : (s.drive e).porb = false := hbad
  change Housekeeping.nextRegs s (s.drive e) = _
  rw [Housekeeping.nextRegs, hbad']
  rfl

/-! ## What can be observed -/

/-- Only the raw pin inputs tell the two states apart. -/
theorem SameBehind.fdata (h : SameBehind s s') {a : BitVec 8}
    (ha : RegisterMap.isGpioData a = false) : s.fdata a = s'.fdata a := by
  have hnets : ∃ pins, s'.nets = { s.nets with mgmtGpioIn := pins } :=
    ⟨s'.mgmtGpioIn, by simp only [nets, h.spi, h.spi', h.loader, h.status]⟩
  obtain ⟨pins, hnets⟩ := hnets
  rw [Housekeeping.fdata, Housekeeping.fdata, hnets, ← h.regs, RegisterMap.fdata,
    RegisterMap.fdata]
  cases hrow : RegisterMap.fdataRow a with
  | gpioDataTop =>
    have haddress := RegisterMap.address_fdataRow a
    rw [hrow] at haddress
    obtain rfl := haddress.resolve_left (by simp)
    exact absurd ha (by decide)
  | gpioDataByte byte =>
    have haddress := RegisterMap.address_fdataRow a
    rw [hrow] at haddress
    obtain rfl := haddress.resolve_left (by simp)
    have hraw : ∀ byte,
        RegisterMap.isGpioData (RegisterMap.Row.gpioDataByte byte).address = true := by
      decide
    rw [hraw byte] at ha
    exact absurd ha (by decide)
  | _ => rfl

theorem SameBehind.resetOut (h : SameBehind s s') : s.resetOut = s'.resetOut := by
  rw [Housekeeping.resetOut, Housekeeping.resetOut, RegisterMap.resetOut, RegisterMap.resetOut,
    h.regs, nets, nets, h.spi, h.spi']

theorem SameBehind.irq (h : SameBehind s s') : s.irq = s'.irq := by
  rw [Housekeeping.irq, Housekeeping.irq, h.regs,
    h.pins 12 (by decide) (by decide) (by decide), h.pins 7 (by decide) (by decide) (by decide)]

theorem SameBehind.flashOutputs (h : SameBehind s s') (x : FlashInputs) :
    s.flashOutputs x = s'.flashOutputs x := by
  simp [Housekeeping.flashOutputs, h.spi, h.spi', h.porb, HousekeepingSpi.reset]

theorem SameBehind.staysDisabled_iff (h : SameBehind s s') (hdisabled : s.spiIsEnabled = false) :
    StaysDisabled s e ↔ StaysDisabled s' e := by
  have hregs : (s.step e).regs = (s'.step e).regs := h.nextRegs hdisabled
  rw [StaysDisabled, StaysDisabled, Housekeeping.spiIsEnabled, Housekeeping.spiIsEnabled, hregs]

/-- The back door latches a byte of the raw pin inputs. -/
def ReadsPins (s : Housekeeping) (e : Event) : Prop :=
  e = .wbClk ∧ (∃ lane, s.wbbd.state = .rw lane) ∧ RegisterMap.isGpioData s.wbbd.addr = true

theorem SameBehind.readsPins_iff (h : SameBehind s s') : ReadsPins s e ↔ ReadsPins s' e := by
  obtain ⟨hstate, -, haddr, -⟩ := fields_of_control h.wbbd
  rw [ReadsPins, ReadsPins, hstate, haddr]

/-- Every other byte that the back door latches is the same in both states. -/
theorem SameBehind.datO_drive (h : SameBehind s s') (hheld : PortHeld s.wbbd)
    (hdatO : s.wbbd.datO = s'.wbbd.datO) (hreads : ¬ReadsPins s e) :
    (s.drive e).wbbd.datO = (s'.drive e).wbbd.datO := by
  cases e with
  | wbClk =>
    obtain ⟨hstate, hbusy, haddr, -⟩ := fields_of_control h.wbbd
    simp only [Housekeeping.drive, ← h.wbRstn]
    split_ifs
    · cases hrw : s.wbbd.state with
      | rw lane =>
        have hopen : s.wbbd.busy = true := hheld.access (by simp [hrw]) (by simp [hrw])
        have hraw : RegisterMap.isGpioData s.wbbd.addr = false := by
          rw [← Bool.not_eq_true]
          exact fun hraw ↦ hreads ⟨rfl, ⟨lane, hrw⟩, hraw⟩
        have hodata : s.odata = s'.odata := by
          rw [Housekeeping.odata, Housekeeping.odata, caddr, caddr, ← hbusy, hopen, if_pos rfl,
            if_pos rfl, ← haddr]
          exact h.fdata hraw
        rw [BackDoor.next, BackDoor.next, ← hstate, hrw]
        change setPart s.wbbd.datO _ s.odata = setPart s'.wbbd.datO _ s'.odata
        rw [hdatO, hodata]
      | idle =>
        rw [BackDoor.next, BackDoor.next, ← hstate, hrw, ← h.bus]
        simp only
        split_ifs <;> exact hdatO
      | setup | done =>
        rw [BackDoor.next, BackDoor.next, ← hstate, hrw]
        exact hdatO
    · exact hdatO
  | wbRstn level =>
    simp only [Housekeeping.drive]
    split_ifs <;> exact hdatO
  | gpioIn | wishbone | status | porb => exact hdatO

/-- As `SameDisabled`, with the data output of the back door the same as well. -/
structure SameOutput (s s' : Housekeeping) : Prop where
  toSameDisabled : SameDisabled s s'
  portHeld : PortHeld s.wbbd
  datO : s.wbbd.datO = s'.wbbd.datO

theorem SameOutput.wbbd (h : SameOutput s s') : s.wbbd = s'.wbbd := by
  rw [control_eq_iff.1 h.toSameDisabled.same.wbbd, ← h.datO]

theorem sameOutput_of_isSpiPin (he : e.isSpiPin = true) (h : SameOutput s s') :
    SameOutput (s.step e) s' := by
  refine ⟨sameDisabled_of_isSpiPin he h.toSameDisabled, portHeld_step h.portHeld, ?_⟩
  cases e with
  | gpioIn pad level => exact h.datO
  | wbClk | wishbone | status | wbRstn | porb => exact absurd he Bool.false_ne_true

theorem isSpiPin_of_not_isOther (he : e.isOther = false) : e.isSpiPin = true := by
  rw [Event.isOther] at he
  simpa using he

/-- While power is bad, a reachable state has the reset registers. -/
theorem regs_of_porb (mgmtGpioIn : BitVec 38) (bus : Bus) (status : Status) (datO : BitVec 32)
    (before : List Event) (hporb : (run step (powerOn mgmtGpioIn bus status datO) before).porb =
      false) :
    (run step (powerOn mgmtGpioIn bus status datO) before).regs = RegisterMap.resetRegisters := by
  refine invariant_run
    (I := fun u : Housekeeping ↦ u.porb = false → u.regs = RegisterMap.resetRegisters)
    (P := fun _ _ ↦ True) (fun u e _ _ hbad ↦ ?_) (fun _ ↦ rfl)
    (along_of_forall fun _ _ ↦ trivial) hporb
  have hbad' : (u.drive e).porb = false := hbad
  change nextRegs u (u.drive e) = _
  rw [nextRegs, hbad']
  rfl

/-- **No influence of a disabled SPI.** Two runs from one reachable state that differ in the levels
of SCK, SDI and CSB only, with the SPI disabled throughout the first, end with the same registers,
the same back door but for its data output, the same loader, the same `reset`, `irq` and flash
pins, and the same readable values except for the raw pin inputs. The data output agrees, too,
unless such an input has been read. -/
theorem disabled_spi_two_runs (mgmtGpioIn : BitVec 38) (bus : Bus) (status : Status)
    (datO : BitVec 32) (before es es' : List Event) :
    let s := run step (powerOn mgmtGpioIn bus status datO) before
    let t := run step s es
    let t' := run step s es'
    es.filter Event.isOther = es'.filter Event.isOther →
    Always step (fun u ↦ u.spiIsEnabled = false) s es →
      t.regs = t'.regs ∧ control t.wbbd = control t'.wbbd ∧ t.loader = t'.loader ∧
        t.resetOut = t'.resetOut ∧ t.irq = t'.irq ∧ (∀ x, t.flashOutputs x = t'.flashOutputs x) ∧
        (∀ a, RegisterMap.isGpioData a = false → t.fdata a = t'.fdata a) ∧
        (Along step (fun u e ↦ ¬ReadsPins u e) s es → t.wbbd = t'.wbbd) := by
  intro s t t' hsame hdisabled
  have hspi : s.spi = HousekeepingSpi.reset :=
    spi_of_deselected mgmtGpioIn bus status datO before (csbReset_of_disabled hdisabled.head)
  have hself : SameDisabled s s :=
    ⟨⟨rfl, hspi, hspi, rfl, rfl, fun _ _ _ _ ↦ rfl, rfl, rfl, rfl, rfl⟩, hdisabled.head,
      regs_of_porb mgmtGpioIn bus status datO before⟩
  have hstays : Along step (fun u e ↦ e.isOther = true → StaysDisabled u e) s es :=
    hdisabled.along.mono fun _ _ h _ ↦ h.2
  obtain ⟨u, h, h'⟩ := two_runs (R := SameDisabled) (P := StaysDisabled) (K := Event.isOther)
    (fun _ _ _ he hu ↦ sameDisabled_of_isSpiPin (isSpiPin_of_not_isOther he) hu)
    (fun _ _ _ _ hu ↦ hu.same.staysDisabled_iff hu.disabled)
    (fun _ _ _ _ hu hP ↦ sameDisabled_of_isOther hu hP) hself hsame hstays
  refine ⟨h.same.regs.trans h'.same.regs.symm, h.same.wbbd.trans h'.same.wbbd.symm,
    h.same.loader.trans h'.same.loader.symm, h.same.resetOut.trans h'.same.resetOut.symm,
    h.same.irq.trans h'.same.irq.symm,
    fun x ↦ (h.same.flashOutputs x).trans (h'.same.flashOutputs x).symm,
    fun a ha ↦ (h.same.fdata ha).trans (h'.same.fdata ha).symm, fun hpins ↦ ?_⟩
  have hself' : SameOutput s s :=
    ⟨hself, portHeld_of_reachable mgmtGpioIn bus status datO before, rfl⟩
  obtain ⟨u, h, h'⟩ := two_runs (R := SameOutput)
    (P := fun u e ↦ StaysDisabled u e ∧ ¬ReadsPins u e) (K := Event.isOther)
    (fun _ _ _ he hu ↦ sameOutput_of_isSpiPin (isSpiPin_of_not_isOther he) hu)
    (fun _ _ _ _ hu ↦ and_congr (hu.toSameDisabled.same.staysDisabled_iff
      hu.toSameDisabled.disabled) (not_congr hu.toSameDisabled.same.readsPins_iff))
    (fun _ _ _ _ hu hP ↦ ⟨sameDisabled_of_isOther hu.toSameDisabled hP.1,
      portHeld_step hu.portHeld, hu.toSameDisabled.same.datO_drive hu.portHeld hu.datO hP.2⟩)
    hself' hsame ((hstays.and hpins).mono fun _ _ hP hother ↦ ⟨hP.1 hother, hP.2⟩)
  exact h.wbbd.trans h'.wbbd.symm

/-- An SPI write of `hkspi_disable`, sent over the SPI itself. -/
def disableExample : List Event :=
  [.porb true, .wbRstn true, csbFalls] ++ sendByte 0x80#8 ++ sendByte 0x6f#8 ++ sendByte 0x01#8

/-- A bit on the pins between two clocks. -/
def pinsExample : List Event := [.wbClk] ++ sendBit true ++ [csbRises, .wbClk]

set_option maxRecDepth 10000 in
theorem disabled_spi_two_runs_disableExample :
    let s := run step (powerOn 0x8#38 default default 0#32) disableExample
    (run step s pinsExample).regs = (run step s [.wbClk, .wbClk]).regs := by
  intro s
  have hdisabled : Always step (fun u ↦ u.spiIsEnabled = false) s pinsExample := by decide
  have h := disabled_spi_two_runs 0x8#38 default default 0#32 disableExample pinsExample
    [.wbClk, .wbClk] (by decide) hdisabled
  exact h.1

end Housekeeping

end CaravelSoc
