import CaravelSoc.Housekeeping.AccessLaw
import CaravelSoc.Housekeeping.SpiFrame

/-!
# The SPI and the back door on one register port

Clock, address, data and strobe of the register block are switched by
`wbbd_busy`. The back door means to stall while the SPI is about to read or write
a byte, but its setup states take the port before they look at `spi_is_busy`, and
hold it while they stall. A byte whose last rising edge, or whose capture, falls
into such a time is lost. In every run where the port is free at those edges, the
SPI writes what its byte stream asks for and shows what it captured.
-/

open Sequential

namespace CaravelSoc

/-- The write that a register edge makes, as address and data. -/
def RegisterEdge.writes (x : RegisterEdge) : List (BitVec 8 × BitVec 8) :=
  if x.cwstb then [(x.caddr, x.cdata)] else []

namespace Housekeeping

open HousekeepingSpi SpiProtocol BackDoor

/-! ## Edges of SCK -/

def sckRises (s : Housekeeping) (e : Event) : Bool := !s.sck && (s.drive e).sck
def sckFalls (s : Housekeeping) (e : Event) : Bool := s.sck && !(s.drive e).sck

/-- The bit that an event clocks into the SPI, if any. -/
def spiBits (s : Housekeeping) (e : Event) : List Bool :=
  if s.sckRises e then [(s.drive e).sdi] else []

/-- The writes that the SPI side of the port makes. -/
def spiWrites (s : Housekeeping) (e : Event) : List (BitVec 8 × BitVec 8) :=
  (s.spiEdges e).flatMap RegisterEdge.writes

/-- Out of reset, with the SPI enabled and CSB low. -/
def Selected (s : Housekeeping) : Prop := s.OutOfReset ∧ s.csbReset = false

instance : DecidablePred Selected := fun _ ↦ instDecidableAnd

variable {s : Housekeeping} {e : Event} {bits : List Bool}

@[simp]
theorem step_sck : (s.step e).sck = (s.drive e).sck := rfl

theorem csbReset_eq_false_iff :
    s.csbReset = false ↔ s.spiIsEnabled = true ∧ s.csbPin = false ∧ s.porb = true := by
  unfold csbReset csb
  cases s.spiIsEnabled <;> simp

theorem spiIsActive_of_csbReset (h : s.csbReset = false) : s.spiIsActive = true := by
  obtain ⟨henabled, hpin, -⟩ := csbReset_eq_false_iff.1 h
  simp [Housekeeping.spiIsActive, henabled, hpin]

theorem Selected.spiIsActive (h : Selected s) : s.spiIsActive = true := spiIsActive_of_csbReset h.2

/-- Between two states with CSB low at the SPI it is low all through the event. -/
theorem drive_csbReset (h : s.csbReset = false) (h' : (s.step e).csbReset = false) :
    (s.drive e).csbReset = false := by
  obtain ⟨henabled, -, -⟩ := csbReset_eq_false_iff.1 h
  obtain ⟨-, hpin, hporb⟩ := csbReset_eq_false_iff.1 h'
  refine csbReset_eq_false_iff.2 ⟨?_, hpin, hporb⟩
  simpa [spiIsEnabled] using henabled

theorem Selected.drive (h : Selected s) (h' : Selected (s.step e)) :
    (s.drive e).csbReset = false :=
  drive_csbReset h.2 h'.2

/-- While CSB is low, the SPI moves on the edges of SCK only. -/
theorem step_spi (h : s.csbReset = false) (h' : (s.step e).csbReset = false) :
    (s.step e).spi =
      if s.sckRises e then posedgeSck s.spi (s.drive e).sdi
      else if s.sckFalls e then negedgeSck s.spi (s.drive e).odata
      else s.spi := by
  have hsettled : (s.step e).spi = nextSpi s (s.drive e) := by
    change (if csbReset { s.drive e with regs := _, spi := _ } then _ else _) = _
    rw [if_neg]
    rw [Bool.not_eq_true]
    exact h'
  rw [hsettled, nextSpi, if_neg (by rw [drive_csbReset h h']; decide), drive_spi]
  rfl

/-- Without a change of the resets, only a clock moves the back door. -/
theorem Selected.drive_wbbd (h' : Selected (s.step e)) (he : e ≠ .wbClk) :
    (s.drive e).wbbd = s.wbbd := by
  cases e with
  | wbClk => exact absurd rfl he
  | wbRstn level =>
    obtain rfl : level = true := h'.1.1
    rfl
  | gpioIn | wishbone | status | porb => rfl

/-- An edge of SCK is a change of pin 4. -/
theorem eq_gpioIn_of_sck_ne (h : (s.step e).sck ≠ s.sck) : ∃ level, e = .gpioIn 4 level := by
  cases e with
  | gpioIn pad level =>
    by_cases hpad : pad.val = 4
    · have hfour : pad = 4 := Fin.ext hpad
      exact ⟨level, by rw [hfour]⟩
    · refine absurd ?_ h
      change (setPart s.mgmtGpioIn pad (BitVec.ofBool level)).getLsbD 4 = s.mgmtGpioIn.getLsbD 4
      rw [getLsbD_setPart _ _ _ _ (by omega), if_neg (by omega)]
  | wbClk | wishbone | status | wbRstn | porb => exact absurd rfl h

theorem sck_ne_of_sckRises (h : s.sckRises e = true) : (s.step e).sck ≠ s.sck := by
  simp only [sckRises, Bool.and_eq_true, Bool.not_eq_true'] at h
  rw [step_sck, h.1, h.2]
  decide

theorem sck_ne_of_sckFalls (h : s.sckFalls e = true) : (s.step e).sck ≠ s.sck := by
  simp only [sckFalls, Bool.and_eq_true, Bool.not_eq_true'] at h
  rw [step_sck, h.1, h.2]
  decide

theorem ne_wbClk_of_sck_ne (hsck : (s.step e).sck ≠ s.sck) : e ≠ .wbClk := by
  rintro rfl
  exact hsck rfl

/-- The three things an event can do to a selected SPI. -/
inductive SpiEvent (s : Housekeeping) (e : Event) : Prop
  | rise (hedge : s.sckRises e = true) (hlow : s.sck = false) (hhigh : (s.step e).sck = true)
    (hbits : s.spiBits e = [(s.drive e).sdi])
    (hspi : (s.step e).spi = posedgeSck s.spi (s.drive e).sdi)
    (hwbbd : (s.drive e).wbbd = s.wbbd)
  | fall (hedge : s.sckFalls e = true) (hhigh : s.sck = true) (hlow : (s.step e).sck = false)
    (hbits : s.spiBits e = []) (hspi : (s.step e).spi = negedgeSck s.spi (s.drive e).odata)
    (hwbbd : (s.drive e).wbbd = s.wbbd)
  | stay (hnorise : s.sckRises e = false) (hsck : (s.step e).sck = s.sck)
    (hbits : s.spiBits e = []) (hspi : (s.step e).spi = s.spi)

theorem Selected.spiEvent (h : Selected s) (h' : Selected (s.step e)) : SpiEvent s e := by
  have hspi := Housekeeping.step_spi h.2 h'.2
  have hwbbd : (s.step e).sck ≠ s.sck → (s.drive e).wbbd = s.wbbd := fun hsck ↦
    h'.drive_wbbd (ne_wbClk_of_sck_ne hsck)
  cases hold : s.sck <;> cases hnew : (s.drive e).sck
  case false.true =>
    have hedge : s.sckRises e = true := by simp [sckRises, hold, hnew]
    rw [if_pos hedge] at hspi
    exact .rise hedge hold hnew (if_pos hedge) hspi (hwbbd (by simp [hold, hnew]))
  case true.false =>
    have hedge : s.sckFalls e = true := by simp [sckFalls, hold, hnew]
    have hnorise : s.sckRises e = false := by simp [sckRises, hold]
    rw [hnorise, if_neg (by decide), if_pos hedge] at hspi
    refine .fall hedge hold hnew ?_ hspi (hwbbd (by simp [hold, hnew]))
    rw [spiBits, hnorise, if_neg (by decide)]
  all_goals
    have hnorise : s.sckRises e = false := by simp [sckRises, hold, hnew]
    have hnofall : s.sckFalls e = false := by simp [sckFalls, hold, hnew]
    rw [hnorise, hnofall, if_neg (by decide), if_neg (by decide)] at hspi
    refine .stay hnorise (by rw [step_sck, hold, hnew]) ?_ hspi
    rw [spiBits, hnorise, if_neg (by decide)]

/-! ## The back door's hold on the port -/

/-- An access holds the port in every state but the first; at rest a held port has its clock low. -/
structure PortHeld (w : BackDoor.Registers) : Prop where
  access : w.state ≠ .idle → w.state ≠ .setup 0 → w.busy = true
  rest : w.state = .idle → w.busy = true → w.sck = false

theorem portHeld_reset (w : BackDoor.Registers) : PortHeld (BackDoor.reset w) where
  access hidle := absurd rfl hidle
  rest _ _ := rfl

theorem portHeld_next {w : BackDoor.Registers} {bus : Bus} {spiIsBusy : Bool} {odata : BitVec 8} :
    PortHeld (next w bus spiIsBusy odata) := by
  unfold next
  split
  · split
    · exact ⟨fun _ hsetup ↦ absurd rfl hsetup, fun hidle ↦ absurd hidle (by simp)⟩
    · exact ⟨fun hidle ↦ absurd ‹_› hidle, fun _ hbusy ↦ absurd hbusy (by simp)⟩
  · exact ⟨fun _ _ ↦ rfl, fun _ _ ↦ rfl⟩
  · refine ⟨fun _ _ ↦ rfl, fun hidle ↦ absurd hidle ?_⟩
    simp only [BackDoor.rw]
    split_ifs <;> simp
  · exact ⟨fun hidle ↦ absurd rfl hidle, fun _ _ ↦ rfl⟩

theorem portHeld_step (h : PortHeld s.wbbd) : PortHeld (s.step e).wbbd := by
  rw [step_wbbd]
  cases e with
  | wbClk =>
    simp only [drive]
    split
    · exact portHeld_next
    · exact portHeld_reset _
  | wbRstn level =>
    simp only [drive]
    split
    · exact h
    · exact portHeld_reset _
  | gpioIn | wishbone | status | porb => exact h

/-- The back door holds the port in order in every state reached from power-on. -/
theorem portHeld_of_reachable (mgmtGpioIn : BitVec 38) (bus : Bus) (status : Status)
    (datO : BitVec 32) (before : List Event) :
    PortHeld (run step (powerOn mgmtGpioIn bus status datO) before).wbbd :=
  invariant_run (I := fun t : Housekeeping ↦ PortHeld t.wbbd) (P := fun _ _ ↦ True)
    (fun _ _ h _ ↦ portHeld_step h) ⟨fun hidle ↦ absurd rfl hidle, fun _ _ ↦ rfl⟩
    (along_of_forall fun _ _ ↦ trivial)

/-- The access, if any, has not taken the port yet. -/
def Yielded (w : BackDoor.Registers) : Prop :=
  w.state = .idle ∧ w.busy = false ∨ w.state = .setup 0

theorem PortHeld.yielded {w : BackDoor.Registers} (h : PortHeld w) (hbusy : w.busy = false) :
    Yielded w := by
  by_cases hidle : w.state = .idle
  · exact .inl ⟨hidle, hbusy⟩
  · by_cases hsetup : w.state = .setup 0
    · exact .inr hsetup
    · rw [h.access hidle hsetup] at hbusy
      exact absurd hbusy (by decide)

/-- An access that starts while the SPI is busy stays in the first setup state. -/
theorem Yielded.next {w : BackDoor.Registers} {bus : Bus} {odata : BitVec 8} (h : Yielded w) :
    Yielded (next w bus true odata) := by
  rcases h with ⟨hidle, hbusy⟩ | hsetup
  · simp only [BackDoor.next, hidle]
    split
    · exact .inr rfl
    · exact .inl ⟨rfl, rfl⟩
  · simp only [BackDoor.next, hsetup]
    exact .inr rfl

/-! ## One event -/

/-- What holds in every state while the SPI is selected, with the bits clocked in so far. -/
structure SharedPort (s : Housekeeping) (bits : List Bool) : Prop where
  tracks : Tracks s.spi s.sck bits
  held : PortHeld s.wbbd
  /-- From a strobed rising edge to the next falling edge the back door stays off the port. -/
  yielded : s.sck = true → s.spi.wrstb = true → Yielded s.wbbd

/-- The next falling edge of SCK captures a byte to be read. -/
def captures (s : HousekeepingSpi.Registers) : Bool :=
  s.state == .data && s.count == 0#3 && s.readmode

/-- The back door is off the port at a rising edge of SCK with the write strobe up, and at a
falling edge that captures a byte. -/
def PortFree (s : Housekeeping) (e : Event) : Prop :=
  (s.sckRises e = true → s.spi.wrstb = true → s.wbbd.busy = false) ∧
    (s.sckFalls e = true → captures s.spi = true → s.wbbd.busy = false)

instance (s : Housekeeping) (e : Event) : Decidable (PortFree s e) := instDecidableAnd

theorem sckRises_wbClk : s.sckRises .wbClk = false := by
  change (!s.sck && s.sck) = false
  simp

/-- A clock of the back door makes no strobed edge on the SPI side of the port. -/
theorem SharedPort.spiWrites_wbClk (h : SharedPort s bits) (hsel : Selected s) :
    s.spiWrites .wbClk = [] := by
  have hwbbd := drive_wbbd_wbClk (s := s) hsel.1.1
  have hactive := hsel.spiIsActive
  simp only [spiWrites, spiEdges, registerEdges]
  split
  · next hrises =>
    cases hbusy : (s.drive .wbClk).wbbd.busy with
    | true => simp
    | false =>
      -- The port is being released while SCK is high, so it was held before.
      have hclk : (s.drive .wbClk).csclk = s.sck := by
        have hactive' : (s.drive .wbClk).spiIsActive = true := hactive
        have hsck' : (s.drive .wbClk).sck = s.sck := rfl
        simp [csclk, hbusy, hactive', hsck']
      simp only [csclkRises, hclk, Bool.and_eq_true, Bool.not_eq_true'] at hrises
      obtain ⟨⟨-, hlow⟩, hsck⟩ := hrises
      have hheld : s.wbbd.busy = true := by
        by_contra hfree
        simp [csclk, hfree, hactive, hsck] at hlow
      have hstrobe : s.spi.wrstb = false := by
        rw [← Bool.not_eq_true]
        intro hstrobe
        rcases h.yielded hsck hstrobe with ⟨-, hfree⟩ | hsetup
        · simp [hfree] at hheld
        · rw [hwbbd, next_setup hsetup] at hbusy
          simp [setup] at hbusy
      simp [RegisterEdge.writes, cwstb, hbusy, hstrobe]
  · rfl

/-- An event that leaves the back door alone makes the strobed edge of the SPI, if it is a rising
edge of SCK. -/
theorem spiWrites_of_drive_wbbd (hlow : s.csbReset = false) (hlow' : (s.step e).csbReset = false)
    (hwbbd : (s.drive e).wbbd = s.wbbd) (hfree : PortFree s e) :
    s.spiWrites e =
      if s.sckRises e && s.spi.wrstb then
        [(oaddr s.spi (s.drive e).sdi, HousekeepingSpi.odata s.spi (s.drive e).sdi)]
      else [] := by
  cases hbusy : s.wbbd.busy with
  | true =>
    have hrises : csclkRises s (s.drive e) = false := by simp [csclkRises, csclk, hwbbd, hbusy]
    have hnone : (s.sckRises e && s.spi.wrstb) = false := by
      rw [← Bool.not_eq_true, Bool.and_eq_true]
      rintro ⟨hrise, hstrobe⟩
      rw [hfree.1 hrise hstrobe] at hbusy
      exact absurd hbusy (by decide)
    simp [spiWrites, spiEdges, registerEdges, hrises, hnone]
  | false =>
    have hporb : (s.drive e).porb = true := (csbReset_eq_false_iff.1 hlow').2.2
    have hrises : csclkRises s (s.drive e) = s.sckRises e := by
      simp [csclkRises, csclk, hwbbd, hbusy, spiIsActive_of_csbReset hlow,
        spiIsActive_of_csbReset (drive_csbReset hlow hlow'), hporb, sckRises]
    simp only [spiWrites, spiEdges, registerEdges, hrises]
    cases s.sckRises e with
    | false => rfl
    | true => simp [RegisterEdge.writes, caddr, cdata, cwstb, hwbbd, hbusy]

/-- The writes of one event are those that the byte stream asks for. -/
theorem SharedPort.spiWrites_eq (h : SharedPort s bits) (hsel : Selected s)
    (hsel' : Selected (s.step e)) (hfree : PortFree s e) :
    writeList (words 8 (bits ++ s.spiBits e)) = writeList (words 8 bits) ++ s.spiWrites e := by
  have hwrites : s.spiWrites e =
      if s.sckRises e && s.spi.wrstb then
        [(oaddr s.spi (s.drive e).sdi, HousekeepingSpi.odata s.spi (s.drive e).sdi)]
      else [] := by
    by_cases he : e = .wbClk
    · subst he
      rw [h.spiWrites_wbClk hsel, sckRises_wbClk]
      rfl
    · exact spiWrites_of_drive_wbbd hsel.2 hsel'.2 (hsel'.drive_wbbd he) hfree
  rw [hwrites]
  cases hsel.spiEvent hsel' with
  | rise hedge hlow hhigh hbits hspi hwbbd =>
    have htracks := h.tracks
    rw [hlow] at htracks
    rw [hedge, hbits, writeList_append, ← htracks.writes, Bool.true_and]
  | fall hedge hhigh hlow hbits hspi hwbbd => simp [hbits, sckRises, hhigh]
  | stay hnorise hsck hbits hspi => simp [hbits, hnorise]

/-- From a strobed rising edge on, a back door that has yielded keeps off the port, because it sees
the SPI busy. -/
theorem Yielded.step (h : Yielded s.wbbd) (hsel : Selected s) (hsel' : Selected (s.step e))
    (hstrobe : s.spi.wrstb = true) : Yielded (s.step e).wbbd := by
  by_cases he : e = .wbClk
  · subst he
    have hbusy : s.spiIsBusy = true := by simp [spiIsBusy, hsel.spiIsActive, hstrobe]
    rw [step_wbbd, drive_wbbd_wbClk hsel.1.1, hbusy]
    exact h.next
  · rw [step_wbbd, hsel'.drive_wbbd he]
    exact h

/-- The step lemma of the shared port. -/
theorem sharedPort_step (h : SharedPort s bits) (hsel : Selected s) (hsel' : Selected (s.step e))
    (hfree : PortFree s e) : SharedPort (s.step e) (bits ++ s.spiBits e) := by
  have htracks := h.tracks
  cases hsel.spiEvent hsel' with
  | rise hedge hlow hhigh hbits hspi hwbbd =>
    rw [hlow] at htracks
    rw [hbits]
    refine ⟨?_, portHeld_step h.held, fun _ hstrobe ↦ ?_⟩
    · rw [hspi, hhigh]
      exact htracks.rise _
    · rw [hspi, (posedgeSck_output _ _).1] at hstrobe
      rw [step_wbbd, hwbbd]
      exact h.held.yielded (hfree.1 hedge hstrobe)
  | fall hedge hhigh hlow hbits hspi hwbbd =>
    rw [hhigh] at htracks
    rw [hbits, List.append_nil]
    refine ⟨?_, portHeld_step h.held, fun hsck ↦ ?_⟩
    · rw [hspi, hlow]
      exact htracks.fall _
    · rw [hlow] at hsck
      exact absurd hsck (by decide)
  | stay hnorise hsck hbits hspi =>
    rw [hbits, List.append_nil]
    refine ⟨?_, portHeld_step h.held, fun hhigh hstrobe ↦ ?_⟩
    · rw [hspi, hsck]
      exact htracks
    · rw [hsck] at hhigh
      rw [hspi] at hstrobe
      exact (h.yielded hhigh hstrobe).step hsel hsel' hstrobe

/-! ## Runs -/

/-- The run lemma of the shared port. -/
theorem sharedPort_run {es : List Event} (h : SharedPort s bits)
    (hsel : Always step Selected s es) (hfree : Along step PortFree s es) :
    SharedPort (run step s es) (bits ++ trace step spiBits s es) ∧
      writeList (words 8 (bits ++ trace step spiBits s es)) =
        writeList (words 8 bits) ++ trace step spiWrites s es := by
  induction es generalizing s bits with
  | nil => simpa [Sequential.run, trace] using h
  | cons e rest ih =>
    have hnext := sharedPort_step h hsel.1 hsel.2.head hfree.1
    obtain ⟨hrun, hwrites⟩ := ih hnext hsel.2 hfree.2
    rw [List.append_assoc] at hrun hwrites
    refine ⟨hrun, ?_⟩
    rw [trace, hwrites, h.spiWrites_eq hsel.1 hsel.2.head hfree.1, List.append_assoc, trace]

theorem sharedPort_reset (hspi : s.spi = HousekeepingSpi.reset) (hheld : PortHeld s.wbbd) :
    SharedPort s [] where
  tracks := by
    rw [hspi]
    exact tracks_reset _
  held := hheld
  yielded _ hstrobe := by
    rw [hspi] at hstrobe
    exact absurd hstrobe (by decide)

/-! ## The bytes on the output -/

/-- A falling edge of SCK leaves the readable values as they are after the event is driven. -/
theorem fdata_of_fall (hsel' : Selected (s.step e)) (hfree : s.wbbd.busy = false)
    (hlow : (s.step e).sck = false)
    (hspi : (s.step e).spi = negedgeSck s.spi (s.drive e).odata)
    (hwbbd : (s.drive e).wbbd = s.wbbd) : (s.step e).fdata = (s.drive e).fdata := by
  have hrises : csclkRises s (s.drive e) = false := by
    rw [step_sck] at hlow
    simp [csclkRises, csclk, hwbbd, hfree, hlow]
  have hregs : (s.step e).regs = (s.drive e).regs := by
    rw [step_regs hsel'.1.2, registerEdges, hrises, drive_regs]
    rfl
  have hreset : passThruMgmtReset (s.step e).spi = passThruMgmtReset (s.drive e).spi := by
    rw [hspi, passThruMgmtReset_negedgeSck, drive_spi]
  have hnets : (s.step e).nets = (s.drive e).nets := by
    simp only [nets, hreset]
    rfl
  funext address
  rw [fdata, fdata, hregs, hnets]

/-- A capture takes the value at the address of the byte. -/
theorem SharedPort.capture (h : SharedPort s bits) (hsel : Selected s)
    (hsel' : Selected (s.step e)) (hfree : PortFree s e) (hfall : s.sckFalls e = true)
    (hbyte : partialWord 8 bits = []) {cmd start : BitVec 8} {i : ℕ}
    (hexpected : expected bits = .data cmd start i) (hread : readMode cmd = true) :
    Shows ((s.step e).fdata (dataAddress start i)) false (s.step e).spi := by
  have hwithin := h.tracks.within
  rw [hexpected, hbyte] at hwithin
  obtain ⟨hstate, hcount, -, hreadmode, haddr, -⟩ := hwithin
  have hbusy : s.wbbd.busy = false :=
    hfree.2 hfall (by simp [captures, hstate, hcount, hreadmode, hread])
  cases hsel.spiEvent hsel' with
  | fall hedge hhigh hlow hbits hspi hwbbd =>
    have hcaddr : (s.drive e).caddr = dataAddress start i := by
      rw [caddr, hwbbd, hbusy, if_neg (by decide), drive_spi, oaddr, if_neg (by simp [hstate]),
        haddr]
    have hodata : (s.drive e).odata = (s.step e).fdata (dataAddress start i) := by
      rw [fdata_of_fall hsel' hbusy hlow hspi hwbbd, Housekeeping.odata, hcaddr]
    rw [hspi, hodata]
    exact shows_capture hstate (hreadmode.trans hread) hcount _
  | rise hedge hlow => simp [sckFalls, hlow] at hfall
  | stay hnorise hsck =>
    rw [step_sck] at hsck
    simp [sckFalls, hsck] at hfall

/-- Short of its last bit, the byte stays on the output. -/
theorem shows_step (h : SharedPort s bits) (hsel : Selected s) (hsel' : Selected (s.step e))
    {v : BitVec 8} (hshows : Shows v s.sck s.spi)
    (hlen : (partialWord 8 bits).length + (s.spiBits e).length ≤ 7) :
    Shows v (s.step e).sck (s.step e).spi ∧
      (partialWord 8 (bits ++ s.spiBits e)).length =
        (partialWord 8 bits).length + (s.spiBits e).length := by
  cases hsel.spiEvent hsel' with
  | rise hedge hlow hhigh hbits hspi hwbbd =>
    rw [hbits, List.length_singleton] at hlen ⊢
    rw [hlow] at hshows
    have hcount := h.tracks.count hshows.state
    refine ⟨?_, ?_⟩
    · rw [hspi, hhigh]
      refine hshows.rise ?_ _
      rw [hcount]
      exact count_ne_seven (by omega)
    · rw [partialWord_append_bit (by omega), if_neg (by omega), List.length_append,
        List.length_singleton]
  | fall hedge hhigh hlow hbits hspi hwbbd =>
    rw [hhigh] at hshows
    rw [hbits, List.append_nil, hspi, hlow]
    exact ⟨hshows.fall _, rfl⟩
  | stay hnorise hsck hbits hspi =>
    rw [hbits, List.append_nil, hspi, hsck]
    exact ⟨hshows, rfl⟩

/-- The bits that a captured byte puts on the output. -/
theorem shows_run {es : List Event} (h : SharedPort s bits)
    (hsel : Always step Selected s es)
    (hfree : Along step PortFree s es) {v : BitVec 8} (hshows : Shows v s.sck s.spi)
    (hlen : (partialWord 8 bits).length + (trace step spiBits s es).length ≤ 7)
    (hlow : (run step s es).sck = false) :
    sdo (run step s es).spi =
      v.getMsbD ((partialWord 8 bits).length + (trace step spiBits s es).length) := by
  induction es generalizing s bits with
  | nil =>
    change s.sck = false at hlow
    rw [hlow] at hshows
    have hcount := h.tracks.count hshows.state
    have hle := length_partialWord_le bits
    rw [Sequential.run, hshows.sdo, hcount, BitVec.toNat_ofNat, Nat.mod_eq_of_lt (by omega)]
    rfl
  | cons e rest ih =>
    rw [trace, List.length_append] at hlen
    obtain ⟨hshows', hleft⟩ := shows_step h hsel.1 hsel.2.head hshows (by omega)
    have hnext := ih (sharedPort_step h hsel.1 hsel.2.head hfree.1) hsel.2 hfree.2 hshows'
      (by rw [hleft]; omega) hlow
    calc
      sdo (run step s (e :: rest)).spi
      _ = v.getMsbD ((partialWord 8 (bits ++ s.spiBits e)).length +
          (trace step spiBits (s.step e) rest).length) := hnext
      _ = v.getMsbD ((partialWord 8 bits).length +
          (trace step spiBits s (e :: rest)).length) := by
        rw [hleft, trace, List.length_append, Nat.add_assoc]

/-- **The SPI beside the back door.** In every run with the SPI selected in which the back door is
off the port at each strobed rising edge and each capture of SCK, whatever Wishbone accesses go on:
the SPI side writes exactly what its byte stream asks for, each byte at its last rising edge; its
edges without the strobe clear the two self-resetting flags and nothing else; and the bits shifted
out for a byte to be read are those of the value at its address when it was captured. -/
theorem spi_stream_undisturbed (mgmtGpioIn : BitVec 38) (bus : Bus) (status : Status)
    (datO : BitVec 32) (before es : List Event) :
    let s := run step (powerOn mgmtGpioIn bus status datO) before
    s.spi = HousekeepingSpi.reset → Always step Selected s es →
    Along step PortFree s es →
      trace step spiWrites s es =
          writeList (words 8 (trace step spiBits s es)) ∧
        (∀ x ∈ trace step spiEdges s es, x.cwstb = false →
          ∀ r, x.apply r = { r with serialXfer := false, irqSpi := false }) ∧
        ∀ front e rest cmd start i, es = front ++ e :: rest →
          let t := run step s front
          let bits := trace step spiBits s front
          let shifted := trace step spiBits (t.step e) rest
          t.sckFalls e = true → bits.length % 8 = 0 →
          nextByte (words 8 bits) = .data cmd start i → readMode cmd = true →
          shifted.length ≤ 7 → (run step s es).sck = false →
            sdo (run step s es).spi =
              ((t.step e).fdata (dataAddress start i)).getMsbD shifted.length := by
  intro s hspi hsel hfree
  have hport := sharedPort_reset hspi (portHeld_of_reachable mgmtGpioIn bus status datO before)
  refine ⟨?_, fun x _ hstrobe r ↦ ?_, ?_⟩
  · have hwrites := (sharedPort_run hport hsel hfree).2
    rw [List.nil_append, words_nil, writeList_nil, List.nil_append] at hwrites
    exact hwrites.symm
  · simp [RegisterEdge.apply, RegisterMap.posedgeCsclk, hstrobe]
  · rintro front e rest cmd start i rfl t bits shifted hfall hbyte hnext hread hlen hlow
    obtain ⟨hselFront, hselRest⟩ := (always_append _ _ _ _ _).1 hsel
    obtain ⟨hfreeFront, hfreeRest⟩ := (along_append _ _ _ _ _).1 hfree
    have hfront := (sharedPort_run hport hselFront hfreeFront).1
    rw [List.nil_append] at hfront
    have hleft : partialWord 8 bits = [] := by
      apply List.eq_nil_of_length_eq_zero
      rw [length_partialWord, hbyte]
    have hcapture := hfront.capture hselRest.1 hselRest.2.head hfreeRest.1 hfall hleft hnext hread
    have hafter := sharedPort_step hfront hselRest.1 hselRest.2.head hfreeRest.1
    cases hselRest.1.spiEvent hselRest.2.head with
    | fall hedge hhigh hlow' hbits hspi' hwbbd =>
      rw [hbits, List.append_nil] at hafter
      rw [run_append] at hlow ⊢
      have hshown := shows_run hafter hselRest.2 hfreeRest.2 (by rw [hlow']; exact hcapture)
        (by rw [hleft]; simpa using hlen) hlow
      rw [hleft, List.length_nil, Nat.zero_add] at hshown
      exact hshown
    | rise hedge hlow' =>
      change t.sck = false at hlow'
      simp [sckFalls, hlow'] at hfall
    | stay hnorise hsck =>
      have hsame : (t.drive e).sck = t.sck := hsck
      simp [sckFalls, hsame] at hfall

/-- The SPI writes `0x05` to register `0x1b`; in the middle of the data byte, the back door makes
an access while SCK is low. -/
def interleavedExample : List Event :=
  sendByte 0x80#8 ++ sendByte 0x1b#8 ++ (sendByte 0x05#8).take 9 ++ [.wishbone readExample] ++
    List.replicate 9 .wbClk ++ [.wishbone default, .wbClk, .wbClk] ++ (sendByte 0x05#8).drop 9

set_option maxRecDepth 10000 in
theorem spi_stream_undisturbed_interleavedExample :
    trace step spiWrites
      (run step (powerOn 0x8#38 default default 0#32)
        [.porb true, .wbRstn true, csbFalls]) interleavedExample = [(0x1b#8, 0x05#8)] := by
  have hbytes : words 8 (trace step spiBits (run step (powerOn 0x8#38 default default 0#32)
      [.porb true, .wbRstn true, csbFalls]) interleavedExample) = [0x80#8, 0x1b#8, 0x05#8] := by
    decide
  have hwrites := (spi_stream_undisturbed 0x8#38 default default 0#32
    [.porb true, .wbRstn true, csbFalls] interleavedExample (by decide) (by decide)
    (by decide)).1
  rw [hwrites, hbytes]
  simp [writeList, passThrough, fixedLength, dataWrites, writeMode, dataAddress]

/-- The same byte; before its last rising edge the back door enters its first setup state, where it
stalls with the port taken. -/
def stalledExample : List Event :=
  sendByte 0x80#8 ++ sendByte 0x1b#8 ++ (sendByte 0x05#8).take 22 ++
    [.wishbone readExample, .wbClk, .wbClk, .gpioIn 4 true, .gpioIn 4 false]

set_option maxRecDepth 10000 in
/-- The byte clocked in while the back door stalls is never written. -/
theorem spi_byte_lost :
    ¬∀ (mgmtGpioIn : BitVec 38) (bus : Bus) (status : Status) (datO : BitVec 32)
      (before es : List Event),
      let s := run step (powerOn mgmtGpioIn bus status datO) before
      s.spi = HousekeepingSpi.reset → Always step Selected s es →
        trace step spiWrites s es =
          writeList (words 8 (trace step spiBits s es)) := by
  intro h
  have hlost := h 0x8#38 default default 0#32 [.porb true, .wbRstn true, csbFalls] stalledExample
    (by decide) (by decide)
  have hbytes : words 8 (trace step spiBits (run step (powerOn 0x8#38 default default 0#32)
      [.porb true, .wbRstn true, csbFalls]) stalledExample) = [0x80#8, 0x1b#8, 0x05#8] := by
    decide
  have hnone : trace step spiWrites (run step (powerOn 0x8#38 default default 0#32)
      [.porb true, .wbRstn true, csbFalls]) stalledExample = [] := by decide
  rw [hnone, hbytes] at hlost
  simp [writeList, passThrough, fixedLength, dataWrites, writeMode] at hlost

end Housekeeping

end CaravelSoc
