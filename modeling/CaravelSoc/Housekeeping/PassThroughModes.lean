import CaravelSoc.Housekeeping.PassThrough

/-!
# The two pass-through modes together

A command byte with both pass-through bits set hands the pins over to both flash
memories: the last command bit stores the second flag whatever the first one is.
No other event does, so the modes exclude each other in exactly the runs without
such a command.
-/

open Sequential

namespace CaravelSoc.HousekeepingSpi

/-- Not both flash memories have a routing flag set. -/
def Exclusive (r : Registers) : Prop :=
  ¬((r.passThruMgmt = true ∨ r.passThruMgmtDelay = true) ∧
    (r.passThruUser = true ∨ r.passThruUserDelay = true))

instance : DecidablePred Exclusive := fun _ ↦ instDecidableNot

/-- The last bit of a command is due, with both pass-through bits before it set. -/
def NamesBoth (r : Registers) : Prop :=
  r.state = .command ∧ r.count = 7#3 ∧ r.prePassThruMgmt = true ∧ r.prePassThruUser = true

instance : DecidablePred NamesBoth := fun _ ↦ instDecidableAnd

/-- The routing flags that each state admits. In the command state the write strobe of a data byte
before it falls with SCK. -/
structure Staged (r : Registers) (sck : Bool) : Prop where
  command : r.state = .command →
    r.passThruMgmt = false ∧ r.passThruUser = false ∧ r.passThruUserDelay = false ∧
      r.passThruMgmtDelay = (decide (r.count = 7#3) && r.prePassThruMgmt)
  strobe : r.state = .command → sck = false ∨ r.count ≠ 0#3 → r.wrstb = false
  access : r.state = .address ∨ r.state = .data →
    r.passThruMgmt = false ∧ r.passThruUser = false ∧ r.passThruUserDelay = false ∧
      r.passThruMgmtDelay = false
  mgmtPass : r.state = .mgmtPass → r.passThruMgmtDelay = true ∧ r.passThruUser = false
  userPass : r.state = .userPass → r.passThruMgmt = false ∧ r.passThruMgmtDelay = false

variable {r : Registers}

theorem staged_reset (sck : Bool) : Staged reset sck := by
  constructor <;> simp [reset]

theorem exclusive_reset : Exclusive reset := by decide

theorem ne_six_of_count_lt_five : ∀ count : BitVec 3, count < 5#3 → count ≠ 6#3 := by decide

theorem count_succ : ∀ count : BitVec 3, count ≠ 7#3 → (count + 1#3 = 7#3 ↔ count = 6#3) := by
  decide

/-- The flags after a command bit that is not the last one. -/
theorem commandBit_flags_of_ne_seven (hcount : r.count ≠ 7#3) (sdi : Bool) :
    (commandBit r sdi).passThruMgmt = r.passThruMgmt ∧
      (commandBit r sdi).passThruUser = r.passThruUser ∧
      (commandBit r sdi).passThruUserDelay = r.passThruUserDelay ∧
      (commandBit r sdi).wrstb = r.wrstb ∧
      (r.count = 6#3 → (commandBit r sdi).passThruMgmtDelay = r.prePassThruMgmt ∧
        (commandBit r sdi).prePassThruMgmt = r.prePassThruMgmt) ∧
      (r.count ≠ 6#3 → (commandBit r sdi).passThruMgmtDelay = r.passThruMgmtDelay) := by
  have hfive := ne_six_of_count_lt_five r.count
  have hlast := eq_seven_of_count r.count
  unfold commandBit
  split_ifs <;> simp_all

/-- The last command bit takes over the flag of the user flash, and picks the state. -/
theorem commandBit_flags_of_seven (hcount : r.count = 7#3) (sdi : Bool) :
    (commandBit r sdi).passThruMgmt = r.passThruMgmt ∧
      (commandBit r sdi).passThruUser = r.passThruUser ∧
      (commandBit r sdi).passThruUserDelay = r.prePassThruUser ∧
      (commandBit r sdi).passThruMgmtDelay = r.passThruMgmtDelay ∧
      (commandBit r sdi).state = if r.prePassThruMgmt then .mgmtPass
        else if r.prePassThruUser then .userPass else .address := by
  simp only [commandBit, hcount]
  cases r.prePassThruMgmt <;> cases r.prePassThruUser <;> exact ⟨rfl, rfl, rfl, rfl, rfl⟩

theorem Staged.rise_command (h : Staged r false) (hstate : r.state = .command) (sdi : Bool) :
    Staged (commandBit r sdi) true := by
  obtain ⟨hmgmt, huser, huserDelay, hmgmtDelay⟩ := h.command hstate
  have hstrobe := h.strobe hstate (.inl rfl)
  by_cases hcount : r.count = 7#3
  · obtain ⟨hmgmt', huser', huserDelay', hmgmtDelay', hstate'⟩ :=
      commandBit_flags_of_seven hcount sdi
    rw [hcount, decide_eq_true rfl, Bool.true_and] at hmgmtDelay
    constructor <;> rw [hstate']
    all_goals
      cases hpre : r.prePassThruMgmt <;> cases hpreUser : r.prePassThruUser <;> simp_all
  · obtain ⟨hmgmt', huser', huserDelay', hwrstb', hsix, hother⟩ :=
      commandBit_flags_of_ne_seven hcount sdi
    obtain ⟨hstate', hcount'⟩ := commandBit_of_ne_seven hcount sdi
    constructor <;> rw [hstate', hstate]
    · refine fun _ ↦ ⟨hmgmt'.trans hmgmt, huser'.trans huser, huserDelay'.trans huserDelay, ?_⟩
      by_cases hcountSix : r.count = 6#3
      · obtain ⟨hdelay, hpre⟩ := hsix hcountSix
        simp [hdelay, hpre, hcount', hcountSix]
      · simp [hother hcountSix, hmgmtDelay, hcount', count_succ, hcountSix, hcount]
    · exact fun _ _ ↦ hwrstb'.trans hstrobe
    all_goals simp

theorem Staged.rise (h : Staged r false) (sdi : Bool) :
    Staged (posedgeSck r sdi) true := by
  cases hstate : r.state with
  | command =>
    simp only [posedgeSck, hstate]
    exact h.rise_command hstate sdi
  | address =>
    obtain ⟨hmgmt, huser, huserDelay, hmgmtDelay⟩ := h.access (.inl hstate)
    simp only [posedgeSck, hstate, addressBit]
    split_ifs <;> constructor <;> simp_all
  | data =>
    obtain ⟨hmgmt, huser, huserDelay, hmgmtDelay⟩ := h.access (.inr hstate)
    simp only [posedgeSck, hstate, dataBit]
    by_cases hlast : r.count = 7#3 ∧ r.fixed = 1#3
    · simp only [if_pos hlast]
      constructor <;> simp_all
    · simp only [if_neg hlast]
      constructor <;> simp_all
  | mgmtPass =>
    have hpass := h.mgmtPass hstate
    simp only [posedgeSck, hstate]
    constructor <;> simp_all
  | userPass =>
    have hpass := h.userPass hstate
    simp only [posedgeSck, hstate]
    constructor <;> simp_all

theorem Staged.fall {sck : Bool} (h : Staged r sck) (idata : BitVec 8) :
    Staged (negedgeSck r idata) false := by
  have hcommand := h.command
  have haccess := h.access
  have hmgmt := h.mgmtPass
  have huser := h.userPass
  unfold negedgeSck
  split <;> constructor <;> simp_all

/-- The bit that completes a command naming both sets both flags, and no other bit does. -/
theorem Staged.exclusive_rise (h : Staged r false) (hexclusive : Exclusive r) (sdi : Bool) :
    Exclusive (posedgeSck r sdi) ↔ ¬NamesBoth r := by
  cases hstate : r.state with
  | command =>
    obtain ⟨hmgmt, huser, huserDelay, hmgmtDelay⟩ := h.command hstate
    simp only [posedgeSck, hstate]
    by_cases hcount : r.count = 7#3
    · obtain ⟨hmgmt', huser', huserDelay', hmgmtDelay', -⟩ := commandBit_flags_of_seven hcount sdi
      simp [Exclusive, NamesBoth, *]
    · obtain ⟨-, huser', huserDelay', -⟩ := commandBit_flags_of_ne_seven hcount sdi
      simp [Exclusive, NamesBoth, *]
  | address =>
    obtain ⟨hmgmt, huser, huserDelay, hmgmtDelay⟩ := h.access (.inl hstate)
    simp_all [posedgeSck, addressBit, Exclusive, NamesBoth]
  | data =>
    obtain ⟨hmgmt, huser, huserDelay, hmgmtDelay⟩ := h.access (.inr hstate)
    simp_all [posedgeSck, dataBit, Exclusive, NamesBoth]
  | mgmtPass =>
    obtain ⟨hdelay, huser⟩ := h.mgmtPass hstate
    simp_all [posedgeSck, Exclusive, NamesBoth]
  | userPass =>
    obtain ⟨hmgmt, hdelay⟩ := h.userPass hstate
    simp_all [posedgeSck, Exclusive, NamesBoth]

theorem exclusive_negedgeSck (idata : BitVec 8) : Exclusive (negedgeSck r idata) ↔ Exclusive r := by
  unfold negedgeSck
  split <;> rfl

end CaravelSoc.HousekeepingSpi

namespace CaravelSoc.Housekeeping

open HousekeepingSpi BackDoor

variable {s : Housekeeping} {e : Event}

/-- The three ways an event can move the SPI, or none. -/
theorem step_spi_cases (s : Housekeeping) (e : Event) :
    (s.step e).spi = HousekeepingSpi.reset ∨
      (s.sckRises e = true ∧ (s.step e).spi = posedgeSck s.spi (s.drive e).sdi) ∨
      (s.sckFalls e = true ∧ (s.step e).spi = negedgeSck s.spi (s.drive e).odata) ∨
      ((s.step e).sck = s.sck ∧ (s.step e).spi = s.spi) := by
  have hsettle : (s.step e).spi = HousekeepingSpi.reset ∨
      (s.step e).spi = nextSpi s (s.drive e) := by
    change (if _ then _ else _) = _ ∨ (if _ then _ else _) = _
    split_ifs
    · exact .inl rfl
    · exact .inr rfl
  rcases hsettle with hreset | hnext
  · exact .inl hreset
  · rw [hnext, nextSpi, drive_spi]
    split_ifs with hreset hrise hfall
    · exact .inl rfl
    · exact .inr (.inl ⟨hrise, rfl⟩)
    · exact .inr (.inr (.inl ⟨hfall, rfl⟩))
    · refine .inr (.inr (.inr ⟨?_, rfl⟩))
      rw [step_sck]
      cases hold : s.sck <;> cases hnew : (s.drive e).sck <;> simp_all

/-- The SPI is staged, and in reset while CSB is high. -/
def SpiStaged (s : Housekeeping) : Prop :=
  Staged s.spi s.sck ∧ (s.csbReset = true → s.spi = HousekeepingSpi.reset)

theorem spiStaged_step (h : SpiStaged s) : SpiStaged (s.step e) := by
  refine ⟨?_, fun hreset ↦ if_pos hreset⟩
  rcases step_spi_cases s e with hreset | ⟨hrise, hspi⟩ | ⟨hfall, hspi⟩ | ⟨hsck, hspi⟩
  · rw [hreset]
    exact staged_reset _
  · simp only [sckRises, Bool.and_eq_true, Bool.not_eq_true'] at hrise
    rw [hspi, step_sck, hrise.2]
    exact (hrise.1 ▸ h.1).rise _
  · simp only [sckFalls, Bool.and_eq_true, Bool.not_eq_true'] at hfall
    rw [hspi, step_sck, hfall.2]
    exact h.1.fall _
  · rw [hspi, hsck]
    exact h.1

/-- An edge of SCK without the write strobe leaves CSB at the SPI as it is. -/
theorem csbReset_of_sckRises (h : s.sckRises e = true) (hstrobe : s.spi.wrstb = false) :
    (s.step e).csbReset = s.csbReset := by
  obtain ⟨level, rfl⟩ := eq_gpioIn_of_sck_ne (sck_ne_of_sckRises h)
  have hporb : (s.step (.gpioIn 4 level)).porb = s.porb := rfl
  have hpin : (s.step (.gpioIn 4 level)).csbPin = s.csbPin := by
    change (setPart s.mgmtGpioIn 4 (BitVec.ofBool level)).getLsbD 3 = s.mgmtGpioIn.getLsbD 3
    rw [getLsbD_setPart _ _ _ _ (by omega), if_neg (by omega)]
  cases hgood : s.porb with
  | false => simp [csbReset, hporb, hgood]
  | true =>
    have hedges : ∀ x ∈ s.registerEdges (.gpioIn 4 level), x.cwstb = false := by
      intro x hx
      cases hbusy : s.wbbd.busy with
      | true =>
        have hheld : csclkRises s (s.drive (.gpioIn 4 level)) = false := by
          simp [csclkRises, csclk, drive, hbusy]
        simp [registerEdges, hheld] at hx
      | false =>
        refine spiEdges_of_wrstb hstrobe x (List.mem_filter.2 ⟨hx, ?_⟩)
        rw [registerEdges] at hx
        split at hx
        · obtain rfl := List.mem_singleton.1 hx
          exact congrArg (!·) hbusy
        · simp at hx
    have henabled : (s.step (.gpioIn 4 level)).spiIsEnabled = s.spiIsEnabled := by
      rw [spiIsEnabled, step_regs (hporb.trans hgood)]
      rcases foldl_apply_of_not_strobed s.regs hedges with hregs | hregs <;> rw [hregs] <;> rfl
    simp only [csbReset, csb, henabled, hpin, hporb]

/-- An event that completes a command naming both memories. -/
def CompletesBoth (s : Housekeeping) (e : Event) : Prop :=
  s.sckRises e = true ∧ NamesBoth s.spi

instance (s : Housekeeping) (e : Event) : Decidable (CompletesBoth s e) := instDecidableAnd

theorem exclusive_step_iff (h : SpiStaged s) (hexclusive : Exclusive s.spi) :
    Exclusive (s.step e).spi ↔ ¬CompletesBoth s e := by
  constructor
  · rintro hafter ⟨hrise, hboth⟩
    have hedge := hrise
    simp only [sckRises, Bool.and_eq_true, Bool.not_eq_true'] at hedge
    have hstrobe : s.spi.wrstb = false := h.1.strobe hboth.1 (.inl hedge.1)
    have hlow : s.csbReset = false := by
      rw [← Bool.not_eq_true]
      intro hhigh
      have hcount := hboth.2.1
      rw [h.2 hhigh] at hcount
      exact absurd hcount (by decide)
    rw [step_spi hlow ((csbReset_of_sckRises hrise hstrobe).trans hlow), if_pos hrise] at hafter
    exact ((hedge.1 ▸ h.1).exclusive_rise hexclusive _).1 hafter hboth
  · intro hnot
    rcases step_spi_cases s e with hreset | ⟨hrise, hspi⟩ | ⟨hfall, hspi⟩ | ⟨hsck, hspi⟩
    · rw [hreset]
      exact exclusive_reset
    · have hedge := hrise
      simp only [sckRises, Bool.and_eq_true, Bool.not_eq_true'] at hedge
      rw [hspi]
      exact ((hedge.1 ▸ h.1).exclusive_rise hexclusive _).2 fun hboth ↦ hnot ⟨hrise, hboth⟩
    · rw [hspi]
      exact (exclusive_negedgeSck _).2 hexclusive
    · rw [hspi]
      exact hexclusive

/-- **Exclusive modes.** In a run from power-on the routing flags of the two flash memories exclude
each other in every state if and only if no event completes a command that names both. -/
theorem pass_through_exclusive_iff (mgmtGpioIn : BitVec 38) (bus : Bus) (status : Status)
    (datO : BitVec 32) (es : List Event) :
    Always step (fun s ↦ Exclusive s.spi) (powerOn mgmtGpioIn bus status datO) es ↔
      Along step (fun s e ↦ ¬CompletesBoth s e) (powerOn mgmtGpioIn bus status datO) es :=
  always_iff_along (fun _ _ h ↦ spiStaged_step h) (fun _ _ h hexclusive ↦ exclusive_step_iff h
    hexclusive) ⟨staged_reset _, fun _ ↦ rfl⟩ exclusive_reset

set_option maxRecDepth 10000 in
/-- The command byte `0x06` sets the delayed flags of both. -/
theorem not_exclusive_command_six :
    ¬Exclusive (run step (released 0x8#38 default) (csbFalls :: sendByte 0x06#8)).spi := by
  decide

end CaravelSoc.Housekeeping
