import CaravelSoc.Housekeeping.SpiStream
import Mathlib.Tactic.IntervalCases

/-!
# Flash pass-through

Two command bits hand the SPI pins over to a flash memory: bit 2 to the flash of
the management core, with the core held in reset, and bit 1 to a flash of the user
area on GPIO 8 to 10. Reset, chip select, data and clock are handed over at
different bits of the command, and the first clock edge the flash sees is the
switching of its clock multiplexer. This file has the multiplexers and shows that
the flash receives every bit after the command, and only those.
-/

open Sequential

namespace CaravelSoc

/-- Levels at the flash side of `housekeeping`, driven by the core and by the flash. -/
structure FlashInputs where
  spimemioFlashCsb : Bool
  spimemioFlashClk : Bool
  spimemioFlashIo0Oeb : Bool
  spimemioFlashIo1Oeb : Bool
  spimemioFlashIo0Do : Bool
  spimemioFlashIo1Do : Bool
  padFlashIo0Di : Bool
  padFlashIo1Di : Bool
  deriving DecidableEq, Inhabited, Repr

/-- The multiplexed outputs at the flash side. -/
structure FlashOutputs where
  padFlashCsb : Bool
  padFlashCsbOeb : Bool
  padFlashClk : Bool
  padFlashClkOeb : Bool
  padFlashIo0Oeb : Bool
  padFlashIo1Oeb : Bool
  padFlashIo0Ieb : Bool
  padFlashIo1Ieb : Bool
  padFlashIo0Do : Bool
  padFlashIo1Do : Bool
  spimemioFlashIo0Di : Bool
  spimemioFlashIo1Di : Bool
  deriving DecidableEq, Repr

namespace Housekeeping

open HousekeepingSpi

/-- The output `reset`. -/
def resetOut (s : Housekeeping) : Bool := RegisterMap.resetOut s.regs s.nets

/-- The output `irq`: its own bit, and two that come from pins. -/
def irq (s : Housekeeping) : BitVec 3 :=
  BitVec.ofBool (if s.regs.irq2Inputsrc then s.mgmtGpioIn.getLsbD 12 else false) ++
    BitVec.ofBool (if s.regs.irq1Inputsrc then s.mgmtGpioIn.getLsbD 7 else false) ++
    BitVec.ofBool s.regs.irqSpi

/-- Pass-through of the management flash; the clock buffer is a wire. -/
def flashOutputs (s : Housekeeping) (x : FlashInputs) : FlashOutputs where
  padFlashCsb := if s.spi.passThruMgmtDelay then s.mgmtGpioIn.getLsbD 3 else x.spimemioFlashCsb
  padFlashCsbOeb := if s.spi.passThruMgmtDelay then false else if !s.porb then true else false
  padFlashClk := if s.spi.passThruMgmt then s.mgmtGpioIn.getLsbD 4 else x.spimemioFlashClk
  padFlashClkOeb := if s.spi.passThruMgmt then false else if !s.porb then true else false
  padFlashIo0Oeb := if s.spi.passThruMgmtDelay then false else x.spimemioFlashIo0Oeb
  padFlashIo1Oeb := if s.spi.passThruMgmt then true else x.spimemioFlashIo1Oeb
  padFlashIo0Ieb := if s.spi.passThruMgmtDelay then true else !x.spimemioFlashIo0Oeb
  padFlashIo1Ieb := if s.spi.passThruMgmt then false else !x.spimemioFlashIo1Oeb
  padFlashIo0Do := if s.spi.passThruMgmtDelay then s.mgmtGpioIn.getLsbD 2 else x.spimemioFlashIo0Do
  padFlashIo1Do := x.spimemioFlashIo1Do
  spimemioFlashIo0Di := if s.spi.passThruMgmtDelay then false else x.padFlashIo0Di
  spimemioFlashIo1Di := if s.spi.passThruMgmt then false else x.padFlashIo1Di

/-- `mgmt_gpio_out[10]`. -/
def mgmtGpioOut10 (s : Housekeeping) : Bool :=
  if s.spi.passThruUserDelay then s.mgmtGpioIn.getLsbD 2 else s.regs.mgmtGpioData.getLsbD 10

/-- `mgmt_gpio_out[9]`, behind a clock buffer. -/
def mgmtGpioOut9 (s : Housekeeping) : Bool :=
  if s.spi.passThruUser then s.mgmtGpioIn.getLsbD 4 else s.regs.mgmtGpioData.getLsbD 9

/-- `mgmt_gpio_out[8]`. -/
def mgmtGpioOut8 (s : Housekeeping) : Bool :=
  if s.spi.passThruUserDelay then s.mgmtGpioIn.getLsbD 3 else s.regs.mgmtGpioData.getLsbD 8

/-- `mgmt_gpio_out[1]`, the SDO pin. -/
def mgmtGpioOut1 (s : Housekeeping) (x : FlashInputs) : Bool :=
  if s.spi.passThruMgmt then x.padFlashIo1Di
  else if s.spi.passThruUser then s.mgmtGpioIn.getLsbD 11
  else if s.spiIsActive then sdo s.spi
  else s.regs.mgmtGpioData.getLsbD 1

/-- `mgmt_gpio_oeb[1]`. -/
def mgmtGpioOeb1 (s : Housekeeping) : Bool :=
  if s.spiIsActive then s.spi.sdoenb else !(s.regs.gpioConfigure 1).getLsbD inpDis

end Housekeeping

/-- The housekeeping module next to the levels at its flash side. -/
structure FlashPort where
  housekeeping : Housekeeping
  flash : FlashInputs

namespace FlashPort

open Housekeeping HousekeepingSpi

/-- One event and the levels at the flash side after it. -/
def step (t : FlashPort) (e : Event × FlashInputs) : FlashPort where
  housekeeping := t.housekeeping.step e.1
  flash := e.2

/-- The bits that an event clocks into the SPI. -/
def spiBits (t : FlashPort) (e : Event × FlashInputs) : List Bool := t.housekeeping.spiBits e.1

def outputs (t : FlashPort) : FlashOutputs := t.housekeeping.flashOutputs t.flash

/-- CSB is low at the SPI. -/
def CsbLow (t : FlashPort) : Prop := t.housekeeping.csbReset = false

instance : DecidablePred CsbLow := fun _ ↦ instDecidableEqBool _ _

end FlashPort

/-- The two flash memories that a command can name. -/
inductive Flash
  | mgmt
  | user
  deriving DecidableEq, Repr

namespace Flash

open Housekeeping HousekeepingSpi

/-- The command bits that name a flash, and not both. -/
def Named : Flash → BitVec 8 → Prop
  | mgmt, command => command.getLsbD 2 = true ∧ command.getLsbD 1 = false
  | user, command => command.getLsbD 2 = false ∧ command.getLsbD 1 = true

def passState : Flash → State
  | mgmt => .mgmtPass
  | user => .userPass

def passThru : Flash → Registers → Bool
  | mgmt, r => r.passThruMgmt
  | user, r => r.passThruUser

def passThruDelay : Flash → Registers → Bool
  | mgmt, r => r.passThruMgmtDelay
  | user, r => r.passThruUserDelay

def other : Flash → Flash
  | mgmt => user
  | user => mgmt

/-- The chip select, clock and data pins of the flash. -/
def csb : Flash → FlashPort → Bool
  | mgmt, t => t.outputs.padFlashCsb
  | user, t => t.housekeeping.mgmtGpioOut8

def clk : Flash → FlashPort → Bool
  | mgmt, t => t.outputs.padFlashClk
  | user, t => t.housekeeping.mgmtGpioOut9

def dataIn : Flash → FlashPort → Bool
  | mgmt, t => t.outputs.padFlashIo0Do
  | user, t => t.housekeeping.mgmtGpioOut10

def dataOut : Flash → FlashPort → Bool
  | mgmt, t => t.flash.padFlashIo1Di
  | user, t => t.housekeeping.mgmtGpioIn.getLsbD 11

/-- The source of the clock pin that pass-through replaces is low: the core's flash clock while the
core is in reset, or the data register of GPIO 9. -/
def IdleClock : Flash → FlashPort → Prop
  | mgmt, t => t.housekeeping.resetOut = true → t.flash.spimemioFlashClk = false
  | user, t => t.housekeeping.regs.mgmtGpioData.getLsbD 9 = false

instance (flash : Flash) : DecidablePred flash.IdleClock := fun t ↦
  match flash with
  | mgmt => inferInstanceAs (Decidable (t.housekeeping.resetOut = true → _ = false))
  | user => instDecidableEqBool _ _

/-- What the flash sees of an event: the data at a rising edge of its clock. -/
def bits (flash : Flash) (t : FlashPort) (e : Event × FlashInputs) : List Bool :=
  if !flash.clk t && flash.clk (t.step e) then [flash.dataIn (t.step e)] else []

end Flash

namespace HousekeepingSpi

/-- The rising-edge block after the bits clocked in since CSB fell. -/
def clocked (bits : List Bool) : Registers := bits.foldl posedgeSck reset

/-- The bits of a byte, most significant first. -/
def byteBits (byte : BitVec 8) : List Bool := (List.range 8).map byte.getMsbD

@[simp]
theorem length_byteBits (byte : BitVec 8) : (byteBits byte).length = 8 := rfl

/-- The routing registers after `n` bits of a period whose command names a flash. -/
structure Routed (flash : Flash) (r : Registers) (n : ℕ) : Prop where
  state : r.state = if n < 8 then .command else flash.passState
  delay : 8 ≤ n → flash.passThruDelay r = true
  pass : flash.passThru r = decide (9 ≤ n)
  delayOther : flash.other.passThruDelay r = false
  passOther : flash.other.passThru r = false
  reset : passThruMgmtReset r = (flash == .mgmt && decide (6 ≤ n))

/-- The command byte hands over reset and data. -/
theorem routed_command {flash : Flash} {command : BitVec 8} (hnamed : flash.Named command) {n : ℕ}
    (hn : n ≤ 8) : Routed flash (clocked ((byteBits command).take n)) n := by
  have hbits : byteBits command = [command.getMsbD 0, command.getMsbD 1, command.getMsbD 2,
      command.getMsbD 3, command.getMsbD 4, command.getLsbD 2, command.getLsbD 1,
      command.getMsbD 7] := rfl
  cases flash <;>
  · rw [hbits, hnamed.1, hnamed.2]
    interval_cases n <;>
      constructor <;>
        simp [clocked, posedgeSck, commandBit, HousekeepingSpi.reset, Flash.passState,
          Flash.passThru, Flash.passThruDelay, Flash.other, passThruMgmtReset]

/-- Later bits hand over the clock, at the first of them, and nothing else. -/
theorem Routed.next {flash : Flash} {r : Registers} {n : ℕ} (h : Routed flash r n) (hn : 8 ≤ n)
    (bit : Bool) : Routed flash (posedgeSck r bit) (n + 1) := by
  have hstate : r.state = flash.passState := by rw [h.state, if_neg (by omega)]
  have hdelay := h.delay hn
  have hreset := h.reset
  have hother := h.delayOther
  have hpass := h.passOther
  cases flash <;>
  · simp only [posedgeSck, hstate, Flash.passState]
    refine ⟨?_, fun _ ↦ hdelay, ?_, hother, hpass, ?_⟩
    · exact (if_neg (by omega)).symm
    · exact (decide_eq_true (by omega)).symm
    · simp_all [passThruMgmtReset, show 6 ≤ n by omega, show 6 ≤ n + 1 by omega]

theorem routed_payload {flash : Flash} {command : BitVec 8} (hnamed : flash.Named command)
    (payload : List Bool) :
    Routed flash (clocked (byteBits command ++ payload)) (8 + payload.length) := by
  induction payload using List.reverseRecOn with
  | nil =>
    have hrouted := routed_command hnamed (n := 8) le_rfl
    rw [List.take_of_length_le (length_byteBits command).le] at hrouted
    rw [List.append_nil]
    exact hrouted
  | append_singleton payload bit ih =>
    have hnext := ih.next (by omega) bit
    rw [← List.append_assoc, List.length_append, List.length_singleton, ← Nat.add_assoc]
    simpa only [clocked, List.foldl_append, List.foldl_cons, List.foldl_nil] using hnext

/-- The routing registers of every part of the period. -/
theorem routed_prefix {flash : Flash} {command : BitVec 8} (hnamed : flash.Named command)
    {payload bits rest : List Bool} (h : bits ++ rest = byteBits command ++ payload) :
    Routed flash (clocked bits) bits.length := by
  have hlen := length_byteBits command
  rcases Nat.le_total bits.length 8 with hshort | hlong
  · have hbits : bits = (byteBits command).take bits.length := by
      calc
        bits
        _ = (bits ++ rest).take bits.length := by rw [List.take_left']; rfl
        _ = (byteBits command).take bits.length := by
          rw [h, List.take_append_of_le_length (by omega)]
    have hrouted := routed_command hnamed hshort
    rwa [← hbits] at hrouted
  · have hbits : bits = byteBits command ++ bits.drop 8 := by
      calc
        bits
        _ = bits.take 8 ++ bits.drop 8 := (List.take_append_drop 8 bits).symm
        _ = (bits ++ rest).take 8 ++ bits.drop 8 := by rw [List.take_append_of_le_length hlong]
        _ = byteBits command ++ bits.drop 8 := by rw [h, List.take_left' hlen]
    have hrouted := routed_payload hnamed (bits.drop 8)
    rw [← hbits, List.length_drop] at hrouted
    rwa [Nat.add_sub_of_le hlong] at hrouted

theorem routed_rising {flash : Flash} {r : Registers} {n : ℕ} :
    Routed flash (rising r) n ↔ Routed flash r n := by
  cases flash <;>
  · constructor
    all_goals
      rintro ⟨hstate, hdelay, hpass, hother, hpassOther, hreset⟩
      exact ⟨hstate, hdelay, hpass, hother, hpassOther, hreset⟩

/-- Outside the data state a falling edge keeps the strobe low, and opens the output for a flash. -/
theorem negedgeSck_of_routed {flash : Flash} {r : Registers} {n : ℕ} (h : Routed flash r n)
    (idata : BitVec 8) :
    (negedgeSck r idata).wrstb = false ∧ (8 ≤ n → (negedgeSck r idata).sdoenb = false) := by
  have hstate := h.state
  unfold negedgeSck
  by_cases hn : n < 8
  · rw [if_pos hn] at hstate
    rw [hstate]
    exact ⟨rfl, fun hlong ↦ absurd hn (by omega)⟩
  · rw [if_neg hn] at hstate
    rw [hstate]
    cases flash <;> exact ⟨rfl, fun _ ↦ rfl⟩

end HousekeepingSpi

namespace Housekeeping

open HousekeepingSpi

variable {s : Housekeeping} {e : Event} {bits : List Bool} {flash : Flash}

/-- The rising-edge block takes the bits that are clocked in. -/
theorem rising_step (h : s.csbReset = false) (h' : (s.step e).csbReset = false) :
    rising (s.step e).spi = (s.spiBits e).foldl posedgeSck (rising s.spi) := by
  rw [step_spi h h', spiBits]
  split_ifs
  · exact rising_posedgeSck ..
  · exact rising_negedgeSck ..
  · rfl

/-- A period whose command names a flash, `bits` of it clocked in. -/
structure HandedOver (flash : Flash) (s : Housekeeping) (bits : List Bool) : Prop where
  clocked : rising s.spi = clocked bits
  routed : Routed flash s.spi bits.length
  wrstb : s.spi.wrstb = false
  /-- The output opens at the falling edge after the command. -/
  sdoenb : 8 ≤ bits.length → (s.sck = true → 9 ≤ bits.length) → s.spi.sdoenb = false

theorem HandedOver.step (h : HandedOver flash s bits) (hlow : s.csbReset = false)
    (hlow' : (s.step e).csbReset = false)
    (hrouted : Routed flash (HousekeepingSpi.clocked (bits ++ s.spiBits e))
      (bits ++ s.spiBits e).length) :
    HandedOver flash (s.step e) (bits ++ s.spiBits e) := by
  have hclocked : rising (s.step e).spi = HousekeepingSpi.clocked (bits ++ s.spiBits e) := by
    calc
      rising (s.step e).spi
      _ = (s.spiBits e).foldl posedgeSck (rising s.spi) := rising_step hlow hlow'
      _ = HousekeepingSpi.clocked (bits ++ s.spiBits e) := by
        rw [h.clocked, HousekeepingSpi.clocked, HousekeepingSpi.clocked, List.foldl_append]
  have hspi := step_spi hlow hlow'
  refine ⟨hclocked, routed_rising.1 (hclocked ▸ hrouted), ?_, ?_⟩
  · rw [hspi]
    split_ifs
    · rw [(posedgeSck_output _ _).1, h.wrstb]
    · exact (negedgeSck_of_routed h.routed _).1
    · exact h.wrstb
  · rw [hspi, List.length_append, spiBits, step_sck]
    intro hlong hbegun
    by_cases hrise : s.sckRises e = true
    · have hedge := hrise
      simp only [sckRises, Bool.and_eq_true, Bool.not_eq_true'] at hedge
      rw [if_pos hrise, List.length_singleton] at hlong hbegun
      rw [if_pos hrise, (posedgeSck_output _ _).2.2]
      have hnine := hbegun hedge.2
      exact h.sdoenb (by omega) fun hhigh ↦ absurd (hedge.1.symm.trans hhigh) (by decide)
    · rw [if_neg hrise, List.length_nil, Nat.add_zero] at hlong hbegun
      rw [if_neg hrise]
      split_ifs with hfall
      · exact (negedgeSck_of_routed h.routed _).2 hlong
      · refine h.sdoenb hlong fun hhigh ↦ hbegun ?_
        simp only [sckFalls, hhigh, Bool.true_and, Bool.not_eq_true'] at hfall
        simpa using hfall

/-- What the SPI side does to the registers in a period without the write strobe. -/
theorem spiEdges_of_wrstb (hwrstb : s.spi.wrstb = false) :
    ∀ x ∈ s.spiEdges e, x.cwstb = false := by
  intro x hx
  obtain ⟨hx, hside⟩ := List.mem_filter.1 hx
  rw [registerEdges] at hx
  split at hx
  · obtain rfl := List.mem_singleton.1 hx
    have hfree : (s.drive e).wbbd.busy = false := by simpa using hside
    simp [cwstb, hfree, hwrstb]
  · simp at hx

end Housekeeping

namespace FlashPort

open Housekeeping HousekeepingSpi

variable {t : FlashPort} {e : Event × FlashInputs} {flash : Flash} {bits : List Bool}

/-! ## The pins at one state -/

theorem clk_eq (hrouted : Routed flash t.housekeeping.spi bits.length)
    (hbits : flash = .mgmt → 6 ≤ bits.length) (hidle : flash.IdleClock t) :
    flash.clk t = (decide (9 ≤ bits.length) && t.housekeeping.sck) := by
  have hpass := hrouted.pass
  cases flash with
  | mgmt =>
    have hreset : t.housekeeping.resetOut = true := by
      rw [Housekeeping.resetOut, RegisterMap.resetOut]
      exact if_pos (hrouted.reset.trans (decide_eq_true (hbits rfl)))
    simp only [Flash.passThru] at hpass
    simp only [Flash.clk, outputs, flashOutputs, hpass, hidle hreset, sck]
    cases decide (9 ≤ bits.length) <;> simp
  | user =>
    simp only [Flash.passThru] at hpass
    simp only [Flash.IdleClock] at hidle
    simp only [Flash.clk, mgmtGpioOut9, hpass, hidle, sck]
    cases decide (9 ≤ bits.length) <;> simp

theorem dataIn_eq (hrouted : Routed flash t.housekeeping.spi bits.length)
    (hbits : 8 ≤ bits.length) : flash.dataIn t = t.housekeeping.sdi := by
  have hdelay := hrouted.delay hbits
  cases flash with
  | mgmt => exact if_pos hdelay
  | user => exact if_pos hdelay

theorem csb_eq (hrouted : Routed flash t.housekeeping.spi bits.length) (hbits : 8 ≤ bits.length) :
    flash.csb t = t.housekeeping.csbPin := by
  have hdelay := hrouted.delay hbits
  cases flash with
  | mgmt => exact if_pos hdelay
  | user => exact if_pos hdelay

/-- From the first bit after the command, SDO shows the data of the flash. -/
theorem mgmtGpioOut1_eq (hrouted : Routed flash t.housekeeping.spi bits.length)
    (hbits : 9 ≤ bits.length) :
    t.housekeeping.mgmtGpioOut1 t.flash = flash.dataOut t := by
  have hpass := hrouted.pass.trans (decide_eq_true hbits)
  have hother := hrouted.passOther
  cases flash with
  | mgmt => exact if_pos hpass
  | user =>
    rw [mgmtGpioOut1, if_neg (by rw [show t.housekeeping.spi.passThruMgmt = false from hother]
                                 decide)]
    exact if_pos hpass

/-! ## Runs -/

theorem housekeeping_run (t : FlashPort) (es : List (Event × FlashInputs)) :
    (run step t es).housekeeping = run Housekeeping.step t.housekeeping (es.map Prod.fst) := by
  induction es generalizing t with
  | nil => rfl
  | cons e rest ih => exact ih (t.step e)

/-- What an event shows the flash is what it clocks into the SPI, from the bit after the command. -/
theorem flashBits_eq (h : HandedOver flash t.housekeeping bits)
    (h' : HandedOver flash (t.step e).housekeeping (bits ++ t.spiBits e))
    (hbits : flash = .mgmt → 6 ≤ bits.length) (hidle : flash.IdleClock t)
    (hidle' : flash.IdleClock (t.step e)) :
    flash.bits t e = if 9 ≤ (bits ++ t.spiBits e).length then t.spiBits e else [] := by
  have hclk := clk_eq h.routed hbits hidle
  have hclk' := clk_eq h'.routed (fun hmgmt ↦ by
    have := hbits hmgmt
    rw [List.length_append]
    omega) hidle'
  have hsck : (t.step e).housekeeping.sck = (t.housekeeping.drive e.1).sck := rfl
  rw [Flash.bits, hclk, hclk', hsck]
  by_cases hrise : t.housekeeping.sckRises e.1 = true
  · have hedge := hrise
    simp only [sckRises, Bool.and_eq_true, Bool.not_eq_true'] at hedge
    have hone : t.spiBits e = [(t.housekeeping.drive e.1).sdi] := if_pos hrise
    by_cases hlong : 9 ≤ (bits ++ t.spiBits e).length
    · have hdata := dataIn_eq h'.routed (by omega)
      rw [if_pos hlong, decide_eq_true hlong, hedge.1, hedge.2, Bool.and_false, hdata, hone]
      rfl
    · rw [if_neg hlong, decide_eq_false hlong, Bool.false_and, Bool.and_false]
      rfl
  · have hnone : t.spiBits e = [] := if_neg hrise
    rw [hnone, List.append_nil, ite_self]
    rw [sckRises] at hrise
    cases hold : t.housekeeping.sck <;> cases hnew : (t.housekeeping.drive e.1).sck <;>
      simp_all

/-- The run lemma: the period stays handed over, and the flash sees the bits after the command. -/
theorem handedOver_run {command : BitVec 8} (hnamed : flash.Named command)
    {payload rest : List Bool} {es : List (Event × FlashInputs)}
    (h : HandedOver flash t.housekeeping bits) (hlow : Always step CsbLow t es)
    (hperiod : bits ++ trace step spiBits t es ++ rest = byteBits command ++ payload) :
    HandedOver flash (run step t es).housekeeping (bits ++ trace step spiBits t es) ∧
      (Always step flash.IdleClock t es → (flash = .mgmt → 6 ≤ bits.length) →
        trace step flash.bits t es =
          (bits ++ trace step spiBits t es).drop (max bits.length 8)) := by
  induction es generalizing t bits with
  | nil =>
    rw [trace, List.append_nil]
    refine ⟨h, fun _ _ ↦ ?_⟩
    rw [trace, List.drop_of_length_le (le_max_left _ _)]
  | cons e es ih =>
    have hsplit : bits ++ t.spiBits e ++ trace step spiBits (t.step e) es ++ rest =
        byteBits command ++ payload := by
      rw [← hperiod, trace, List.append_assoc bits]
    have hnext : HandedOver flash (t.step e).housekeeping (bits ++ t.spiBits e) := by
      refine h.step hlow.1 hlow.2.head ?_
      rw [List.append_assoc] at hsplit
      exact routed_prefix hnamed hsplit
    obtain ⟨hrun, hflash⟩ := ih hnext hlow.2 hsplit
    rw [trace, ← List.append_assoc]
    refine ⟨hrun, fun hidle hbits ↦ ?_⟩
    have hbits' : flash = .mgmt → 6 ≤ (bits ++ t.spiBits e).length := fun hmgmt ↦ by
      have := hbits hmgmt
      rw [List.length_append]
      omega
    rw [trace, hflash hidle.2 hbits', flashBits_eq h hnext hbits hidle.1 hidle.2.head]
    have hone : (t.spiBits e).length ≤ 1 := by
      rw [FlashPort.spiBits, Housekeeping.spiBits]
      split_ifs <;> simp
    split_ifs with hlong
    · rw [List.length_append] at hlong
      have hlate : max bits.length 8 = bits.length := by omega
      have hlate' : max (bits ++ t.spiBits e).length 8 = (bits ++ t.spiBits e).length := by
        rw [List.length_append]
        omega
      rw [hlate, hlate', List.drop_left, List.append_assoc, List.drop_left]
    · rw [List.length_append] at hlong
      rw [List.length_append, show max (bits.length + (t.spiBits e).length) 8 = 8 by omega,
        show max bits.length 8 = 8 by omega, List.nil_append]

/-! ## The ends of a period -/

/-- No pin is handed over: the flash pins follow the core, the GPIO pins their data registers, and
only its register resets the core. -/
structure Unrouted (t : FlashPort) : Prop where
  csb : t.outputs.padFlashCsb = t.flash.spimemioFlashCsb
  clk : t.outputs.padFlashClk = t.flash.spimemioFlashClk
  io0Oeb : t.outputs.padFlashIo0Oeb = t.flash.spimemioFlashIo0Oeb
  io1Oeb : t.outputs.padFlashIo1Oeb = t.flash.spimemioFlashIo1Oeb
  io0Do : t.outputs.padFlashIo0Do = t.flash.spimemioFlashIo0Do
  io0Di : t.outputs.spimemioFlashIo0Di = t.flash.padFlashIo0Di
  io1Di : t.outputs.spimemioFlashIo1Di = t.flash.padFlashIo1Di
  gpio8 : t.housekeeping.mgmtGpioOut8 = t.housekeeping.regs.mgmtGpioData.getLsbD 8
  gpio9 : t.housekeeping.mgmtGpioOut9 = t.housekeeping.regs.mgmtGpioData.getLsbD 9
  gpio10 : t.housekeeping.mgmtGpioOut10 = t.housekeeping.regs.mgmtGpioData.getLsbD 10
  reset : t.housekeeping.resetOut = t.housekeeping.regs.resetReg

theorem unrouted_of_reset (hspi : t.housekeeping.spi = HousekeepingSpi.reset) : Unrouted t := by
  constructor <;>
    simp [outputs, flashOutputs, mgmtGpioOut8, mgmtGpioOut9, mgmtGpioOut10, Housekeeping.resetOut,
      RegisterMap.resetOut, nets, passThruMgmtReset, hspi, HousekeepingSpi.reset]

theorem handedOver_reset {s : Housekeeping} (hspi : s.spi = HousekeepingSpi.reset)
    {command : BitVec 8} (hnamed : flash.Named command) : HandedOver flash s [] where
  clocked := by
    rw [hspi]
    rfl
  routed := by
    rw [hspi]
    exact routed_command hnamed (Nat.zero_le 8)
  wrstb := by
    rw [hspi]
    rfl
  sdoenb hlong := absurd hlong (by decide)

/-- Both ends of the period included, the SPI side leaves every register but the two self-resetting
flags. -/
theorem spiEdges_period {command : BitVec 8} (hnamed : flash.Named command) {payload : List Bool}
    {s : Housekeeping} (hspi : s.spi = HousekeepingSpi.reset) {x : FlashInputs}
    {es : List (Event × FlashInputs)} (hlow : Always step CsbLow ⟨s.step csbFalls, x⟩ es)
    (hperiod : trace step spiBits ⟨s.step csbFalls, x⟩ es = byteBits command ++ payload) :
    ∀ edge ∈ trace Housekeeping.step spiEdges s (csbFalls :: (es.map Prod.fst ++ [csbRises])),
      ∀ r, edge.apply r = { r with serialXfer := false, irqSpi := false } := by
  have hstart : HandedOver flash (s.step csbFalls) [] :=
    handedOver_reset (spi_csbFalls hspi) hnamed
  have hstrobe : Always Housekeeping.step (fun u ↦ u.spi.wrstb = false) (s.step csbFalls)
      (es.map Prod.fst) := by
    rw [always_iff_forall_append]
    intro front back hsplit
    obtain ⟨front, back, rfl, rfl, -⟩ := List.map_eq_append_iff.1 hsplit
    rw [trace_append] at hperiod
    have hfront := handedOver_run (t := ⟨s.step csbFalls, x⟩) hnamed hstart
      ((always_append _ _ _ _ _).1 hlow).1 hperiod
    rw [← housekeeping_run ⟨s.step csbFalls, x⟩ front]
    exact hfront.1.wrstb
  have hunstrobed : ∀ edge ∈ trace Housekeeping.step spiEdges s
      (csbFalls :: (es.map Prod.fst ++ [csbRises])), edge.cwstb = false := by
    rw [forall_mem_trace_iff]
    refine ⟨spiEdges_of_wrstb (by rw [hspi]; rfl), (along_append _ _ _ _ _).2 ⟨?_, ?_, trivial⟩⟩
    · exact hstrobe.along.mono fun _ _ h ↦ spiEdges_of_wrstb h.1
    · exact spiEdges_of_wrstb hstrobe.last
  intro edge hedge r
  simp [RegisterEdge.apply, RegisterMap.posedgeCsclk, hunstrobed edge hedge]

/-- What the pins show while they are handed over. -/
theorem pins_of_handedOver {t : FlashPort} {bits : List Bool}
    (h : HandedOver flash t.housekeeping bits) (hlow : t.housekeeping.csbReset = false) :
    (flash = .mgmt → 6 ≤ bits.length → t.housekeeping.resetOut = true) ∧
      (8 ≤ bits.length → flash.csb t = false) ∧
      (flash = .mgmt → 8 ≤ bits.length → t.outputs.padFlashCsbOeb = false ∧
        t.outputs.padFlashClkOeb = false ∧ t.outputs.padFlashIo0Oeb = false) ∧
      (9 ≤ bits.length → t.housekeeping.mgmtGpioOut1 t.flash = flash.dataOut t ∧
        t.housekeeping.mgmtGpioOeb1 = false) := by
  obtain ⟨henabled, hpin, hporb⟩ := csbReset_eq_false_iff.1 hlow
  have hactive : t.housekeeping.spiIsActive = true := by
    simp [spiIsActive, henabled, hpin]
  refine ⟨?_, fun hn ↦ (csb_eq h.routed hn).trans hpin, ?_, fun hn ↦ ?_⟩
  · rintro rfl hn
    rw [Housekeeping.resetOut, RegisterMap.resetOut]
    exact if_pos (h.routed.reset.trans (decide_eq_true hn))
  · rintro rfl hn
    have hdelay : t.housekeeping.spi.passThruMgmtDelay = true := h.routed.delay hn
    simp [outputs, flashOutputs, hdelay, hporb]
  · refine ⟨mgmtGpioOut1_eq h.routed hn, ?_⟩
    rw [mgmtGpioOeb1, if_pos hactive]
    exact h.sdoenb (by omega) fun _ ↦ hn

/-- **Flash pass-through.** After CSB falls, with any events and any levels of the core, and a
command that names one of the two flash memories, the flash sees its chip select low and exactly the
bits after the command, each at a rising edge of its clock, the SDO pin shows its data from the
first of these edges on, and the management flash keeps the core in reset from the sixth bit of the
command on. The SPI side changes no register but the two self-resetting flags, and no pin stays
handed over once CSB rises. -/
theorem pass_through (flash : Flash) (mgmtGpioIn : BitVec 38) (bus : BackDoor.Bus)
    (status : Status) (datO : BitVec 32) (before : List Event) (x : FlashInputs)
    (es : List (Event × FlashInputs)) (command : BitVec 8) (payload : List Bool) :
    let s := run Housekeeping.step (powerOn mgmtGpioIn bus status datO) before
    let t : FlashPort := ⟨s.step csbFalls, x⟩
    s.csbReset = true → Always step CsbLow t es → Always step flash.IdleClock t es →
    flash.Named command → trace step spiBits t es = byteBits command ++ payload →
      (∀ front rest, es = front ++ rest →
        let u := run step t front
        let n := (trace step spiBits t front).length
        (flash = .mgmt → 6 ≤ n → u.housekeeping.resetOut = true) ∧
        (8 ≤ n → flash.csb u = false) ∧
        (flash = .mgmt → 8 ≤ n → u.outputs.padFlashCsbOeb = false ∧
          u.outputs.padFlashClkOeb = false ∧ u.outputs.padFlashIo0Oeb = false) ∧
        ((flash = .mgmt → 6 ≤ n) → n ≤ 8 → trace step flash.bits u rest = payload) ∧
        (9 ≤ n → u.housekeeping.mgmtGpioOut1 u.flash = flash.dataOut u ∧
          u.housekeeping.mgmtGpioOeb1 = false)) ∧
      (∀ edge ∈ trace Housekeeping.step spiEdges s
          (csbFalls :: (es.map Prod.fst ++ [csbRises])),
        ∀ r, edge.apply r = { r with serialXfer := false, irqSpi := false }) ∧
      ∀ x', Unrouted ((run step t es).step (csbRises, x')) := by
  intro s t hcsb hlow hidle hnamed hperiod
  have hspi : s.spi = HousekeepingSpi.reset :=
    spi_of_deselected mgmtGpioIn bus status datO before hcsb
  refine ⟨?_, spiEdges_period hnamed hspi hlow hperiod, fun x' ↦ ?_⟩
  · rintro front rest rfl u n
    obtain ⟨hlowFront, hlowRest⟩ := (always_append _ _ _ _ _).1 hlow
    have hidleRest := ((always_append _ _ _ _ _).1 hidle).2
    have hstart : HandedOver flash t.housekeeping [] :=
      handedOver_reset (spi_csbFalls hspi) hnamed
    rw [trace_append] at hperiod
    have hfront : HandedOver flash u.housekeeping (trace step spiBits t front) :=
      (handedOver_run hnamed hstart hlowFront hperiod).1
    obtain ⟨hreset, hcsb, hoeb, hsdo⟩ := pins_of_handedOver hfront hlowRest.head
    refine ⟨hreset, hcsb, hoeb, fun hn hshort ↦ ?_, hsdo⟩
    have hperiod' : trace step spiBits t front ++ trace step spiBits u rest ++ [] =
        byteBits command ++ payload := by rw [List.append_nil, hperiod]
    rw [(handedOver_run hnamed hfront hlowRest hperiod').2 hidleRest hn,
      show max (trace step spiBits t front).length 8 = 8 from max_eq_right hshort, hperiod]
    exact List.drop_left' (length_byteBits command)
  · exact unrouted_of_reset (if_pos csbReset_csbRises)

/-- A command for the management flash and three bits to it, with a level of zero throughout at the
flash side of the core. -/
def passThroughExample : List (Event × FlashInputs) :=
  (sendByte 0xc4#8 ++ sendBit true ++ sendBit false ++ sendBit true).map fun e ↦ (e, default)

set_option maxRecDepth 10000 in
theorem pass_through_passThroughExample :
    let t : FlashPort := ⟨(released 0x8#38 default).step csbFalls, default⟩
    trace step Flash.mgmt.bits (run step t (passThroughExample.take 24))
      (passThroughExample.drop 24) = [true, false, true] := by
  have h := pass_through .mgmt 0x8#38 default default 0#32 [.porb true, .wbRstn true] default
    passThroughExample 0xc4#8 [true, false, true] (by decide) (by decide) (by decide)
    ⟨by decide, by decide⟩ (by decide)
  exact (h.1 (passThroughExample.take 24) (passThroughExample.drop 24) (by decide)).2.2.2.1
    (by decide) (by decide)

end FlashPort

end CaravelSoc
