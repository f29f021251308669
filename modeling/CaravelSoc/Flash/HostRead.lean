import CaravelSoc.Flash.SpiRead
import CaravelSoc.Housekeeping.PassThrough

/-!
# Reading the flash through the housekeeping SPI

The flash of the management core sits behind the multiplexers of `housekeeping`.
A host that names it in a command and goes on with a read command reads it at
SDO, although the core may have been reading it itself when the host came: the
core is in reset from the sixth bit of the command on, and has a bit of the host to
let go of the flash before the chip select is handed over.
-/

open Sequential Sequential.ShiftRegister

namespace CaravelSoc

open Housekeeping HousekeepingSpi
open SpiFlash (Follows Fresh OneLine Standby clockIn readCommand shown)

/-- The housekeeping module with the flash of the management core at its pins. -/
structure FlashHost where
  port : FlashPort
  chip : SpiFlash

namespace FlashHost

/-- The pins of the flash. While nobody drives `io0`, it has the level of the pad. -/
def pins (t : FlashPort) : FlashPins where
  csb := t.outputs.padFlashCsb
  clk := t.outputs.padFlashClk
  io := ⟨if t.outputs.padFlashIo0Oeb then t.flash.padFlashIo0Di else t.outputs.padFlashIo0Do,
    false, false, false⟩

/-- One event and the levels of the core after it; the level of `io1` is that of the flash. -/
def step (memory : BitVec 24 → BitVec 8) (t : FlashHost) (e : Event × FlashInputs) : FlashHost :=
  let chip := t.chip.step memory (pins (t.port.step e))
  { port := t.port.step (e.1, { e.2 with padFlashIo1Di := chip.io1 })
    chip := chip }

def spiBits (t : FlashHost) (e : Event × FlashInputs) : List Bool := t.port.spiBits e

/-- CSB is low at the SPI. -/
def CsbLow (t : FlashHost) : Prop := t.port.CsbLow

/-- The core neither selects nor clocks the flash. -/
def IdleCore (t : FlashHost) : Prop :=
  t.port.flash.spimemioFlashCsb = true ∧ t.port.flash.spimemioFlashClk = false

/-- The chip select and the data of the flash are the host's. -/
def delay (t : FlashHost) : Bool := t.port.housekeeping.spi.passThruMgmtDelay

/-- The flash is deselected, or it is in an exchange on one line. -/
def BetweenBits (memory : BitVec 24 → BitVec 8) (t : FlashHost) : Prop :=
  t.chip.Standby ∨
    ∃ c bits, Follows memory c bits t.chip ∧ OneLine (bits.foldl (clockIn memory) c)

/-- The reset has made the core let go of the flash when the chip select is handed over. -/
def ResetInTime (memory : BitVec 24 → BitVec 8) (t : FlashHost) (e : Event × FlashInputs) : Prop :=
  (t.step memory e).delay = true → t.IdleCore

/-- The pins and the flash agree. -/
structure Wired (t : FlashHost) : Prop where
  levels : t.chip.levels = ((pins t.port).csb, (pins t.port).clk)
  io1 : t.port.flash.padFlashIo1Di = t.chip.io1

variable {memory : BitVec 24 → BitVec 8} {t : FlashHost} {e : Event × FlashInputs}
  {bits : List Bool}

theorem wired_step (memory : BitVec 24 → BitVec 8) (t : FlashHost) (e : Event × FlashInputs) :
    (t.step memory e).Wired :=
  ⟨SpiFlash.levels_step _ _ _, rfl⟩

/-- The pins do not depend on the level of `io1`. -/
theorem pins_step (memory : BitVec 24 → BitVec 8) (t : FlashHost) (e : Event × FlashInputs) :
    (t.step memory e).chip = t.chip.step memory (pins (t.step memory e).port) := rfl

/-! ## The chip select is handed over before the clock -/

/-- The chip select and the data are handed over with the seventh bit of the command. -/
theorem delay_eq {command : BitVec 8} (hnamed : Flash.mgmt.Named command)
    {payload bits rest : List Bool} (h : bits ++ rest = byteBits command ++ payload) :
    (clocked bits).passThruMgmtDelay = decide (7 ≤ bits.length) := by
  rcases Nat.lt_or_ge bits.length 8 with hshort | hlong
  · have htake : bits = (byteBits command).take bits.length := by
      have hfront := congrArg (List.take bits.length) h
      rwa [List.take_left' rfl, List.take_append_of_le_length (by rw [length_byteBits]; omega)]
        at hfront
    have hbits : byteBits command = [command.getMsbD 0, command.getMsbD 1, command.getMsbD 2,
        command.getMsbD 3, command.getMsbD 4, command.getLsbD 2, command.getLsbD 1,
        command.getMsbD 7] := rfl
    rw [htake, hbits, hnamed.1, hnamed.2]
    generalize bits.length = n at hshort
    interval_cases n <;> simp [clocked, posedgeSck, commandBit, HousekeepingSpi.reset]
  · rw [decide_eq_true (by omega)]
    have hrouted := routed_prefix hnamed h
    exact hrouted.delay hlong

/-- Where the flash stands after `bits` of the period. -/
structure Serving (memory : BitVec 24 → BitVec 8) (bits : List Bool) (t : FlashHost) : Prop where
  handed : HandedOver .mgmt t.port.housekeeping bits
  wired : t.Wired
  before : bits.length < 7 → BetweenBits memory t
  after : 7 ≤ bits.length → ∃ c, Fresh c ∧ Follows memory c (bits.drop 8) t.chip

section Pins

variable {command : BitVec 8} {payload rest : List Bool}

theorem resetOut_of_handed (h : HandedOver .mgmt t.port.housekeeping bits)
    (hlong : 6 ≤ bits.length) : t.port.housekeeping.resetOut = true := by
  rw [Housekeeping.resetOut, RegisterMap.resetOut]
  exact if_pos (h.routed.reset.trans (decide_eq_true hlong))

theorem delay_of_handed (h : HandedOver .mgmt t.port.housekeeping bits)
    (hnamed : Flash.mgmt.Named command) (hperiod : bits ++ rest = byteBits command ++ payload) :
    t.delay = decide (7 ≤ bits.length) := by
  rw [← delay_eq hnamed hperiod, ← h.clocked]
  rfl

theorem pins_csb (h : HandedOver .mgmt t.port.housekeeping bits)
    (hnamed : Flash.mgmt.Named command) (hperiod : bits ++ rest = byteBits command ++ payload)
    (hlow : t.CsbLow) :
    (pins t.port).csb =
      if 7 ≤ bits.length then false else t.port.flash.spimemioFlashCsb := by
  obtain ⟨-, hpin, -⟩ := csbReset_eq_false_iff.1 hlow
  have hdelay := delay_of_handed h hnamed hperiod
  rw [delay] at hdelay
  simp only [pins, FlashPort.outputs, flashOutputs, hdelay, decide_eq_true_iff]
  split
  · exact hpin
  · rfl

/-- Until the clock is handed over, the idle core holds it low. -/
theorem pins_clk (h : HandedOver .mgmt t.port.housekeeping bits) (hidle : t.IdleCore)
    (hlong : 6 ≤ bits.length) (hshort : bits.length < 9) : (pins t.port).clk = false := by
  have hclk := FlashPort.clk_eq h.routed (fun _ ↦ hlong) fun _ ↦ hidle.2
  rw [decide_eq_false (by omega), Bool.false_and] at hclk
  exact hclk

/-- What the host sends behind the command. -/
theorem oneLine_of_payload {c : SpiFlash} (hfresh : Fresh c) {addr : BitVec 24}
    {more taken : List Bool} (h : taken <+: (readCommand addr).flatMap msbFirst ++ more)
    (hbound : taken.length / 8 < 2 ^ 31) : OneLine (taken.foldl (clockIn memory) c) := by
  have hwords := words_mono (n := 8) (by decide) h
  have hcommand := words_mono (n := 8) (by decide)
    (List.prefix_append ((readCommand addr).flatMap msbFirst) more)
  rw [words_flatMap_msbFirst (by decide)] at hcommand
  have hrequests : SpiFlash.Requests addr taken :=
    List.prefix_or_prefix_of_prefix hwords hcommand
  exact hrequests.oneLine hfresh hbound

theorem drop_command (h : bits ++ rest = byteBits command ++ payload) :
    bits.drop 8 <+: payload := by
  have hdrop := List.IsPrefix.drop (⟨rest, h⟩ : bits <+: byteBits command ++ payload) 8
  rwa [List.drop_left' (length_byteBits command)] at hdrop

end Pins

section Step

variable {command : BitVec 8} {addr : BitVec 24} {more rest : List Bool}

/-- The seventh bit: the flash is selected. -/
theorem Serving.select (h : Serving memory bits t) (hnamed : Flash.mgmt.Named command)
    (hlow : t.CsbLow) (hidle : t.IdleCore) (hidle' : (t.step memory e).IdleCore)
    (hsix : bits.length = 6) (hperiod : bits ++ rest = byteBits command ++ more)
    (hhanded : HandedOver .mgmt (t.step memory e).port.housekeeping (bits ++ t.spiBits e))
    (hseven : (bits ++ t.spiBits e).length = 7) (hcsb : (pins (t.step memory e).port).csb = false) :
    ∃ c, Fresh c ∧ Follows memory c ((bits ++ t.spiBits e).drop 8) (t.step memory e).chip := by
  have hstandby : t.chip.Standby := by
    have hcsb := pins_csb h.handed hnamed hperiod hlow
    rw [if_neg (by omega), hidle.1] at hcsb
    have hhigh : t.chip.csb = true := (congrArg Prod.fst h.wired.levels).trans hcsb
    rcases h.before (by omega) with hstandby | ⟨c, taken, hfollows, -⟩
    · exact hstandby
    · rw [hfollows.csb] at hhigh
      cases hhigh
  have hclk : t.chip.clk = false := by
    have hlevels := congrArg Prod.snd h.wired.levels
    exact hlevels.trans (pins_clk h.handed hidle hsix.ge (by omega))
  have hclk' := pins_clk hhanded hidle' (by omega) (by omega)
  rw [List.drop_of_length_le (by omega)]
  exact ⟨_, hstandby.fresh, hstandby.select memory hclk hcsb hclk'⟩

/-- From then on the flash takes what the SPI takes, once the clock is handed over. -/
theorem Serving.follow (h : Serving memory bits t) (hidle : t.IdleCore)
    (hidle' : (t.step memory e).IdleCore) (hseven : 7 ≤ bits.length)
    (hhanded : HandedOver .mgmt (t.step memory e).port.housekeeping (bits ++ t.spiBits e))
    (hdelay : (t.step memory e).delay = true)
    (hcsb : (pins (t.step memory e).port).csb = false)
    (hline : ∀ c, Fresh c → OneLine ((bits.drop 8).foldl (clockIn memory) c)) :
    ∃ c, Fresh c ∧ Follows memory c ((bits ++ t.spiBits e).drop 8) (t.step memory e).chip := by
  obtain ⟨c, hfresh, hfollows⟩ := h.after hseven
  refine ⟨c, hfresh, ?_⟩
  have hnext := hfollows.step (hline c hfresh) hcsb
  rw [← pins_step] at hnext
  have hio0 : (pins (t.step memory e).port).io.io0 = Flash.mgmt.dataIn (t.step memory e).port := by
    rw [delay] at hdelay
    simp [pins, Flash.dataIn, FlashPort.outputs, flashOutputs, hdelay]
  have hclk : t.chip.clk = Flash.mgmt.clk t.port := congrArg Prod.snd h.wired.levels
  have hbits := FlashPort.flashBits_eq
    (e := (e.1, { e.2 with padFlashIo1Di := (t.step memory e).chip.io1 })) h.handed hhanded
    (fun _ ↦ by omega) (fun _ ↦ hidle.2) (fun _ ↦ hidle'.2)
  change (if !Flash.mgmt.clk t.port && (pins (t.step memory e).port).clk then
    [Flash.mgmt.dataIn (t.step memory e).port] else []) =
      if 9 ≤ (bits ++ t.spiBits e).length then t.spiBits e else [] at hbits
  rw [hclk, hio0] at hnext
  have happend : (bits ++ t.spiBits e).drop 8 =
      bits.drop 8 ++ if 9 ≤ (bits ++ t.spiBits e).length then t.spiBits e else [] := by
    have hone : (t.spiBits e).length ≤ 1 := by
      rw [spiBits, FlashPort.spiBits, Housekeeping.spiBits]
      split_ifs <;> simp
    rw [List.length_append]
    split_ifs with hlong
    · rw [List.drop_append_of_le_length (by omega)]
    · rw [List.drop_of_length_le (by rw [List.length_append]; omega),
        List.drop_of_length_le (by omega), List.nil_append]
  rw [happend, ← hbits]
  split_ifs at hnext ⊢ with hrise
  · exact hnext
  · rwa [List.append_nil]

/-- What holds of the core and of CSB all the time: until the chip select is handed over the core
uses one line only, and from then on it leaves the flash alone. -/
structure Period (memory : BitVec 24 → BitVec 8) (t : FlashHost) : Prop where
  low : t.CsbLow
  oneLine : t.delay = false → BetweenBits memory t
  idle : t.delay = true → t.IdleCore

/-- **One event of the period.** -/
theorem Serving.step (hnamed : Flash.mgmt.Named command) (h : Serving memory bits t)
    (hold : Period memory t) (hnext : Period memory (t.step memory e))
    (hreset : ResetInTime memory t e) (hbound : more.length < 2 ^ 31)
    (hperiod : bits ++ t.spiBits e ++ rest =
      byteBits command ++ ((readCommand addr).flatMap msbFirst ++ more)) :
    Serving memory (bits ++ t.spiBits e) (t.step memory e) := by
  have hhanded : HandedOver .mgmt (t.step memory e).port.housekeeping (bits ++ t.spiBits e) :=
    h.handed.step hold.low hnext.low <| routed_prefix hnamed hperiod
  have hdelay := delay_of_handed hhanded hnamed hperiod
  have hcsb := pins_csb hhanded hnamed hperiod hnext.low
  have hone : (t.spiBits e).length ≤ 1 := by
    rw [spiBits, FlashPort.spiBits, Housekeeping.spiBits]
    split_ifs <;> simp
  have hlength : (bits ++ t.spiBits e).length = bits.length + (t.spiBits e).length :=
    List.length_append
  refine ⟨hhanded, wired_step memory t e, fun hshort ↦ ?_, fun hlong ↦ ?_⟩
  · exact hnext.oneLine (hdelay.trans (decide_eq_false (by omega)))
  · rw [if_pos hlong] at hcsb
    rw [decide_eq_true hlong] at hdelay
    rw [List.append_assoc] at hperiod
    have hidle : t.IdleCore := hreset hdelay
    have hidle' : (t.step memory e).IdleCore := hnext.idle hdelay
    rcases Nat.lt_or_ge bits.length 7 with hsix | hseven
    · exact h.select hnamed hold.low hidle hidle' (by omega) hperiod hhanded (by omega) hcsb
    · have htaken := drop_command hperiod
      have hle := htaken.length_le
      rw [List.length_append, length_flatMap_stream] at hle
      change _ ≤ 8 * 4 + _ at hle
      exact h.follow hidle hidle' hseven hhanded hdelay hcsb fun c hfresh ↦
        oneLine_of_payload hfresh htaken (by omega)

theorem Serving.run (hnamed : Flash.mgmt.Named command) (h : Serving memory bits t)
    (hbound : more.length < 2 ^ 31) (es : List (Event × FlashInputs))
    (halways : Always (FlashHost.step memory) (Period memory) t es)
    (hreset : Along (FlashHost.step memory) (ResetInTime memory) t es)
    (hperiod : bits ++ trace (FlashHost.step memory) spiBits t es ++ rest =
      byteBits command ++ ((readCommand addr).flatMap msbFirst ++ more)) :
    Serving memory (bits ++ trace (FlashHost.step memory) spiBits t es)
      (run (FlashHost.step memory) t es) := by
  induction es generalizing t bits with
  | nil => rwa [trace, List.append_nil]
  | cons e es ih =>
    rw [trace, ← List.append_assoc] at hperiod
    obtain ⟨hfirst, hrest⟩ := halways
    have hsplit := hperiod
    rw [List.append_assoc (bits ++ t.spiBits e)] at hsplit
    have hstep := h.step hnamed hfirst hrest.head hreset.1 hbound hsplit
    rw [trace, ← List.append_assoc]
    exact ih hstep hrest hreset.2 hperiod

/-- CSB has fallen. -/
theorem serving_start (hspi : t.port.housekeeping.spi = HousekeepingSpi.reset)
    (hnamed : Flash.mgmt.Named command) (hwired : t.Wired) (hperiod : Period memory t) :
    Serving memory [] t := by
  have hhanded : HandedOver .mgmt t.port.housekeeping [] := FlashPort.handedOver_reset hspi hnamed
  have hdelay := delay_of_handed hhanded hnamed (List.nil_append (byteBits command ++ []))
  exact ⟨hhanded, hwired, fun _ ↦ hperiod.oneLine hdelay, fun hlong ↦ absurd hlong (by decide)⟩

/-- From the last bit of the address on, SDO shows the memory. -/
theorem Serving.sdo (h : Serving memory bits t) (hlow : t.CsbLow) (hidle : t.IdleCore)
    (hsck : t.port.housekeeping.sck = false) (hlong : 40 ≤ bits.length)
    (hbound : more.length < 2 ^ 31)
    (hperiod : bits ++ rest = byteBits command ++ ((readCommand addr).flatMap msbFirst ++ more)) :
    t.port.housekeeping.mgmtGpioOut1 t.port.flash =
        (memory (addr + BitVec.ofNat 24 ((bits.length - 40) / 8))).getMsbD (bits.length % 8) ∧
      t.port.housekeeping.mgmtGpioOeb1 = false := by
  obtain ⟨hsdo, hoeb⟩ := (FlashPort.pins_of_handedOver h.handed hlow).2.2.2 (by omega)
  refine ⟨?_, hoeb⟩
  obtain ⟨c, hfresh, hfollows⟩ := h.after (by omega)
  have hclk := FlashPort.clk_eq h.handed.routed (fun _ ↦ by omega) fun _ ↦ hidle.2
  rw [hsck, Bool.and_false] at hclk
  have hlowClk : t.chip.clk = false := (congrArg Prod.snd h.wired.levels).trans hclk
  have htaken := drop_command hperiod
  have hle := htaken.length_le
  rw [List.length_append, length_flatMap_stream, List.length_drop] at hle
  change _ ≤ 8 * 4 + _ at hle
  have hcommand : (readCommand addr).flatMap msbFirst <+: bits.drop 8 := by
    apply List.prefix_of_prefix_length_le (List.prefix_append _ more) htaken
    rw [length_flatMap_stream, List.length_drop]
    change 8 * 4 ≤ _
    omega
  have hwords := words_mono (n := 8) (by decide) hcommand
  rw [words_flatMap_msbFirst (by decide)] at hwords
  calc
    t.port.housekeeping.mgmtGpioOut1 t.port.flash
    _ = t.chip.io1 := hsdo.trans h.wired.io1
    _ = shown memory c (bits.drop 8) := hfollows.low hlowClk
    _ = (memory (addr + BitVec.ofNat 24 ((bits.drop 8).length / 8 - 4))).getMsbD
          ((bits.drop 8).length % 8) :=
      SpiFlash.shown_of_read hfresh hwords (by rw [List.length_drop]; omega)
    _ = _ := by
      rw [List.length_drop, show (bits.length - 8) / 8 - 4 = (bits.length - 40) / 8 by omega,
        show (bits.length - 8) % 8 = bits.length % 8 by omega]

end Step

/-- **The host reads the flash.** A period of the SPI names the management flash and goes on with a
read command, an address and any further bits. Whatever else happens and wherever in an access of
its own the core was, if its reset, out since the sixth bit, has made it let go of the flash by the
seventh: from the bit after the address on, the host finds at SDO, whenever it raises SCK, the bits
of the memory from the address on, SDO is driven, and the core is still in reset. -/
theorem host_read (memory : BitVec 24 → BitVec 8) (addr : BitVec 24) (mgmtGpioIn : BitVec 38)
    (bus : BackDoor.Bus) (status : Status) (datO : BitVec 32) (before : List Event)
    (x : FlashInputs) (chip : SpiFlash) (es : List (Event × FlashInputs)) (command : BitVec 8)
    (more : List Bool) :
    let s := run Housekeeping.step (powerOn mgmtGpioIn bus status datO) before
    let t : FlashHost := ⟨⟨s.step csbFalls, x⟩, chip⟩
    s.csbReset = true → t.Wired →
    Always (step memory) (Period memory) t es → Along (step memory) (ResetInTime memory) t es →
    Flash.mgmt.Named command → more.length < 2 ^ 31 →
    trace (step memory) spiBits t es =
      byteBits command ++ ((readCommand addr).flatMap msbFirst ++ more) →
      (∀ front rest, es = front ++ rest →
        6 ≤ (trace (step memory) spiBits t front).length →
          (run (step memory) t front).port.housekeeping.resetOut = true) ∧
      ∀ front e rest, es = front ++ e :: rest →
        let u := run (step memory) t front
        let n := (trace (step memory) spiBits t front).length
        u.port.housekeeping.sckRises e.1 = true → 40 ≤ n →
          u.port.housekeeping.mgmtGpioOut1 u.port.flash =
              (memory (addr + BitVec.ofNat 24 ((n - 40) / 8))).getMsbD (n % 8) ∧
            u.port.housekeeping.mgmtGpioOeb1 = false := by
  intro s t hcsb hwired halways hreset hnamed hbound hperiod
  have hspi : s.spi = HousekeepingSpi.reset :=
    spi_of_deselected mgmtGpioIn bus status datO before hcsb
  have hstart := serving_start (spi_csbFalls hspi) hnamed hwired halways.head
  have hserving : ∀ front rest, es = front ++ rest →
      Serving memory (trace (step memory) spiBits t front) (run (step memory) t front) := by
    rintro front rest rfl
    rw [trace_append] at hperiod
    have hrun := hstart.run hnamed hbound front ((always_append _ _ _ _ _).1 halways).1
      ((along_append _ _ _ _ _).1 hreset).1 (by rwa [List.nil_append])
    rwa [List.nil_append] at hrun
  constructor
  · intro front rest hsplit hlong
    exact resetOut_of_handed (hserving front rest hsplit).handed hlong
  rintro front e rest rfl u n hrise hlong
  have hu := hserving front (e :: rest) rfl
  have hperiodU := ((always_append _ _ _ _ _).1 halways).2.head
  rw [trace_append] at hperiod
  have hdelay : u.delay = true := by
    rw [delay_of_handed hu.handed hnamed hperiod]
    exact decide_eq_true (Nat.le_trans (by decide) hlong)
  have hedge := hrise
  simp only [sckRises, Bool.and_eq_true, Bool.not_eq_true'] at hedge
  exact hu.sdo hperiodU.low (hperiodU.idle hdelay) hedge.1 hlong hbound hperiod

/-- A core that leaves the flash alone. -/
def quietCore : FlashInputs := { (default : FlashInputs) with spimemioFlashCsb := true }

/-- The command for the management flash, a read from address `80`, and one more bit. -/
def hostReadExample : List (Event × FlashInputs) :=
  (sendByte 0xc4#8 ++ (readCommand 0x80#24).flatMap sendByte ++ sendBit false).map
    fun e ↦ (e, quietCore)

def beforeRead : FlashHost where
  port := ⟨(released 0x8#38 default).step csbFalls, quietCore⟩
  chip := .deselected

/-- Nothing happens at the flash before it is handed over. -/
def Undisturbed (t : FlashHost) : Prop :=
  t.CsbLow ∧ t.IdleCore ∧ (t.delay = false → t.chip = .deselected)

instance : DecidablePred Undisturbed := fun t ↦
  inferInstanceAs (Decidable (t.port.housekeeping.csbReset = false ∧
    (t.port.flash.spimemioFlashCsb = true ∧ t.port.flash.spimemioFlashClk = false) ∧
    (t.delay = false → t.chip = .deselected)))

theorem Undisturbed.period (h : Undisturbed t) : Period memory t :=
  ⟨h.1, fun hdelay ↦ .inl ((h.2.2 hdelay).symm ▸ SpiFlash.deselected_standby), fun _ ↦ h.2.1⟩

theorem undisturbed_hostReadExample :
    Always (step SpiFlash.lowBytes) Undisturbed beforeRead hostReadExample := by
  decide +kernel

/-- The first bit at address `80`, and the core in reset. -/
theorem host_read_hostReadExample :
    let u := run (step SpiFlash.lowBytes) beforeRead (hostReadExample.take 121)
    u.port.housekeeping.resetOut = true ∧
      u.port.housekeeping.mgmtGpioOut1 u.port.flash = true ∧
      u.port.housekeeping.mgmtGpioOeb1 = false := by
  obtain ⟨hreset, hread⟩ := host_read SpiFlash.lowBytes 0x80#24 0x8#38 default default 0#32
    [.porb true, .wbRstn true] quietCore .deselected hostReadExample 0xc4#8 [false] (by decide)
    ⟨by decide, by decide⟩ (undisturbed_hostReadExample.mono fun _ h ↦ h.period)
    (undisturbed_hostReadExample.along.mono fun _ _ h _ ↦ h.1.2.1) ⟨by decide, by decide⟩
    (by decide) (by decide +kernel)
  have hsplit : hostReadExample =
      hostReadExample.take 121 ++ (.gpioIn 4 true, quietCore) :: hostReadExample.drop 122 := by
    decide +kernel
  have hcount : (trace (step SpiFlash.lowBytes) spiBits beforeRead
      (hostReadExample.take 121)).length = 40 := by decide +kernel
  have hbit := hread (hostReadExample.take 121) (.gpioIn 4 true, quietCore)
    (hostReadExample.drop 122) hsplit (by decide +kernel) (by decide +kernel)
  change _ = (SpiFlash.lowBytes (_ + BitVec.ofNat 24 (((trace (step SpiFlash.lowBytes) spiBits
    beforeRead (hostReadExample.take 121)).length - 40) / 8))).getMsbD
      ((trace (step SpiFlash.lowBytes) spiBits beforeRead
        (hostReadExample.take 121)).length % 8) ∧ _ at hbit
  rw [hcount] at hbit
  exact ⟨hreset _ _ hsplit (by decide +kernel), hbit⟩

end FlashHost

end CaravelSoc
