import CaravelSoc.Housekeeping.SpiStream

/-!
# When the SPI calls itself busy

`spi_is_busy` is meant to announce that the next edge of SCK reads or writes a
byte. The read strobe is raised by the rising edge that completes an address or
data byte and dropped by the next rising edge, so it outlives the capture on the
falling edge between them, and it is raised after the last byte of a command, too.
The write strobe outlives its rising edge until the next falling edge. This file
says for every state which announcements come true.
-/

open Sequential

namespace CaravelSoc

namespace SpiProtocol.Expects

/-- A byte after which the read strobe goes up. -/
def reads : Expects → Bool
  | address cmd | data cmd _ _ => readMode cmd
  | command | nothing => false

/-- A byte whose last edge writes it. -/
def writesByte : Expects → Bool
  | data cmd _ _ => writeMode cmd
  | command | address _ | nothing => false

/-- A byte that is captured before its first bit. -/
def captured : Expects → Bool
  | data cmd _ _ => readMode cmd
  | command | address _ | nothing => false

end SpiProtocol.Expects

namespace HousekeepingSpi

open SpiProtocol

/-- The meaning of the byte that the last bit has completed, if it has completed one. -/
def completed (bits : List Bool) : Option Expects :=
  if partialWord 8 bits = [] ∧ words 8 bits ≠ [] then some (nextByte (words 8 bits).dropLast)
  else none

theorem completed_append (bits : List Bool) (bit : Bool) :
    completed (bits ++ [bit]) =
      if (partialWord 8 bits).length = 7 then some (expected bits) else none := by
  rw [completed, partialWord_append_bit (by omega), words_append_bit (by omega)]
  simp only [Nat.reduceEqDiff]
  by_cases hfull : (partialWord 8 bits).length = 7
  · simp [hfull, expected]
  · simp [hfull]

theorem partialWord_of_completed {bits : List Bool} {byte : Expects}
    (h : completed bits = some byte) : partialWord 8 bits = [] := by
  by_contra hpart
  simp [completed, hpart] at h

/-- What follows a completed byte. -/
theorem expected_of_completed {bits : List Bool} {byte : Expects} (h : completed bits = some byte) :
    ∃ v, expected bits = byte.next v := by
  rw [completed] at h
  split at h
  · next hcond =>
    obtain rfl := Option.some.inj h
    obtain ⟨front, v, hwords⟩ := List.eq_nil_or_concat'  (words 8 bits) |>.resolve_left hcond.2
    refine ⟨v, ?_⟩
    rw [expected, hwords, List.dropLast_concat, ← (protocol_run _).2, run_append,
      (protocol_run _).2]
    rfl
  · simp at h

/-- The strobes in terms of the bits clocked in and the level of SCK. -/
structure Strobes (s : Registers) (sck : Bool) (bits : List Bool) : Prop where
  tracks : Tracks s sck bits
  rdstb : s.rdstb = (completed bits).any Expects.reads
  wrstb : sck = true → s.wrstb = (completed bits).any Expects.writesByte

theorem strobes_reset (sck : Bool) : Strobes reset sck [] where
  tracks := tracks_reset sck
  rdstb := rfl
  wrstb _ := rfl

variable {s : Registers} {bits : List Bool}

theorem rdstb_negedgeSck (s : Registers) (idata : BitVec 8) :
    (negedgeSck s idata).rdstb = s.rdstb := by
  unfold negedgeSck
  split <;> rfl

theorem rdstb_commandBit (s : Registers) (sdi : Bool) : (commandBit s sdi).rdstb = false := by
  unfold commandBit
  split_ifs <;> rfl

/-- Outside the access states nothing is left of a read strobe after the first bit of a byte. -/
theorem Strobes.rdstb_of_nothing {sck : Bool} (h : Strobes s sck bits)
    (hnothing : expected bits = .nothing) : s.rdstb = false := by
  rw [h.rdstb]
  cases hcompleted : completed bits with
  | none => rfl
  | some byte =>
    obtain ⟨v, hnext⟩ := expected_of_completed hcompleted
    rw [hnothing] at hnext
    cases byte with
    | command | nothing => rfl
    | address cmd => exact absurd hnext (by simp [Expects.next])
    | data cmd start i =>
      rw [Expects.next] at hnext
      split_ifs at hnext

theorem Strobes.rdstb_of_partial {sck : Bool} (h : Strobes s sck bits)
    (hpart : (partialWord 8 bits).length = 7) : s.rdstb = false := by
  have hnone : completed bits = none := by
    by_contra hsome
    obtain ⟨byte, hbyte⟩ := Option.ne_none_iff_exists'.1 hsome
    rw [partialWord_of_completed hbyte] at hpart
    simp at hpart
  rw [h.rdstb, hnone]
  rfl

/-- A rising edge raises the read strobe if it completes an address or data byte of a command that
reads, and drops it otherwise. -/
theorem Strobes.rdstb_rise (h : Strobes s false bits) (bit : Bool) :
    (posedgeSck s bit).rdstb = (completed (bits ++ [bit])).any Expects.reads := by
  have hwithin := h.tracks.within
  have hseven := ofNat_eq_seven_iff (length_partialWord_le bits)
  rw [completed_append]
  cases hexpected : expected bits with
  | command =>
    rw [hexpected] at hwithin
    rw [posedgeSck, hwithin.1]
    change (commandBit s bit).rdstb = _
    rw [rdstb_commandBit]
    split_ifs <;> rfl
  | address cmd =>
    rw [hexpected] at hwithin
    obtain ⟨hstate, hcount, hread⟩ := hwithin
    by_cases hfull : (partialWord 8 bits).length = 7
    · simp [posedgeSck, hstate, addressBit, hcount, hfull, hread, Expects.reads,
        h.rdstb_of_partial hfull]
    · simp [posedgeSck, hstate, addressBit, hcount, mt hseven.1 hfull, hfull]
  | data cmd start i =>
    rw [hexpected] at hwithin
    obtain ⟨hstate, hcount, -, hread, -⟩ := hwithin
    by_cases hfull : (partialWord 8 bits).length = 7
    · simp [posedgeSck, hstate, dataBit, hcount, hfull, hread, Expects.reads,
        h.rdstb_of_partial hfull]
    · simp [posedgeSck, hstate, dataBit, hcount, mt hseven.1 hfull, hfull]
  | nothing =>
    rw [hexpected] at hwithin
    have hlow := h.rdstb_of_nothing hexpected
    rcases hwithin with hstate | hstate <;>
    · rw [posedgeSck, hstate]
      change s.rdstb = _
      rw [hlow]
      split_ifs <;> rfl

/-- The write strobe stays up over the rising edge that completes a byte to be written. -/
theorem Strobes.wrstb_rise (h : Strobes s false bits) (bit : Bool) :
    (posedgeSck s bit).wrstb = (completed (bits ++ [bit])).any Expects.writesByte := by
  have hwithin := h.tracks.within
  have hseven := ofNat_eq_seven_iff (length_partialWord_le bits)
  rw [(posedgeSck_output s bit).1, h.tracks.strobeLow rfl, completed_append]
  cases hexpected : expected bits with
  | command | address cmd =>
    rw [hexpected] at hwithin
    rw [hwithin.1]
    split_ifs <;> rfl
  | data cmd start i =>
    rw [hexpected] at hwithin
    obtain ⟨hstate, hcount, hwrite, -⟩ := hwithin
    by_cases hfull : (partialWord 8 bits).length = 7
    · simp [hstate, hcount, hfull, hwrite, Expects.writesByte]
    · simp [hcount, mt hseven.1 hfull, hfull]
  | nothing =>
    rw [hexpected] at hwithin
    rcases hwithin with hstate | hstate <;>
    · rw [hstate]
      split_ifs <;> rfl

theorem Strobes.rise (h : Strobes s false bits) (bit : Bool) :
    Strobes (posedgeSck s bit) true (bits ++ [bit]) where
  tracks := h.tracks.rise bit
  rdstb := h.rdstb_rise bit
  wrstb _ := h.wrstb_rise bit

theorem Strobes.fall (h : Strobes s true bits) (idata : BitVec 8) :
    Strobes (negedgeSck s idata) false bits where
  tracks := h.tracks.fall idata
  rdstb := (rdstb_negedgeSck s idata).trans h.rdstb
  wrstb hhigh := absurd hhigh (by decide)

/-- A byte that is captured follows one that raises the read strobe. -/
theorem reads_of_captured {byte : Expects} (h : completed bits = some byte)
    (hcaptured : (expected bits).captured = true) : byte.reads = true := by
  obtain ⟨v, hnext⟩ := expected_of_completed h
  rw [hnext] at hcaptured
  cases byte with
  | command =>
    rw [Expects.next] at hcaptured
    split_ifs at hcaptured <;> exact hcaptured
  | address cmd => exact hcaptured
  | data cmd start i =>
    rw [Expects.next] at hcaptured
    split_ifs at hcaptured
    · exact absurd hcaptured (by decide)
    · exact hcaptured
  | nothing => exact hcaptured

/-- The announcement made in a state comes true: when SCK is low, the byte just completed is not
one that raises the read strobe; when SCK is high, a byte just completed that raises or holds a
strobe is followed by one to be captured. -/
def announced (sck : Bool) (bits : List Bool) : Bool :=
  (completed bits).all fun byte ↦
    if sck then !(byte.reads || byte.writesByte) || (expected bits).captured else !byte.reads

end HousekeepingSpi

namespace Housekeeping

open HousekeepingSpi SpiProtocol

variable {s : Housekeeping} {e : Event} {bits : List Bool}

theorem strobes_step (h : Strobes s.spi s.sck bits) (hlow : s.csbReset = false)
    (hlow' : (s.step e).csbReset = false) :
    Strobes (s.step e).spi (s.step e).sck (bits ++ s.spiBits e) := by
  rw [step_spi hlow hlow', step_sck, spiBits]
  split_ifs with hrise hfall
  · simp only [sckRises, Bool.and_eq_true, Bool.not_eq_true'] at hrise
    rw [hrise.2]
    exact (hrise.1 ▸ h).rise _
  · simp only [sckFalls, Bool.and_eq_true, Bool.not_eq_true'] at hfall
    rw [List.append_nil, hfall.2]
    exact (hfall.1 ▸ h).fall _
  · have hsck : (s.drive e).sck = s.sck := by
      rw [sckRises] at hrise
      rw [sckFalls] at hfall
      cases hold : s.sck <;> cases hnew : (s.drive e).sck <;> simp_all
    rw [List.append_nil, hsck]
    exact h

theorem strobes_run {es : List Event} (h : Strobes s.spi s.sck bits)
    (hlow : Always step (fun u ↦ u.csbReset = false) s es) :
    Strobes (run step s es).spi (run step s es).sck (bits ++ trace step spiBits s es) := by
  induction es generalizing s bits with
  | nil => simpa [Sequential.run, trace] using h
  | cons e rest ih =>
    rw [trace, ← List.append_assoc]
    exact ih (strobes_step h hlow.1 hlow.2.head) hlow.2

/-- An edge of SCK that captures a byte to be read or writes one. -/
def Accesses (s : Housekeeping) (e : Event) : Prop :=
  s.sckFalls e = true ∧ captures s.spi = true ∨ s.spiWrites e ≠ []

instance (s : Housekeeping) (e : Event) : Decidable (Accesses s e) := instDecidableOr

/-- With the port free, a rising edge accesses a register if the write strobe is up, and a falling
edge if it captures. -/
theorem accesses_iff (hlow : s.csbReset = false) (hlow' : (s.step e).csbReset = false)
    (hfree : s.wbbd.busy = false) (hedge : s.sckRises e = true ∨ s.sckFalls e = true) :
    Accesses s e ↔ (if s.sck then captures s.spi else s.spi.wrstb) = true := by
  obtain ⟨level, rfl⟩ := eq_gpioIn_of_sck_ne (hedge.elim sck_ne_of_sckRises sck_ne_of_sckFalls)
  rw [Accesses, spiWrites_of_drive_wbbd hlow hlow' rfl ⟨fun _ _ ↦ hfree, fun _ _ ↦ hfree⟩]
  cases hsck : s.sck with
  | true =>
    have hnorise : s.sckRises (.gpioIn 4 level) = false := by simp [sckRises, hsck]
    have hfall : s.sckFalls (.gpioIn 4 level) = true := by simpa [hnorise] using hedge
    simp [hnorise, hfall]
  | false =>
    have hnofall : s.sckFalls (.gpioIn 4 level) = false := by simp [sckFalls, hsck]
    have hrise : s.sckRises (.gpioIn 4 level) = true := by simpa [hnofall] using hedge
    simp [hrise, hnofall]

end Housekeeping

namespace HousekeepingSpi

open SpiProtocol

variable {s : Registers} {sck : Bool} {bits : List Bool}

/-- Between two bytes, and only there, the registers announce a capture as the protocol expects
it. -/
theorem Strobes.captures_eq (h : Strobes s sck bits) :
    Housekeeping.captures s =
      (decide (partialWord 8 bits = []) && (expected bits).captured) := by
  have hwithin := h.tracks.within
  cases hexpected : expected bits with
  | command | address cmd =>
    rw [hexpected] at hwithin
    simp [Housekeeping.captures, hwithin.1, Expects.captured]
  | nothing =>
    rw [hexpected] at hwithin
    rcases hwithin with hstate | hstate <;>
      simp [Housekeeping.captures, hstate, Expects.captured]
  | data cmd start i =>
    rw [hexpected] at hwithin
    obtain ⟨hstate, hcount, -, hread, -⟩ := hwithin
    have hzero : (BitVec.ofNat 3 (partialWord 8 bits).length == 0#3) =
        decide (partialWord 8 bits = []) := by
      have hle := length_partialWord_le bits
      rw [Bool.eq_iff_iff, beq_iff_eq, decide_eq_true_eq, ← List.length_eq_zero_iff,
        ← BitVec.toNat_inj, BitVec.toNat_ofNat]
      change _ % 8 = 0 ↔ _
      omega
    simp [Housekeeping.captures, hstate, hcount, hread, Expects.captured, hzero]

/-- After a completed byte a low SCK means a low write strobe. -/
theorem Strobes.wrstb_of_completed (h : Strobes s false bits) {byte : Expects}
    (hcompleted : completed bits = some byte) : s.wrstb = false := by
  rw [h.tracks.strobeLow rfl]
  by_cases hstate : s.state = .data
  · rw [h.tracks.count hstate, partialWord_of_completed hcompleted]
    simp
  · simp [hstate]

/-- The strobes announce an access exactly where `announced` says so. -/
theorem Strobes.busy_iff (h : Strobes s sck bits) :
    ((s.rdstb || s.wrstb) = true ↔
      (if sck then Housekeeping.captures s else s.wrstb) = true) ↔ announced sck bits = true := by
  have hrdstb := h.rdstb
  cases hsck : sck with
  | false =>
    rw [hsck] at h
    cases hcompleted : completed bits with
    | none =>
      rw [hcompleted] at hrdstb
      simp [announced, hcompleted, hrdstb]
    | some byte =>
      rw [hcompleted] at hrdstb
      simp [announced, hcompleted, hrdstb, h.wrstb_of_completed hcompleted]
  | true =>
    rw [hsck] at h
    have hwrstb := h.wrstb rfl
    have hcaptures := h.captures_eq
    cases hcompleted : completed bits with
    | none =>
      rw [hcompleted] at hrdstb hwrstb
      -- No byte is captured within a byte, nor before the first command.
      have hnone : Housekeeping.captures s = false := by
        rw [hcaptures]
        by_cases hpart : partialWord 8 bits = []
        · have hwords : words 8 bits = [] := by
            by_contra hwords
            simp [completed, hpart, hwords] at hcompleted
          simp [expected, hwords, nextByte, Expects.captured]
        · simp [hpart]
      simp [announced, hcompleted, hrdstb, hwrstb, hnone]
    | some byte =>
      rw [hcompleted] at hrdstb hwrstb
      have hreads := reads_of_captured hcompleted
      rw [partialWord_of_completed hcompleted] at hcaptures
      simp only [announced, hcompleted, hrdstb, hwrstb, hcaptures, Option.any_some, Option.all_some,
        decide_true, Bool.true_and, if_true]
      cases hcaptured : (expected bits).captured with
      | false => simp
      | true => simp [hreads hcaptured]

end HousekeepingSpi

namespace Housekeeping

open HousekeepingSpi SpiProtocol BackDoor

/-- **The busy indication.** In every state of a period of CSB low, with the register port free,
`spi_is_busy` announces an access by the next edge of SCK, and nothing else, exactly if the bits of
the period and the level of SCK are as `announced` says. -/
theorem spi_busy_iff (mgmtGpioIn : BitVec 38) (bus : Bus) (status : Status) (datO : BitVec 32)
    (before es : List Event) (e : Event) :
    let s := run step (powerOn mgmtGpioIn bus status datO) before
    let t := run step (s.step csbFalls) es
    s.csbReset = true → Always step (fun u ↦ u.csbReset = false) (s.step csbFalls) es →
    (t.step e).csbReset = false → t.wbbd.busy = false →
    (t.sckRises e = true ∨ t.sckFalls e = true) →
      ((t.spiIsBusy = true ↔ Accesses t e) ↔
        announced t.sck (trace step spiBits (s.step csbFalls) es) = true) := by
  intro s t hcsb hlow hlow' hfree hedge
  have hstart : Strobes (s.step csbFalls).spi (s.step csbFalls).sck [] := by
    rw [spi_csbFalls (spi_of_deselected mgmtGpioIn bus status datO before hcsb)]
    exact strobes_reset _
  have hstrobes := strobes_run hstart hlow
  have hlast : t.csbReset = false := hlow.last
  rw [List.nil_append] at hstrobes
  rw [accesses_iff hlast hlow' hfree hedge, spiIsBusy, spiIsActive_of_csbReset hlast,
    Bool.true_and]
  exact hstrobes.busy_iff

/-- A command to read from address `0x01`, with SCK low after the first byte has been captured. -/
def readPauseExample : List Event := sendByte 0x40#8 ++ sendByte 0x01#8

set_option maxRecDepth 10000 in
/-- The read strobe stays up although the next edge of SCK accesses nothing. -/
theorem busy_readPauseExample :
    let t := run step (released 0x8#38 default) (csbFalls :: readPauseExample)
    ¬(t.spiIsBusy = true ↔ Accesses t (.gpioIn 4 true)) := by
  decide

set_option maxRecDepth 10000 in
theorem spi_busy_iff_readPauseExample :
    let s := (released 0x8#38 default).step csbFalls
    let t := run step s readPauseExample
    (t.spiIsBusy = true ↔ Accesses t (.gpioIn 4 true)) ↔
      announced t.sck (trace step spiBits s readPauseExample) = true :=
  spi_busy_iff 0x8#38 default default 0#32 [.porb true, .wbRstn true] readPauseExample
    (.gpioIn 4 true) (by decide) (by decide) (by decide) (by decide) (by decide)

end Housekeeping

end CaravelSoc
