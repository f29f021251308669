import CaravelSoc.Housekeeping.Spi
import CaravelSoc.Housekeeping.SpiProtocol

/-!
# The SPI registers follow the protocol

The two blocks of `housekeeping_spi` work on different edges of SCK. What the
rising-edge block holds is settled by the bits clocked in since CSB fell: between
two bytes it is in the state that the byte protocol expects, and within a byte it
has counted the bits so far. What the falling-edge block shows while SCK is low is
the write strobe of a last data bit and the output of a read byte.
-/

open Sequential Sequential.ShiftRegister

namespace CaravelSoc.HousekeepingSpi

open SpiProtocol

/-! ## The rising-edge block -/

/-- A rising edge neither reads nor changes the registers of the other block. -/
theorem posedgeSck_frame (s : Registers) (sdi : Bool) (sdoenb : Bool) (ldata : BitVec 8)
    (wrstb : Bool) :
    posedgeSck { s with sdoenb := sdoenb, ldata := ldata, wrstb := wrstb } sdi =
      { posedgeSck s sdi with sdoenb := sdoenb, ldata := ldata, wrstb := wrstb } := by
  cases hstate : s.state with
  | command =>
    have hite := fun (c : Prop) [Decidable c] ↦ apply_ite (P := c)
      fun r : Registers ↦ { r with sdoenb := sdoenb, ldata := ldata, wrstb := wrstb }
    simp only [posedgeSck, hstate, commandBit, hite]
  | address | data | userPass | mgmtPass => simp [posedgeSck, hstate, addressBit, dataBit]

/-- The registers of the rising-edge block, the others at their reset values. -/
def rising (s : Registers) : Registers :=
  { s with sdoenb := true, ldata := 0x00#8, wrstb := false }

theorem rising_posedgeSck (s : Registers) (sdi : Bool) :
    rising (posedgeSck s sdi) = posedgeSck (rising s) sdi :=
  (posedgeSck_frame s sdi true 0x00#8 false).symm

theorem rising_negedgeSck (s : Registers) (idata : BitVec 8) :
    rising (negedgeSck s idata) = rising s := by
  unfold negedgeSck
  split <;> rfl

theorem passThruMgmtReset_negedgeSck (s : Registers) (idata : BitVec 8) :
    passThruMgmtReset (negedgeSck s idata) = passThruMgmtReset s := by
  unfold negedgeSck
  split <;> rfl

/-- Between two bytes, the registers are those that the protocol expects. The length counts down
while data byte `i` comes in; a length of zero stays. -/
def AtByte (s : Registers) : Expects → Prop
  | .command => s.state = .command ∧ s.count = 0#3
  | .address cmd =>
    s.state = .address ∧ s.count = 0#3 ∧ s.writemode = writeMode cmd ∧ s.readmode = readMode cmd ∧
      s.fixed = fixedLength cmd
  | .data cmd start i =>
    s.state = .data ∧ s.count = 0#3 ∧ s.writemode = writeMode cmd ∧ s.readmode = readMode cmd ∧
      s.addr = dataAddress start i ∧ s.fixed.toNat = (fixedLength cmd).toNat - i ∧
      ((fixedLength cmd).toNat = 0 ∨ i < (fixedLength cmd).toNat)
  | .nothing => s.state = .mgmtPass ∨ s.state = .userPass

variable {s : Registers} {bits : List Bool}

theorem count_ne_seven (hlen : bits.length < 7) : BitVec.ofNat 3 bits.length ≠ 7#3 := by
  intro h
  have htoNat := congrArg BitVec.toNat h
  rw [BitVec.toNat_ofNat, Nat.mod_eq_of_lt (by omega)] at htoNat
  simp at htoNat
  omega

/-- The first seven bits of a data byte. -/
theorem clock_data (hstate : s.state = .data) (hcount : s.count = 0#3) (hlen : bits.length ≤ 7) :
    ∃ rdstb, bits.foldl posedgeSck s =
      { s with
        predata := bits.foldl BitVec.shiftConcat s.predata
        count := BitVec.ofNat 3 bits.length
        rdstb := rdstb } := by
  induction bits using List.reverseRecOn with
  | nil => exact ⟨s.rdstb, by simp [← hcount]⟩
  | append_singleton bits bit ih =>
    rw [List.length_append, List.length_singleton] at hlen
    obtain ⟨rdstb, hbits⟩ := ih (by omega)
    refine ⟨false, ?_⟩
    have hcount := count_ne_seven (show bits.length < 7 by omega)
    rw [List.foldl_append, hbits]
    simp [posedgeSck, dataBit, hstate, hcount, BitVec.ofNat_add]

/-- The first seven bits of an address byte. -/
theorem clock_address (hstate : s.state = .address) (hcount : s.count = 0#3)
    (hlen : bits.length ≤ 7) :
    ∃ rdstb, bits.foldl posedgeSck s =
      { s with
        addr := bits.foldl BitVec.shiftConcat s.addr
        count := BitVec.ofNat 3 bits.length
        rdstb := rdstb } := by
  induction bits using List.reverseRecOn with
  | nil => exact ⟨s.rdstb, by simp [← hcount]⟩
  | append_singleton bits bit ih =>
    rw [List.length_append, List.length_singleton] at hlen
    obtain ⟨rdstb, hbits⟩ := ih (by omega)
    refine ⟨false, ?_⟩
    have hcount := count_ne_seven (show bits.length < 7 by omega)
    rw [List.foldl_append, hbits]
    simp [posedgeSck, addressBit, hstate, hcount, BitVec.ofNat_add]

/-- The `if` chain of the command state reaches its last branch at the last bit only. -/
theorem eq_seven_of_count : ∀ count : BitVec 3,
    count ≠ 0#3 → count ≠ 1#3 → ¬count < 5#3 → count ≠ 5#3 → count ≠ 6#3 → count = 7#3 := by
  decide

theorem commandBit_of_ne_seven (hcount : s.count ≠ 7#3) (sdi : Bool) :
    (commandBit s sdi).state = s.state ∧ (commandBit s sdi).count = s.count + 1#3 := by
  constructor
  · simp only [commandBit, apply_ite Registers.state]
    split_ifs with h₀ h₁ h₂ h₅ h₆
    all_goals first | rfl | exact absurd (eq_seven_of_count _ h₀ h₁ h₂ h₅ h₆) hcount
  · simp only [commandBit, apply_ite Registers.count, ite_self]

/-- Short of its last bit, a command byte leaves the state machine in `` `COMMAND ``. -/
theorem clock_command (hstate : s.state = .command) (hcount : s.count = 0#3)
    (hlen : bits.length ≤ 7) :
    (bits.foldl posedgeSck s).state = .command ∧
      (bits.foldl posedgeSck s).count = BitVec.ofNat 3 bits.length := by
  induction bits using List.reverseRecOn with
  | nil => exact ⟨hstate, hcount⟩
  | append_singleton bits bit ih =>
    rw [List.length_append, List.length_singleton] at hlen
    obtain ⟨hstate', hcount'⟩ := ih (by omega)
    rw [List.foldl_append, List.foldl_cons, List.foldl_nil, posedgeSck, hstate']
    obtain ⟨hkeep, hnext⟩ := commandBit_of_ne_seven (s := bits.foldl posedgeSck s)
      (by rw [hcount']; exact count_ne_seven (by omega)) bit
    refine ⟨hkeep.trans hstate', ?_⟩
    rw [hnext, hcount', List.length_append, BitVec.ofNat_add]
    rfl

theorem clock_nothing (hstate : s.state = .mgmtPass ∨ s.state = .userPass) (bits : List Bool) :
    (bits.foldl posedgeSck s).state = .mgmtPass ∨ (bits.foldl posedgeSck s).state = .userPass := by
  induction bits generalizing s with
  | nil => exact hstate
  | cons bit rest ih =>
    refine ih ?_
    rcases hstate with h | h <;> simp [posedgeSck, h]

/-! ## Whole bytes -/

theorem exists_eq_of_length_eight (hlen : bits.length = 8) :
    ∃ b₀ b₁ b₂ b₃ b₄ b₅ b₆ b₇, bits = [b₀, b₁, b₂, b₃, b₄, b₅, b₆, b₇] := by
  match bits, hlen with
  | [b₀, b₁, b₂, b₃, b₄, b₅, b₆, b₇], _ => exact ⟨b₀, b₁, b₂, b₃, b₄, b₅, b₆, b₇, rfl⟩

theorem getLsbD_ofBits_eight (hlen : bits.length = 8) {i : ℕ} (hi : i < 8) :
    (ofBits 8 bits).getLsbD i = bits.reverse.getD i false := by
  rw [ofBits, getLsbD_foldl_shiftConcat _ _ _ hi, if_pos (by omega)]

/-- The flags of a command byte are stored one by one as its bits come in. -/
theorem atByte_command (hstate : s.state = .command) (hcount : s.count = 0#3)
    (hlen : bits.length = 8) :
    AtByte (bits.foldl posedgeSck s) (Expects.command.next (ofBits 8 bits)) := by
  have hbit := fun i (hi : i < 8) ↦ getLsbD_ofBits_eight hlen hi
  obtain ⟨b₀, b₁, b₂, b₃, b₄, b₅, b₆, b₇, rfl⟩ := exists_eq_of_length_eight hlen
  have hwrite : writeMode (ofBits 8 [b₀, b₁, b₂, b₃, b₄, b₅, b₆, b₇]) = b₀ := hbit 7 (by omega)
  have hread : readMode (ofBits 8 [b₀, b₁, b₂, b₃, b₄, b₅, b₆, b₇]) = b₁ := hbit 6 (by omega)
  have hmgmt : (ofBits 8 [b₀, b₁, b₂, b₃, b₄, b₅, b₆, b₇]).getLsbD 2 = b₅ := hbit 2 (by omega)
  have huser : (ofBits 8 [b₀, b₁, b₂, b₃, b₄, b₅, b₆, b₇]).getLsbD 1 = b₆ := hbit 1 (by omega)
  have hfixed : fixedLength (ofBits 8 [b₀, b₁, b₂, b₃, b₄, b₅, b₆, b₇]) =
      ((s.fixed.shiftConcat b₂).shiftConcat b₃).shiftConcat b₄ := by
    apply BitVec.eq_of_getLsbD_eq
    intro i hi
    rw [fixedLength, BitVec.getLsbD_extractLsb', hbit (3 + i) (by omega)]
    match i with
    | 0 | 1 | 2 => simp
  have hpass : passThrough (ofBits 8 [b₀, b₁, b₂, b₃, b₄, b₅, b₆, b₇]) = (b₅ || b₆) := by
    rw [passThrough, hmgmt, huser]
  simp only [Expects.next, hpass]
  cases b₅ <;> cases b₆ <;>
    simp [AtByte, posedgeSck, commandBit, hstate, hcount, hwrite, hread, hfixed]

/-- The address register holds the last eight bits. -/
theorem atByte_address {cmd : BitVec 8} (h : AtByte s (.address cmd)) (hlen : bits.length = 8) :
    AtByte (bits.foldl posedgeSck s) ((Expects.address cmd).next (ofBits 8 bits)) := by
  obtain ⟨hstate, hcount, hwrite, hread, hfixed⟩ := h
  have haddr := foldl_shiftConcat_eq_ofBits s.addr hlen.ge
  obtain rfl | ⟨front, bit, rfl⟩ := bits.eq_nil_or_concat'
  · simp at hlen
  rw [List.length_append, List.length_singleton] at hlen
  obtain ⟨rdstb, hfront⟩ := clock_address hstate hcount (show front.length ≤ 7 by omega)
  rw [List.foldl_append] at haddr
  rw [List.foldl_append, hfront, show front.length = 7 by omega, ← haddr]
  simp only [List.foldl_cons, List.foldl_nil, posedgeSck, hstate, addressBit, Expects.next, AtByte]
  refine ⟨by simp, by simp, hwrite, hread, ?_, ?_, ?_⟩
  · simp [dataAddress]
  · rw [hfixed, Nat.sub_zero]
  · omega

theorem toNat_sub_one : ∀ fixed : BitVec 3,
    fixed ≠ 0#3 → (fixed - 1#3).toNat = fixed.toNat - 1 := by
  decide

/-- A data byte moves on to the next address, or ends its command. -/
theorem atByte_data {cmd start : BitVec 8} {i : ℕ} (h : AtByte s (.data cmd start i))
    (hlen : bits.length = 8) :
    AtByte (bits.foldl posedgeSck s) ((Expects.data cmd start i).next (ofBits 8 bits)) := by
  obtain ⟨hstate, hcount, hwrite, hread, haddr, hfixed, hless⟩ := h
  obtain rfl | ⟨front, bit, rfl⟩ := bits.eq_nil_or_concat'
  · simp at hlen
  rw [List.length_append, List.length_singleton] at hlen
  obtain ⟨rdstb, hfront⟩ := clock_data hstate hcount (show front.length ≤ 7 by omega)
  rw [List.foldl_append, hfront, show front.length = 7 by omega]
  have hlast : s.fixed = 1#3 ↔ i + 1 = (fixedLength cmd).toNat := by
    rw [← BitVec.toNat_inj, hfixed]
    change _ = 1 ↔ _
    omega
  simp only [List.foldl_cons, List.foldl_nil, posedgeSck, hstate, dataBit, Expects.next]
  by_cases hend : i + 1 = (fixedLength cmd).toNat
  · rw [if_pos hend]
    simp [AtByte, hlast.2 hend]
  · rw [if_neg hend]
    have hmore : s.fixed ≠ 1#3 := fun h ↦ hend (hlast.1 h)
    refine ⟨by simp [hmore], by simp, hwrite, hread, ?_, ?_, by omega⟩
    · simp [hmore, haddr, dataAddress, BitVec.ofNat_add, BitVec.add_assoc]
    · by_cases hzero : s.fixed = 0#3
      · have hnone : 0 = (fixedLength cmd).toNat - i := by simpa [hzero] using hfixed
        simp only [hzero, ne_eq, not_true_eq_false, and_false, if_false]
        exact (show 0 = (fixedLength cmd).toNat - (i + 1) by omega)
      · simp only [hmore, hzero, ne_eq, not_false_eq_true, and_true, if_true]
        rw [toNat_sub_one _ hzero, hfixed]
        omega

/-- **Whole bytes.** Eight clocks take the registers from what the protocol expects to what it
expects after the byte. -/
theorem AtByte.next {expected : Expects} (h : AtByte s expected) (hlen : bits.length = 8) :
    AtByte (bits.foldl posedgeSck s) (expected.next (ofBits 8 bits)) := by
  cases expected with
  | command => exact atByte_command h.1 h.2 hlen
  | address cmd => exact atByte_address h hlen
  | data cmd start i => exact atByte_data h hlen
  | nothing => exact clock_nothing h bits

/-! ## The falling-edge block -/

theorem posedgeSck_output (s : Registers) (sdi : Bool) :
    (posedgeSck s sdi).wrstb = s.wrstb ∧ (posedgeSck s sdi).ldata = s.ldata ∧
      (posedgeSck s sdi).sdoenb = s.sdoenb := by
  have hframe : posedgeSck s sdi = { posedgeSck s sdi with
      sdoenb := s.sdoenb, ldata := s.ldata, wrstb := s.wrstb } :=
    posedgeSck_frame s sdi s.sdoenb s.ldata s.wrstb
  rw [hframe]
  exact ⟨rfl, rfl, rfl⟩

/-- The byte expected after the bits clocked in so far. -/
def expected (bits : List Bool) : Expects := nextByte (words 8 bits)

/-- What the bits clocked in so far and the level of SCK say about the registers. -/
structure Tracks (s : Registers) (sck : Bool) (bits : List Bool) : Prop where
  /-- The rising-edge block was between two bytes and has clocked in the bits since. -/
  rising : ∃ b, AtByte b (expected bits) ∧
    rising s = rising ((partialWord 8 bits).foldl posedgeSck b)
  /-- While SCK is low the write strobe is up for the last bit of a byte to be written. -/
  strobeLow : sck = false → s.wrstb = (s.state == .data && s.count == 7#3 && s.writemode)
  /-- While SCK is high the strobe can be up for the bit just clocked only. -/
  strobeHigh : sck = true → s.wrstb = true → s.count = 0#3
  /-- While SCK is low the output is enabled for the bits of a byte to be read. -/
  outputLow : sck = false → s.state ≠ .mgmtPass → s.state ≠ .userPass →
    s.sdoenb = !(s.state == .data && s.readmode)

theorem expected_append (bits : List Bool) (bit : Bool) :
    expected (bits ++ [bit]) =
      if (partialWord 8 bits).length = 7 then
        (expected bits).next (ofBits 8 (partialWord 8 bits ++ [bit]))
      else expected bits := by
  simp only [expected, ← (protocol_run _).2]
  rw [words_append_bit (by omega)]
  simp only [Nat.reduceEqDiff]
  split
  · rw [run_append]
    rfl
  · rfl

/-- The writes of a stream, one bit longer. -/
theorem writeList_append (bits : List Bool) (bit : Bool) :
    writeList (words 8 (bits ++ [bit])) =
      writeList (words 8 bits) ++
        if (partialWord 8 bits).length = 7 then
          (expected bits).writes (ofBits 8 (partialWord 8 bits ++ [bit]))
        else [] := by
  simp only [expected, ← (protocol_run _).1, ← (protocol_run _).2]
  rw [words_append_bit (by omega)]
  simp only [Nat.reduceEqDiff]
  split
  · rw [trace_append]
    simp [trace]
  · rw [List.append_nil]

theorem tracks_reset (sck : Bool) : Tracks reset sck [] where
  rising := ⟨reset, by simp [expected, nextByte, AtByte, reset], by simp⟩
  strobeLow _ := rfl
  strobeHigh _ h := absurd h (by decide)
  outputLow _ _ _ := rfl

/-- Within a byte, some of its bits clocked in, the registers still name the byte expected. -/
def Within (s : Registers) (bits : List Bool) : Expects → Prop
  | .command => s.state = .command ∧ s.count = BitVec.ofNat 3 bits.length
  | .address cmd =>
    s.state = .address ∧ s.count = BitVec.ofNat 3 bits.length ∧ s.readmode = readMode cmd
  | .data cmd start i =>
    s.state = .data ∧ s.count = BitVec.ofNat 3 bits.length ∧ s.writemode = writeMode cmd ∧
      s.readmode = readMode cmd ∧ s.addr = dataAddress start i ∧
      ∃ old, s.predata = bits.foldl BitVec.shiftConcat old
  | .nothing => s.state = .mgmtPass ∨ s.state = .userPass

theorem within_rising {bits : List Bool} {expected : Expects} :
    Within (rising s) bits expected ↔ Within s bits expected := by
  cases expected <;> rfl

theorem AtByte.within {expected : Expects} (h : AtByte s expected) (hlen : bits.length ≤ 7) :
    Within (bits.foldl posedgeSck s) bits expected := by
  cases expected with
  | command => exact clock_command h.1 h.2 hlen
  | address cmd =>
    obtain ⟨hstate, hcount, -, hread, -⟩ := h
    obtain ⟨rdstb, hbits⟩ := clock_address hstate hcount hlen
    rw [hbits]
    exact ⟨hstate, rfl, hread⟩
  | data cmd start i =>
    obtain ⟨hstate, hcount, hwrite, hread, haddr, -⟩ := h
    obtain ⟨rdstb, hbits⟩ := clock_data hstate hcount hlen
    rw [hbits]
    exact ⟨hstate, rfl, hwrite, hread, haddr, s.predata, rfl⟩
  | nothing => exact clock_nothing h bits

section Tracks

variable {sck : Bool}

theorem length_partialWord_le (bits : List Bool) : (partialWord 8 bits).length ≤ 7 :=
  Nat.le_of_lt_succ (length_partialWord_lt (by omega))

theorem Tracks.within (h : Tracks s sck bits) :
    Within s (partialWord 8 bits) (expected bits) := by
  obtain ⟨b, hb, hrising⟩ := h.rising
  rw [← within_rising, hrising, within_rising]
  exact hb.within (length_partialWord_le bits)

theorem Tracks.count (h : Tracks s sck bits) (hstate : s.state = .data) :
    s.count = BitVec.ofNat 3 (partialWord 8 bits).length := by
  have hwithin := h.within
  cases hexpected : expected bits with
  | data cmd start i =>
    rw [hexpected] at hwithin
    exact hwithin.2.1
  | command | address cmd =>
    rw [hexpected] at hwithin
    exact absurd (hstate.symm.trans hwithin.1) (by decide)
  | nothing =>
    rw [hexpected] at hwithin
    rcases hwithin with hpass | hpass <;> exact absurd (hstate.symm.trans hpass) (by decide)

/-- A rising edge of SCK clocks one bit in. -/
theorem Tracks.rise (h : Tracks s false bits) (bit : Bool) :
    Tracks (posedgeSck s bit) true (bits ++ [bit]) where
  rising := by
    obtain ⟨b, hb, hrising⟩ := h.rising
    have hclock : HousekeepingSpi.rising (posedgeSck s bit) =
        HousekeepingSpi.rising ((partialWord 8 bits ++ [bit]).foldl posedgeSck b) := by
      rw [rising_posedgeSck, hrising, ← rising_posedgeSck, List.foldl_append]
      rfl
    rw [expected_append, partialWord_append_bit (by omega)]
    by_cases hfull : (partialWord 8 bits).length = 7
    · rw [if_pos hfull, if_pos (by omega)]
      exact ⟨_, hb.next (by rw [List.length_append, hfull]; rfl), hclock⟩
    · rw [if_neg hfull, if_neg (by omega)]
      exact ⟨b, hb, hclock⟩
  strobeLow hlow := absurd hlow (by decide)
  strobeHigh _ hstrobe := by
    rw [(posedgeSck_output s bit).1, h.strobeLow rfl] at hstrobe
    simp only [Bool.and_eq_true, beq_iff_eq] at hstrobe
    simp [posedgeSck, hstrobe.1.1, dataBit, hstrobe.1.2]
  outputLow hlow := absurd hlow (by decide)

/-- A falling edge of SCK settles the strobe and the output enable. -/
theorem Tracks.fall (h : Tracks s true bits) (idata : BitVec 8) :
    Tracks (negedgeSck s idata) false bits where
  rising := by
    obtain ⟨b, hb, hrising⟩ := h.rising
    exact ⟨b, hb, (rising_negedgeSck s idata).trans hrising⟩
  strobeLow _ := by
    have hhigh := h.strobeHigh rfl
    unfold negedgeSck
    split
    · next hstate =>
      by_cases hcount : s.count = 7#3
      · have hlow : s.wrstb = false := by
          rw [← Bool.not_eq_true]
          intro hstrobe
          simp [hhigh hstrobe] at hcount
        simp [hstate, hcount, hlow]
      · simp [hcount]
    all_goals simp [*]
  strobeHigh hlow := absurd hlow (by decide)
  outputLow _ hmgmt huser := by
    unfold negedgeSck at *
    split at * <;> simp_all

/-- Seven bits and the one on the input are a byte. -/
theorem concat_eq_ofBits {front : List Bool} (hlen : front.length = 7) (old : BitVec 7)
    (bit : Bool) :
    (front.foldl BitVec.shiftConcat old).concat bit = ofBits 8 (front ++ [bit]) := by
  apply BitVec.eq_of_getLsbD_eq
  intro i hi
  rw [getLsbD_ofBits_eight (by simp [hlen]) hi, BitVec.getLsbD_concat, List.reverse_append]
  cases i with
  | zero => rfl
  | succ i =>
    rw [if_neg (Nat.succ_ne_zero i), Nat.add_sub_cancel,
      getLsbD_foldl_shiftConcat _ _ _ (by omega), if_pos (by omega)]
    rfl

theorem ofNat_eq_seven_iff {front : List Bool} (hlen : front.length ≤ 7) :
    BitVec.ofNat 3 front.length = 7#3 ↔ front.length = 7 := by
  constructor
  · intro hseven
    by_contra hne
    exact count_ne_seven (by omega) hseven
  · intro hseven
    rw [hseven]

/-- The write strobe is up exactly for the bit that completes a byte to be written, and the address
and data outputs are then those of the write. -/
theorem Tracks.writes (h : Tracks s false bits) (bit : Bool) :
    (if s.wrstb then [(oaddr s bit, odata s bit)] else []) =
      if (partialWord 8 bits).length = 7 then
        (expected bits).writes (ofBits 8 (partialWord 8 bits ++ [bit]))
      else [] := by
  have hwithin := h.within
  rw [h.strobeLow rfl]
  cases hexpected : expected bits with
  | command | address cmd =>
    rw [hexpected] at hwithin
    simp [hwithin.1, Expects.writes]
  | nothing =>
    rw [hexpected] at hwithin
    rcases hwithin with hstate | hstate <;> simp [hstate, Expects.writes]
  | data cmd start i =>
    rw [hexpected] at hwithin
    obtain ⟨hstate, hcount, hwrite, -, haddr, old, hpredata⟩ := hwithin
    have hseven := ofNat_eq_seven_iff (length_partialWord_le bits)
    by_cases hfull : (partialWord 8 bits).length = 7
    · rw [if_pos hfull]
      simp [hstate, hcount, hfull, hwrite, Expects.writes, oaddr, odata, haddr, hpredata,
        concat_eq_ofBits hfull]
    · rw [if_neg hfull]
      simp [hcount, mt hseven.1 hfull]

/-- The output is enabled exactly for the bits of a byte to be read. -/
theorem Tracks.sdoenb (h : Tracks s false bits) (hnext : expected bits ≠ .nothing) :
    s.sdoenb = false ↔
      ∃ cmd start i, expected bits = .data cmd start i ∧ readMode cmd = true := by
  have hwithin := h.within
  cases hexpected : expected bits with
  | nothing => exact absurd hexpected hnext
  | command | address cmd =>
    rw [hexpected] at hwithin
    rw [h.outputLow rfl (by simp [hwithin.1]) (by simp [hwithin.1])]
    simp [hwithin.1]
  | data cmd start i =>
    rw [hexpected] at hwithin
    obtain ⟨hstate, -, -, hread, -⟩ := hwithin
    rw [h.outputLow rfl (by simp [hstate]) (by simp [hstate])]
    simp [hstate, hread]

end Tracks

/-! ## The byte on the output -/

/-- The byte `v` is being shifted out, its next bit in front while SCK is low. -/
structure Shows (v : BitVec 8) (sck : Bool) (s : Registers) : Prop where
  state : s.state = .data
  read : s.readmode = true
  output : s.ldata = shiftOut v (s.count.toNat - if sck then 1 else 0)
  begun : sck = true → s.count ≠ 0#3

variable {v : BitVec 8}

theorem Shows.sdo (h : Shows v false s) : sdo s = v.getMsbD s.count.toNat := by
  rw [HousekeepingSpi.sdo, h.output]
  exact getLsbD_shiftOut_top v _ (by omega)

/-- The falling edge before the first bit captures the byte. -/
theorem shows_capture (hstate : s.state = .data) (hread : s.readmode = true)
    (hcount : s.count = 0#3) (v : BitVec 8) : Shows v false (negedgeSck s v) := by
  simp only [negedgeSck, hstate, hread, hcount, if_true]
  exact ⟨rfl, rfl, rfl, fun hlow ↦ absurd hlow (by decide)⟩

theorem Shows.rise (h : Shows v false s) (hcount : s.count ≠ 7#3) (bit : Bool) :
    Shows v true (posedgeSck s bit) := by
  have htoNat : (s.count + 1#3).toNat = s.count.toNat + 1 ∧ s.count + 1#3 ≠ 0#3 := by
    revert hcount
    generalize s.count = count
    revert count
    decide
  simp only [posedgeSck, h.state, dataBit, hcount, false_and, if_false]
  refine ⟨rfl, h.read, ?_, fun _ ↦ htoNat.2⟩
  simp only [h.output, htoNat.1, if_true, Bool.false_eq_true, if_false]
  rfl

theorem Shows.fall (h : Shows v true s) (idata : BitVec 8) :
    Shows v false (negedgeSck s idata) := by
  have hcount := h.begun rfl
  have hpos : 0 < s.count.toNat :=
    Nat.pos_of_ne_zero fun hzero ↦ hcount (BitVec.eq_of_toNat_eq hzero)
  simp only [negedgeSck, h.state, h.read, hcount, if_true, if_false]
  refine ⟨rfl, rfl, ?_, fun hlow ↦ absurd hlow (by decide)⟩
  simp only [h.output, if_true, shiftConcat_shiftOut, Bool.false_eq_true, if_false]
  rw [show s.count.toNat - 1 + 1 = s.count.toNat - 0 by omega]

end CaravelSoc.HousekeepingSpi
