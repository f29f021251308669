import CaravelSoc.Flash.SpiFlash
import CaravelSoc.Sequential.Framing

/-!
# The read command of the flash

Selected, out of the continuous modes and powered up, the flash takes one bit at
every rising edge of its clock and shows the top bit of its buffer from the next
falling edge on. After command 03 and an address it shows the memory from that
address on, one byte after another for as long as it is clocked.
-/

open Sequential Sequential.ShiftRegister

namespace CaravelSoc.SpiFlash

/-! ## Bits and bytes -/

/-- The registers without those that only tell the past of the pins. -/
def core (s : SpiFlash) : SpiFlash :=
  { s with
    csb := false
    clk := false
    resetCount := 0#4
    resetMonitor := 0#4
    oe := .none
    dout := .none }

/-- One bit on one line. -/
def clockIn (memory : BitVec 24 → BitVec 8) (c : SpiFlash) (bit : Bool) : SpiFlash :=
  countBits memory 1 { c with buffer := c.buffer.shiftConcat bit }

/-- One byte on one line. -/
def byteIn (memory : BitVec 24 → BitVec 8) (c : SpiFlash) (byte : BitVec 8) : SpiFlash :=
  spiAction memory
    { c with buffer := byte, bitcount := 0, bytecount := c.bytecount + 1#32 }

/-- Bits that do not complete a byte. -/
def shiftIn (c : SpiFlash) (bits : List Bool) : SpiFlash :=
  { c with buffer := bits.foldl BitVec.shiftConcat c.buffer, bitcount := c.bitcount + bits.length }

section Bytes

variable {memory : BitVec 24 → BitVec 8} {c : SpiFlash} {bits : List Bool} {bit : Bool}

theorem clockIn_shiftIn (hcount : c.bitcount = 0) :
    clockIn memory (shiftIn c bits) bit =
      if bits.length + 1 = 8 then byteIn memory c (ofBits 8 (bits ++ [bit]))
      else shiftIn c (bits ++ [bit]) := by
  unfold clockIn countBits
  by_cases hfull : bits.length + 1 = 8
  · have hword : ofBits 8 (bits ++ [bit]) =
        (bits.foldl BitVec.shiftConcat c.buffer).shiftConcat bit := by
      rw [← foldl_shiftConcat_eq_ofBits c.buffer (by simp; omega), List.foldl_append]
      rfl
    rw [if_pos (by simp [shiftIn, hcount, hfull]), if_pos hfull, byteIn, hword]
    rfl
  · rw [if_neg (by simpa [shiftIn, hcount] using hfull), if_neg hfull]
    simp [shiftIn, hcount, List.foldl_append]

/-- What a byte does not change. -/
def kept (c : SpiFlash) : Bool × Bool × Quad × Quad × ℕ := (c.csb, c.clk, c.oe, c.dout, c.bitcount)

theorem kept_commandByte (c : SpiFlash) : c.commandByte.kept = c.kept := by
  unfold commandByte
  split <;> rfl

theorem kept_addressByte (c : SpiFlash) : c.addressByte.kept = c.kept := rfl

theorem kept_loadByte (first : ℤ) (c : SpiFlash) : (loadByte memory first c).kept = c.kept := by
  unfold loadByte
  split <;> rfl

theorem kept_modeByte (write : FlashMode) (c : SpiFlash) : (modeByte write c).kept = c.kept := by
  unfold modeByte
  split <;> rfl

theorem kept_wideRead {start : SpiFlash → SpiFlash} (write : FlashMode) (c : SpiFlash)
    (hstart : (start c).kept = c.kept) : (wideRead memory start write c).kept = c.kept := by
  rw [wideRead, kept_loadByte, kept_modeByte, kept_addressByte]
  split
  · exact hstart
  · rfl

theorem kept_spiAction (memory : BitVec 24 → BitVec 8) (c : SpiFlash) :
    (spiAction memory c).kept = c.kept := by
  rw [← kept_commandByte c]
  unfold spiAction
  dsimp only
  split
  · split
    · rw [kept_loadByte, kept_addressByte]
    · split
      · exact kept_wideRead _ _ rfl
      · split
        · exact kept_wideRead _ _ rfl
        · split
          · exact kept_wideRead _ _ rfl
          · rfl
  · rfl

theorem bitcount_spiAction (c : SpiFlash) : (spiAction memory c).bitcount = c.bitcount :=
  congrArg (fun k ↦ k.2.2.2.2) (kept_spiAction memory c)

/-- A bit changes nothing at the pins. -/
theorem pins_clockIn (memory : BitVec 24 → BitVec 8) (c : SpiFlash) (bit : Bool) :
    (clockIn memory c bit).csb = c.csb ∧ (clockIn memory c bit).clk = c.clk ∧
      (clockIn memory c bit).oe = c.oe ∧ (clockIn memory c bit).dout = c.dout := by
  unfold clockIn countBits
  split
  · have hkept := kept_spiAction memory
      { c with
        buffer := c.buffer.shiftConcat bit
        bitcount := 0
        bytecount := c.bytecount + 1#32 }
    exact ⟨congrArg (fun k ↦ k.1) hkept, congrArg (fun k ↦ k.2.1) hkept,
      congrArg (fun k ↦ k.2.2.1) hkept, congrArg (fun k ↦ k.2.2.2.1) hkept⟩
  · exact ⟨rfl, rfl, rfl, rfl⟩

theorem bitcount_byteIn (c : SpiFlash) (byte : BitVec 8) : (byteIn memory c byte).bitcount = 0 :=
  bitcount_spiAction _

theorem bitcount_foldl_byteIn (hcount : c.bitcount = 0) (memory : BitVec 24 → BitVec 8)
    (bytes : List (BitVec 8)) :
    (bytes.foldl (byteIn memory) c).bitcount = 0 := by
  cases bytes using List.reverseRecOn with
  | nil => exact hcount
  | append_singleton front byte => rw [List.foldl_append]; exact bitcount_byteIn _ _

/-- A stream of bits is its bytes and what is left over. -/
theorem foldl_clockIn (hcount : c.bitcount = 0) (bits : List Bool) :
    bits.foldl (clockIn memory) c =
      shiftIn ((words 8 bits).foldl (byteIn memory) c) (partialWord 8 bits) := by
  induction bits using List.reverseRecOn with
  | nil => simp [shiftIn]
  | append_singleton bits bit ih =>
    have hzero := bitcount_foldl_byteIn hcount memory (words 8 bits)
    rw [List.foldl_append, List.foldl_cons, List.foldl_nil, ih, clockIn_shiftIn hzero,
      words_append_bit (by decide), partialWord_append_bit (by decide)]
    split
    · rw [List.foldl_append, List.foldl_cons, List.foldl_nil]
      rfl
    · rfl

end Bytes

/-! ## Reading -/

/-- Command 03 and an address. -/
def readCommand (addr : BitVec 24) : List (BitVec 8) :=
  [0x03#8, addr.extractLsb' 16 8, addr.extractLsb' 8 8, addr.extractLsb' 0 8]

/-- Powered up and in no mode but the one for commands on one line. -/
structure OneLine (c : SpiFlash) : Prop where
  mode : c.mode = .spi
  nextMode : c.nextMode = .none
  dummycount : c.dummycount = 0
  xipCmd : c.xipCmd = 0x00#8
  poweredUp : c.poweredUp = true

/-- Just selected. -/
structure Fresh (c : SpiFlash) : Prop extends OneLine c where
  bitcount : c.bitcount = 0
  bytecount : c.bytecount = 0#32

/-- The command is known, and so many bytes have come in. -/
structure Commanded (bytecount : BitVec 32) (c : SpiFlash) : Prop extends OneLine c where
  bytecount : c.bytecount = bytecount
  spiCmd : c.spiCmd = 0x03#8

/-- The byte `count` from `addr` on is in the buffer. -/
structure Reading (memory : BitVec 24 → BitVec 8) (addr : BitVec 24) (count : ℕ) (c : SpiFlash) :
    Prop extends Commanded (BitVec.ofNat 32 (count + 4)) c where
  buffer : c.buffer = memory (addr + BitVec.ofNat 24 count)
  spiAddr : c.spiAddr = addr + BitVec.ofNat 24 (count + 1)

section Read

variable {memory : BitVec 24 → BitVec 8} {c : SpiFlash} {addr : BitVec 24} {count : ℕ}

theorem Fresh.commanded (h : Fresh c) (memory : BitVec 24 → BitVec 8) :
    Commanded 1#32 (byteIn memory c 0x03#8) := by
  have hfirst : byteIn memory c 0x03#8 =
      { c with buffer := 0x03#8, bytecount := 1#32, spiCmd := 0x03#8 } := by
    simp [byteIn, spiAction, commandByte, addressByte, loadByte, h.bytecount, h.poweredUp,
      h.bitcount]
  rw [hfirst]
  exact ⟨⟨h.mode, h.nextMode, h.dummycount, h.xipCmd, h.poweredUp⟩, rfl, rfl⟩

theorem Commanded.address2 (h : Commanded 1#32 c) (memory : BitVec 24 → BitVec 8)
    (byte : BitVec 8) :
    Commanded 2#32 (byteIn memory c byte) ∧
      (byteIn memory c byte).spiAddr = byte ++ c.spiAddr.extractLsb' 0 16 := by
  have hsecond : byteIn memory c byte =
      { c with
        buffer := byte
        bitcount := 0
        bytecount := 2#32
        spiAddr := byte ++ c.spiAddr.extractLsb' 0 16 } := by
    simp [byteIn, spiAction, commandByte, addressByte, loadByte, h.bytecount, h.poweredUp,
      h.spiCmd]
  rw [hsecond]
  exact ⟨⟨⟨h.mode, h.nextMode, h.dummycount, h.xipCmd, h.poweredUp⟩, rfl, h.spiCmd⟩, rfl⟩

theorem Commanded.address3 (h : Commanded 2#32 c) (memory : BitVec 24 → BitVec 8)
    (byte : BitVec 8) :
    Commanded 3#32 (byteIn memory c byte) ∧
      (byteIn memory c byte).spiAddr =
        c.spiAddr.extractLsb' 16 8 ++ byte ++ c.spiAddr.extractLsb' 0 8 := by
  have hthird : byteIn memory c byte =
      { c with
        buffer := byte
        bitcount := 0
        bytecount := 3#32
        spiAddr := c.spiAddr.extractLsb' 16 8 ++ byte ++ c.spiAddr.extractLsb' 0 8 } := by
    simp [byteIn, spiAction, commandByte, addressByte, loadByte, h.bytecount, h.poweredUp,
      h.spiCmd]
  rw [hthird]
  exact ⟨⟨⟨h.mode, h.nextMode, h.dummycount, h.xipCmd, h.poweredUp⟩, rfl, h.spiCmd⟩, rfl⟩

theorem Commanded.address4 (h : Commanded 3#32 c) (memory : BitVec 24 → BitVec 8)
    (byte : BitVec 8) :
    Reading memory (c.spiAddr.extractLsb' 8 16 ++ byte) 0 (byteIn memory c byte) := by
  have hfourth : byteIn memory c byte =
      { c with
        buffer := memory (c.spiAddr.extractLsb' 8 16 ++ byte)
        bitcount := 0
        bytecount := 4#32
        spiAddr := c.spiAddr.extractLsb' 8 16 ++ byte + 1#24 } := by
    simp [byteIn, spiAction, commandByte, addressByte, loadByte, h.bytecount, h.poweredUp,
      h.spiCmd]
  rw [hfourth]
  refine ⟨⟨⟨h.mode, h.nextMode, h.dummycount, h.xipCmd, h.poweredUp⟩, rfl, h.spiCmd⟩, ?_, rfl⟩
  rw [BitVec.add_zero]

/-- The three address bytes put together. -/
theorem address_eq (addr old : BitVec 24) :
    let s2 : BitVec 24 := addr.extractLsb' 16 8 ++ old.extractLsb' 0 16
    let s3 : BitVec 24 :=
      s2.extractLsb' 16 8 ++ addr.extractLsb' 8 8 ++ s2.extractLsb' 0 8
    s3.extractLsb' 8 16 ++ addr.extractLsb' 0 8 = addr := by
  apply BitVec.eq_of_getLsbD_eq
  intro i hi
  simp only [BitVec.getLsbD_append, BitVec.getLsbD_extractLsb']
  rcases Nat.lt_or_ge i 8 with hlow | hlow
  · simp [hlow]
  · rw [show 8 + (i - 8) = i by omega]
    rcases Nat.lt_or_ge i 16 with hmid | hmid
    · simp [hlow.not_gt, show i - 8 < 8 by omega, show i - 8 < 16 by omega,
        show 8 + (i - 8) = i by omega]
    · simp [hlow.not_gt, hmid.not_gt, show ¬i - 8 < 8 by omega, show i - 8 < 16 by omega,
        show i - 8 - 8 = i - 16 by omega, show i - 16 < 8 by omega,
        show 16 + (i - 16) = i by omega]

/-- The command comes in: one line throughout, and then the first byte is there. -/
theorem Fresh.command (h : Fresh c) (memory : BitVec 24 → BitVec 8) (addr : BitVec 24) :
    (∀ bytes, bytes <+: readCommand addr → OneLine (bytes.foldl (byteIn memory) c)) ∧
      Reading memory addr 0 ((readCommand addr).foldl (byteIn memory) c) := by
  have h1 := h.commanded memory
  obtain ⟨h2, haddr2⟩ := h1.address2 memory (addr.extractLsb' 16 8)
  obtain ⟨h3, haddr3⟩ := h2.address3 memory (addr.extractLsb' 8 8)
  have h4 := h3.address4 memory (addr.extractLsb' 0 8)
  rw [haddr3, haddr2, address_eq] at h4
  have hall : Reading memory addr 0 ((readCommand addr).foldl (byteIn memory) c) := by
    simpa only [readCommand, List.foldl_cons, List.foldl_nil] using h4
  refine ⟨fun bytes hbytes ↦ ?_, hall⟩
  rw [List.prefix_iff_eq_take] at hbytes
  rw [hbytes]
  rcases bytes.length with _ | _ | _ | _ | n
  · exact h.toOneLine
  · simpa only [readCommand, List.take_succ_cons, List.take_zero, List.foldl_cons,
      List.foldl_nil] using h1.toOneLine
  · simpa only [readCommand, List.take_succ_cons, List.take_zero, List.foldl_cons,
      List.foldl_nil] using h2.toOneLine
  · simpa only [readCommand, List.take_succ_cons, List.take_zero, List.foldl_cons,
      List.foldl_nil] using h3.toOneLine
  · rw [List.take_of_length_le (by simp [readCommand])]
    exact hall.toOneLine

/-- Any further byte brings the next one of the memory. -/
theorem Reading.next (h : Reading memory addr count c) (hbound : count + 5 < 2 ^ 31)
    (byte : BitVec 8) : Reading memory addr (count + 1) (byteIn memory c byte) := by
  have hcount : c.bytecount + 1#32 = BitVec.ofNat 32 (count + 5) := by
    rw [h.bytecount, ← BitVec.ofNat_add]
  have hne : ∀ k < 5, BitVec.ofNat 32 (count + 5) ≠ BitVec.ofNat 32 k := by
    intro k hk heq
    have hnat := congrArg BitVec.toNat heq
    rw [BitVec.toNat_ofNat, BitVec.toNat_ofNat] at hnat
    omega
  have hfour : (4 : ℤ) ≤ (BitVec.ofNat 32 (count + 5)).toInt := by
    rw [BitVec.toInt_eq_toNat_of_lt] <;> rw [BitVec.toNat_ofNat] <;> omega
  have hlater : byteIn memory c byte =
      { c with
        buffer := memory c.spiAddr
        bitcount := 0
        bytecount := BitVec.ofNat 32 (count + 5)
        spiAddr := c.spiAddr + 1#24 } := by
    rw [byteIn, hcount]
    simp only [spiAction, commandByte, addressByte, loadByte, hne 1 (by decide),
      hne 2 (by decide), hne 3 (by decide), hne 4 (by decide), if_false, h.poweredUp, h.spiCmd,
      hfour, if_true]
  rw [hlater]
  refine ⟨⟨⟨h.mode, h.nextMode, h.dummycount, h.xipCmd, h.poweredUp⟩, rfl, h.spiCmd⟩, ?_, ?_⟩
  · exact congrArg memory h.spiAddr
  · change c.spiAddr + 1#24 = _
    rw [h.spiAddr, BitVec.add_assoc, ← BitVec.ofNat_add]

theorem Reading.run (h : Reading memory addr count c) (bytes : List (BitVec 8))
    (hbound : count + bytes.length + 4 < 2 ^ 31) :
    Reading memory addr (count + bytes.length) (bytes.foldl (byteIn memory) c) := by
  induction bytes generalizing c count with
  | nil => exact h
  | cons byte rest ih =>
    rw [List.length_cons] at hbound
    have hrest := ih (h.next (by omega) byte) (by omega)
    rwa [Nat.add_right_comm, Nat.add_assoc] at hrest

end Read

/-! ## At the pins -/

section Core

variable {memory : BitVec 24 → BitVec 8} {s : SpiFlash} {bit : Bool}

@[simp]
theorem core_core (s : SpiFlash) : s.core.core = s.core := rfl

theorem core_commandByte (s : SpiFlash) : s.commandByte.core = s.core.commandByte := by
  unfold commandByte
  exact apply_ite core _ _ _

theorem core_addressByte (s : SpiFlash) : s.addressByte.core = s.core.addressByte := rfl

theorem core_loadByte (first : ℤ) (s : SpiFlash) :
    (loadByte memory first s).core = loadByte memory first s.core := by
  unfold loadByte
  exact apply_ite core _ _ _

theorem core_modeByte (write : FlashMode) (s : SpiFlash) :
    (modeByte write s).core = modeByte write s.core := by
  unfold modeByte
  exact apply_ite core _ _ _

theorem core_wideRead (memory : BitVec 24 → BitVec 8) (start : SpiFlash → SpiFlash)
    (hstart : ∀ s, (start s).core = start s.core) (write : FlashMode) (s : SpiFlash) :
    (wideRead memory start write s).core = wideRead memory start write s.core := by
  rw [wideRead, core_loadByte, core_modeByte, core_addressByte, apply_ite core, hstart]
  rfl

theorem core_spiAction (s : SpiFlash) : (spiAction memory s).core = spiAction memory s.core := by
  unfold spiAction
  rw [← core_commandByte]
  simp only [apply_ite core, core_loadByte, core_addressByte]
  have hdual := core_wideRead memory dspiStart (fun _ ↦ rfl) .dspiWr
  have hquad := core_wideRead memory qspiStart (fun _ ↦ rfl) .qspiWr
  have hddr := core_wideRead memory ddrStart (fun _ ↦ rfl) .qspiDdrWr
  rw [hdual, hquad, hddr]
  rfl

theorem core_clockIn (s : SpiFlash) (bit : Bool) :
    (clockIn memory s bit).core = clockIn memory s.core bit := by
  unfold clockIn countBits
  rw [apply_ite core, core_spiAction]
  rfl

end Core

/-! ### The levels last seen -/

section Levels

variable {memory : BitVec 24 → BitVec 8}

def levels (s : SpiFlash) : Bool × Bool := (s.csb, s.clk)

theorem levels_spiAction (s : SpiFlash) : (spiAction memory s).levels = s.levels :=
  congrArg (fun k ↦ (k.1, k.2.1)) (kept_spiAction memory s)

theorem levels_countBits (width : ℕ) (s : SpiFlash) :
    (countBits memory width s).levels = s.levels := by
  unfold countBits
  split
  · exact levels_spiAction _
  · rfl

theorem levels_csbChange (s : SpiFlash) : (csbChange memory s).levels = s.levels := by
  unfold csbChange
  split
  · dsimp only
    split <;> rfl
  · split
    · exact levels_spiAction _
    · rfl

theorem levels_monitorEdge (io : Quad) (s : SpiFlash) : (monitorEdge io s).levels = s.levels := by
  unfold monitorEdge
  split
  · rfl
  · split <;> rfl

theorem levels_driveMode (io : Quad) (s : SpiFlash) :
    (driveMode memory io s).levels = s.levels := by
  unfold driveMode
  split
  · rfl
  · rfl
  · rfl
  · rfl
  · rfl
  · rfl
  · exact levels_countBits _ _
  · exact levels_countBits _ _

theorem levels_enterMode (s : SpiFlash) : s.enterMode.levels = s.levels := by
  unfold enterMode
  split <;> rfl

theorem levels_levelChange (io : Quad) (s : SpiFlash) :
    (levelChange memory io s).levels = s.levels := by
  unfold levelChange
  split
  · rw [levels_enterMode]
    split
    · rfl
    · exact levels_driveMode _ _
  · rfl

theorem levels_clockEdge (io : Quad) (s : SpiFlash) :
    (clockEdge memory io s).levels = s.levels := by
  unfold clockEdge
  split
  · rfl
  · split
    · rfl
    · split
      · rfl
      · exact levels_countBits _ _
      · exact levels_countBits _ _
      · exact levels_countBits _ _
      · exact levels_countBits _ _
      · exact levels_countBits _ _
      · exact levels_countBits _ _
      · exact levels_countBits _ _

theorem levels_step (memory : BitVec 24 → BitVec 8) (s : SpiFlash) (pins : FlashPins) :
    (s.step memory pins).levels = (pins.csb, pins.clk) := by
  have hite : ∀ (p : Bool) (f : SpiFlash → SpiFlash) (t : SpiFlash),
      (∀ u, (f u).levels = u.levels) → (if p then f t else t).levels = t.levels := by
    intro p f t hf
    cases p
    · rfl
    · exact hf t
  unfold step
  dsimp only
  rw [hite _ _ _ fun u ↦ levels_clockEdge _ u, hite _ _ _ fun u ↦ levels_levelChange _ u,
    hite _ _ _ fun u ↦ levels_monitorEdge _ u, hite _ _ _ fun u ↦ levels_csbChange u]
  rfl

end Levels

/-- The bits come from a read command, as far as it has come in. -/
def Requests (addr : BitVec 24) (bits : List Bool) : Prop :=
  words 8 bits <+: readCommand addr ∨ readCommand addr <+: words 8 bits

/-- The bit at the data output after the falling edge behind `bits`. -/
def shown (memory : BitVec 24 → BitVec 8) (c : SpiFlash) (bits : List Bool) : Bool :=
  (bits.foldl (clockIn memory) c).buffer.getLsbD 7

/-- Selected in the state `c`, the flash has taken `bits`. -/
structure Follows (memory : BitVec 24 → BitVec 8) (c : SpiFlash) (bits : List Bool)
    (s : SpiFlash) : Prop where
  csb : s.csb = false
  core : s.core = bits.foldl (clockIn memory) c
  low : s.clk = false → s.io1 = shown memory c bits
  high : s.clk = true → ∃ front bit, bits = front ++ [bit] ∧ s.io1 = shown memory c front

/-- Deselected with the clock low. -/
structure Standby (s : SpiFlash) : Prop where
  csb : s.csb = true
  fresh : Fresh s.core

/-- The registers the source initialises, with the chip select high. -/
def deselected : SpiFlash where
  csb := true
  clk := false
  buffer := 0x00#8
  resetCount := 0#4
  resetMonitor := 0#4
  bitcount := 0
  bytecount := 0#32
  dummycount := 0
  spiCmd := 0x00#8
  xipCmd := 0x00#8
  spiAddr := 0#24
  poweredUp := true
  mode := .spi
  nextMode := .none
  oe := .none
  dout := .none

/-- A memory of the low bytes of its addresses. -/
def lowBytes (addr : BitVec 24) : BitVec 8 := addr.setWidth 8

theorem deselected_standby : deselected.Standby := ⟨rfl, ⟨rfl, rfl, rfl, rfl, rfl⟩, rfl, rfl⟩

section Pins

variable {memory : BitVec 24 → BitVec 8} {c s : SpiFlash} {addr : BitVec 24} {bits : List Bool}
  {pins : FlashPins} {bit : Bool}

/-- A read command, or a part of one, stays on one line. -/
theorem Requests.oneLine (h : Requests addr bits) (hfresh : Fresh c)
    (hbound : bits.length / 8 < 2 ^ 31) : OneLine (bits.foldl (clockIn memory) c) := by
  rw [foldl_clockIn hfresh.bitcount]
  obtain ⟨hpart, hfirst⟩ := hfresh.command memory addr
  have hbytes : OneLine ((words 8 bits).foldl (byteIn memory) c) := by
    rcases h with hprefix | ⟨rest, hrest⟩
    · exact hpart _ hprefix
    · have hlength := congrArg List.length hrest
      rw [List.length_append, length_words, show (readCommand addr).length = 4 from rfl] at hlength
      rw [← hrest, List.foldl_append]
      exact (hfirst.run rest (by omega)).toOneLine
  exact ⟨hbytes.mode, hbytes.nextMode, hbytes.dummycount, hbytes.xipCmd, hbytes.poweredUp⟩

/-- **The answer.** Behind the command and the address the flash shows the memory from the address
on, the highest bit of every byte first. -/
theorem shown_of_read (hfresh : Fresh c) (h : readCommand addr <+: words 8 bits)
    (hbound : bits.length / 8 < 2 ^ 31) :
    shown memory c bits =
      (memory (addr + BitVec.ofNat 24 (bits.length / 8 - 4))).getMsbD (bits.length % 8) := by
  obtain ⟨rest, hrest⟩ := h
  have hlength := congrArg List.length hrest
  rw [List.length_append, length_words, show (readCommand addr).length = 4 from rfl] at hlength
  have hmod := Nat.mod_lt bits.length (show 0 < 8 by decide)
  have hreading := ((hfresh.command memory addr).2).run rest (by omega)
  rw [← List.foldl_append, hrest, Nat.zero_add, show rest.length = bits.length / 8 - 4 by omega]
    at hreading
  rw [shown, foldl_clockIn hfresh.bitcount, shiftIn, hreading.buffer,
    getLsbD_foldl_shiftConcat _ _ _ (by decide), length_partialWord, if_neg (by omega),
    BitVec.getMsbD_eq_getLsbD, decide_eq_true hmod, Bool.true_and]

theorem step_same (hcsb : pins.csb = s.csb) (hclk : pins.clk = s.clk) : s.step memory pins = s := by
  simp [step, hcsb, hclk]

/-- The chip select goes low. -/
theorem Standby.select (h : s.Standby) (memory : BitVec 24 → BitVec 8) (hclk : s.clk = false)
    (hpins : pins.csb = false) (hpins' : pins.clk = false) :
    Follows memory s.core [] (s.step memory pins) := by
  have hmode : s.mode = .spi := h.fresh.mode
  have hnext : s.nextMode = .none := h.fresh.nextMode
  have hdummy : s.dummycount = 0 := h.fresh.dummycount
  have hxip : s.xipCmd = 0x00#8 := h.fresh.xipCmd
  have hcsb := h.csb
  have hstep : s.step memory pins =
      { s with
        csb := false
        clk := false
        oe := ⟨false, true, false, false⟩
        dout.io1 := s.buffer.getLsbD 7 } := by
    simp [step, csbChange, levelChange, driveMode, enterMode, hcsb, hclk, hpins, hpins', hmode,
      hnext, hdummy, hxip]
  rw [hstep]
  exact ⟨rfl, rfl, fun _ ↦ rfl, fun hhigh ↦ by cases hhigh⟩

theorem monitorEdge_eq (io : Quad) (s : SpiFlash) :
    ∃ count monitor,
      monitorEdge io s = { s with resetCount := count, resetMonitor := monitor } := by
  unfold monitorEdge
  split
  · exact ⟨_, _, rfl⟩
  · split
    · exact ⟨_, _, rfl⟩
    · exact ⟨_, _, rfl⟩

theorem Follows.fall (h : Follows memory c bits s) (hline : OneLine s.core) (hclk : s.clk = true)
    (hpins : pins.csb = false) (hpins' : pins.clk = false) :
    Follows memory c bits (s.step memory pins) := by
  have hmode : s.mode = .spi := hline.mode
  have hnext : s.nextMode = .none := hline.nextMode
  have hdummy : s.dummycount = 0 := hline.dummycount
  have hcsb := h.csb
  have hstep : s.step memory pins =
      { s with
        csb := false
        clk := false
        oe := ⟨false, true, false, false⟩
        dout.io1 := s.buffer.getLsbD 7 } := by
    simp [step, levelChange, driveMode, enterMode, hcsb, hclk, hpins, hpins', hmode, hnext, hdummy]
  rw [hstep]
  refine ⟨rfl, h.core, fun _ ↦ ?_, fun hhigh ↦ by cases hhigh⟩
  rw [shown, ← h.core]
  rfl

theorem Follows.rise (h : Follows memory c bits s) (hline : OneLine s.core) (hclk : s.clk = false)
    (hpins : pins.csb = false) (hpins' : pins.clk = true) :
    Follows memory c (bits ++ [pins.io.io0]) (s.step memory pins) := by
  have hmode : s.mode = .spi := hline.mode
  have hdummy : s.dummycount = 0 := hline.dummycount
  have hcsb := h.csb
  obtain ⟨count, monitor, hmonitor⟩ :=
    monitorEdge_eq pins.io { s with csb := false, clk := true }
  have hstep : s.step memory pins =
      clockIn memory
        { s with csb := false, clk := true, resetCount := count, resetMonitor := monitor }
        pins.io.io0 := by
    simp only [step, hcsb, hclk, hpins, hpins', bne_self_eq_false, Bool.not_false, Bool.and_self,
      Bool.true_or, Bool.false_eq_true, if_false, if_true, Bool.false_or, Bool.bne_true]
    rw [hmonitor]
    simp [levelChange, clockEdge, clockIn, hmode, hdummy]
  obtain ⟨hcsb', hclk', hoe, hdout⟩ := pins_clockIn memory
    { s with csb := false, clk := true, resetCount := count, resetMonitor := monitor } pins.io.io0
  rw [hstep]
  refine ⟨hcsb', ?_, fun hlow ↦ ?_, fun _ ↦ ⟨bits, pins.io.io0, rfl, ?_⟩⟩
  · rw [core_clockIn, List.foldl_append, ← h.core]
    rfl
  · rw [hclk'] at hlow
    cases hlow
  · rw [io1, hoe, hdout, ← h.low hclk]
    rfl

/-- Any change of the clock and the data pins while the chip select is low. -/
theorem Follows.step (h : Follows memory c bits s) (hline : OneLine (bits.foldl (clockIn memory) c))
    (hpins : pins.csb = false) :
    Follows memory c (if !s.clk && pins.clk then bits ++ [pins.io.io0] else bits)
      (s.step memory pins) := by
  rw [← h.core] at hline
  cases hclk : s.clk <;> cases hpins' : pins.clk
  · rw [step_same (hpins.trans h.csb.symm) (hpins'.trans hclk.symm)]
    exact h
  · exact h.rise hline hclk hpins hpins'
  · exact h.fall hline hclk hpins hpins'
  · rw [step_same (hpins.trans h.csb.symm) (hpins'.trans hclk.symm)]
    exact h

/-- The chip select goes high again. -/
theorem Follows.deselect (h : Follows memory c bits s)
    (hline : OneLine (bits.foldl (clockIn memory) c)) (hpins : pins.csb = true) :
    (s.step memory pins).Standby := by
  have hxip : s.xipCmd = 0x00#8 := by
    rw [← h.core] at hline
    exact hline.xipCmd
  have hcsb := h.csb
  have hstep : s.step memory pins =
      { s with
        csb := true
        clk := pins.clk
        buffer := 0x00#8
        bitcount := 0
        bytecount := 0#32
        mode := .spi
        oe := .none
        resetCount := 0#4
        resetMonitor := 0#4 } := by
    simp [SpiFlash.step, csbChange, monitorEdge, levelChange, clockEdge, hcsb, hpins, hxip]
  rw [← h.core] at hline
  rw [hstep]
  exact ⟨rfl, ⟨rfl, hline.nextMode, hline.dummycount, hline.xipCmd, hline.poweredUp⟩, rfl, rfl⟩

theorem Standby.step (h : s.Standby) (hpins : pins.csb = true) : (s.step memory pins).Standby := by
  have hcsb := h.csb
  have hstep : (s.step memory pins).csb = true ∧ (s.step memory pins).core = s.core := by
    cases hedge : !s.clk && pins.clk <;>
      simp [SpiFlash.step, monitorEdge, levelChange, clockEdge, hcsb, hpins, hedge, core]
  refine ⟨hstep.1, ?_⟩
  rw [hstep.2]
  exact h.fresh

end Pins

end CaravelSoc.SpiFlash
