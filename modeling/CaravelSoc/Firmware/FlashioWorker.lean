import CaravelSoc.Firmware.Rv32
import CaravelSoc.Sequential.Framing
import CaravelSoc.Sequential.PartSelect

/-!
# The flash worker of the firmware

`flashio_worker` drives the SPI pins of the flash by hand, through the control
register at `0x28000000`: bit 0 is the data output, bit 1 the data input, bit 4
the clock, bit 5 the chip select and bit 31 hands the pins back to the memory
controller. A bit is clocked out when the clock rises with the chip selected.
What the register reads as is up to the flash; it may depend on the number of
bits it has been sent.
-/

open Rv32 Sequential

namespace CaravelSoc.Firmware

/-- The address of the SPI control register. -/
def spiCtrl : BitVec 32 := 0x28000000#32

/-- The memory, the control register and the bits clocked out. -/
structure SpiBus (flash : ℕ → BitVec 32) where
  ram : BitVec 32 → BitVec 8
  ctrl : BitVec 32
  sent : List Bool

namespace SpiBus

variable {flash : ℕ → BitVec 32}

/-- One byte of the control register is written. -/
def writeCtrl (b : SpiBus flash) (lane : ℕ) (v : BitVec 8) : SpiBus flash :=
  let ctrl := setPart b.ctrl (8 * lane) v
  let clocked := !b.ctrl.getLsbD 4 && ctrl.getLsbD 4 && !ctrl.getLsbD 5 && !ctrl.getLsbD 31
  { b with
    ctrl := ctrl
    sent := if clocked then b.sent ++ [ctrl.getLsbD 0] else b.sent }

def readCtrl (b : SpiBus flash) (lane : ℕ) : BitVec 8 :=
  (flash b.sent.length).extractLsb' (8 * lane) 8

/-- The address is one of the control register. -/
def isCtrl (a : BitVec 32) : Bool := (a - spiCtrl).toNat < 4

instance bus : Bus (SpiBus flash) where
  read b a := if isCtrl a then b.readCtrl (a - spiCtrl).toNat else b.ram a
  write b a v :=
    if isCtrl a then b.writeCtrl (a - spiCtrl).toNat v
    else { b with ram := Function.update b.ram a v }

end SpiBus

/-- The labels of the routine. -/
inductive Label where
  | L1 | L2 | L3 | L4 | LX | LY
  deriving DecidableEq, Repr

open Label Reg in
/-- `flashio_worker_begin` up to `flashio_worker_end`. -/
def flashioWorker : List (Line Label) :=
  [ -- address of SPI ctrl reg
    .op (.li t0 0x28000000#32),
    -- Set CS high, IO0 is output
    .op (.li t1 0x120#32),
    .op (.sh t1 0#12 t0),
    -- Enable Manual SPI Ctrl
    .op (.sb zero 3#12 t0),
    -- Send optional WREN cmd
    .beqz a2 L1,
    .op (.li t5 8#32),
    .op (.andi t2 a2 0xff#12),
    .label L4,
    .op (.srli t4 t2 7),
    .op (.sb t4 0#12 t0),
    .op (.ori t4 t4 0x10#12),
    .op (.sb t4 0#12 t0),
    .op (.slli t2 t2 1),
    .op (.andi t2 t2 0xff#12),
    .op (.addi t5 t5 (-1)),
    .bnez t5 L4,
    .op (.sb t1 0#12 t0),
    -- SPI transfer
    .label L1,
    -- If byte count is zero, we're done
    .beqz a1 L3,
    -- Set t5 to count down 32 bits
    .op (.li t5 32#32),
    -- Load t2 from address a0 (4 bytes)
    .op (.lw t2 0#12 a0),
    .label LY,
    -- Set t6 to count down 8 bits
    .op (.li t6 8#32),
    .label L2,
    -- Clock out the bit (msb first) on IO0 and read bit in from IO1
    .op (.srli t4 t2 31),
    .op (.sb t4 0#12 t0),
    .op (.ori t4 t4 0x10#12),
    .op (.sb t4 0#12 t0),
    .op (.lbu t4 0#12 t0),
    .op (.andi t4 t4 2#12),
    .op (.srli t4 t4 1),
    .op (.slli t2 t2 1),
    .op (.or t2 t2 t4),
    -- Decrement 32 bit count
    .op (.addi t5 t5 (-1)),
    .bnez t5 LX,
    .op (.sw t2 0#12 a0),
    .op (.addi a0 a0 4#12),
    .op (.lw t2 0#12 a0),
    .label LX,
    .op (.addi t6 t6 (-1)),
    .bnez t6 L2,
    .op (.addi a1 a1 (-1)),
    .bnez a1 LY,
    .beqz t5 L3,
    .op (.sw t2 0#12 a0),
    .label L3,
    -- Back to MEMIO mode
    .op (.li t1 0x80#32),
    .op (.sb t1 3#12 t0),
    .ret ]

/-! ## The pins -/

namespace SpiBus

variable {flash : ℕ → BitVec 32} {b : SpiBus flash}

/-- The pins are not handed to the memory controller. -/
def Manual (b : SpiBus flash) : Prop := b.ctrl.getLsbD 31 = false

/-- A bit is put on the data output with the clock low. -/
def lower (b : SpiBus flash) (bit : Bool) : SpiBus flash :=
  b.writeCtrl 0 ((BitVec.ofBool bit).setWidth 8)

/-- The clock is raised with a bit on the data output. -/
def raise (b : SpiBus flash) (bit : Bool) : SpiBus flash :=
  b.writeCtrl 0 ((BitVec.ofBool bit).setWidth 8 ||| 0x10#8)

theorem getLsbD_writeCtrl (lane : ℕ) (v : BitVec 8) (i : ℕ) (hi : i < 32) :
    (b.writeCtrl lane v).ctrl.getLsbD i =
      if 8 * lane ≤ i ∧ i < 8 * lane + 8 then v.getLsbD (i - 8 * lane) else b.ctrl.getLsbD i :=
  getLsbD_setPart _ _ _ _ hi

theorem sent_writeCtrl (lane : ℕ) (v : BitVec 8) :
    (b.writeCtrl lane v).sent =
      if !b.ctrl.getLsbD 4 && (b.writeCtrl lane v).ctrl.getLsbD 4 &&
          !(b.writeCtrl lane v).ctrl.getLsbD 5 && !(b.writeCtrl lane v).ctrl.getLsbD 31
      then b.sent ++ [(b.writeCtrl lane v).ctrl.getLsbD 0] else b.sent := rfl

/-- Lowering and raising the clock sends one bit. -/
theorem raise_lower (hmanual : b.Manual) (bit : Bool) :
    ((b.lower bit).raise bit).ram = b.ram ∧
      ((b.lower bit).raise bit).sent = b.sent ++ [bit] ∧ ((b.lower bit).raise bit).Manual := by
  refine ⟨rfl, ?_, ?_⟩
  · unfold raise lower
    rw [sent_writeCtrl, sent_writeCtrl]
    simp only [getLsbD_writeCtrl _ _ _ (show 0 < 32 by decide),
      getLsbD_writeCtrl _ _ _ (show 4 < 32 by decide),
      getLsbD_writeCtrl _ _ _ (show 5 < 32 by decide),
      getLsbD_writeCtrl _ _ _ (show 31 < 32 by decide)]
    rw [show b.ctrl.getLsbD 31 = false from hmanual]
    cases bit <;> simp
  · unfold Manual raise lower
    rw [getLsbD_writeCtrl _ _ _ (by decide), getLsbD_writeCtrl _ _ _ (by decide)]
    exact hmanual

theorem isCtrl_lane (lane : ℕ) (h : lane < 4) :
    isCtrl (spiCtrl + BitVec.ofNat 32 lane) = true ∧
      (spiCtrl + BitVec.ofNat 32 lane - spiCtrl).toNat = lane := by
  have hlane : (spiCtrl + BitVec.ofNat 32 lane - spiCtrl).toNat = lane := by
    rw [BitVec.add_comm, BitVec.add_sub_cancel, BitVec.toNat_ofNat, Nat.mod_eq_of_lt (by omega)]
  unfold isCtrl
  rw [hlane]
  exact ⟨decide_eq_true h, rfl⟩

theorem write_ctrl (lane : ℕ) (h : lane < 4) (v : BitVec 8) :
    Bus.write b (spiCtrl + BitVec.ofNat 32 lane) v = b.writeCtrl lane v := by
  obtain ⟨hctrl, hlane⟩ := isCtrl_lane lane h
  change (if isCtrl _ then b.writeCtrl _ v else _) = _
  rw [if_pos hctrl, hlane]

theorem read_ctrl (lane : ℕ) (h : lane < 4) :
    Bus.read b (spiCtrl + BitVec.ofNat 32 lane) = b.readCtrl lane := by
  obtain ⟨hctrl, hlane⟩ := isCtrl_lane lane h
  change (if isCtrl _ then b.readCtrl _ else _) = _
  rw [if_pos hctrl, hlane]
end SpiBus

/-! ## One bit -/

variable {flash : ℕ → BitVec 32}

theorem ushiftRight_top (x : BitVec 32) : x >>> 31 = (BitVec.ofBool x.msb).setWidth 32 := by
  ext i hi
  simp only [BitVec.getElem_ushiftRight, BitVec.getElem_setWidth, BitVec.getLsbD_ofBool]
  cases i with
  | zero => simp [BitVec.msb_eq_getLsbD_last]
  | succ i => simp [BitVec.getLsbD_of_ge x (31 + (i + 1)) (by omega)]

/-- What is left of a byte after `andi` with 2 and `srli` by 1. -/
theorem extract_io1 (x : BitVec 32) :
    ((x.extractLsb' 0 8).setWidth 32 &&& 2#32) >>> 1 =
      (BitVec.ofBool (x.getLsbD 1)).setWidth 32 := by
  ext i hi
  simp only [BitVec.getElem_ushiftRight, BitVec.getElem_setWidth, BitVec.getLsbD_ofBool]
  cases i with
  | zero => simp
  | succ i =>
    have htwo : (2#32).getLsbD (1 + (i + 1)) = false := by
      change (BitVec.twoPow 32 1).getLsbD _ = false
      rw [BitVec.getLsbD_twoPow]
      simp
    simp [htwo]

theorem shiftLeft_or_ofBool (x : BitVec 32) (b : Bool) :
    x <<< 1 ||| (BitVec.ofBool b).setWidth 32 = x.shiftConcat b := by
  ext i hi
  simp only [BitVec.getElem_or, BitVec.getElem_shiftLeft, BitVec.getElem_setWidth,
    BitVec.getLsbD_ofBool, BitVec.getElem_shiftConcat]
  cases i with
  | zero => simp
  | succ i => simp

/-- The bit of `t2` at `shamt` is put out and the clock raised. -/
def driveBit (shamt : ℕ) : List Op :=
  [.srli .t4 .t2 shamt, .sb .t4 0#12 .t0, .ori .t4 .t4 0x10#12, .sb .t4 0#12 .t0]

/-- The data input is read to `t4`. -/
def sampleBit : List Op := [.lbu .t4 0#12 .t0, .andi .t4 .t4 2#12, .srli .t4 .t4 1]

/-- The bit in `t4` is shifted into `t2` and counted. -/
def shiftBit : List Op := [.slli .t2 .t2 1, .or .t2 .t2 .t4, .addi .t5 .t5 (-1)]

theorem storeByte_ctrl (b : SpiBus flash) (v : BitVec 32) :
    storeByte b (spiCtrl + (0#12).signExtend 32) v = b.writeCtrl 0 (v.extractLsb' 0 8) :=
  SpiBus.write_ctrl 0 (by decide) _

theorem foldl_driveBit (shamt : ℕ) (c : Cpu (SpiBus flash)) (h : c.get .t0 = spiCtrl) (bit : Bool)
    (hbit : c.get .t2 >>> shamt = (BitVec.ofBool bit).setWidth 32) :
    let c' := (driveBit shamt).foldl Cpu.exec c
    c'.bus = (c.bus.lower bit).raise bit ∧ ∀ r, r ≠ .t4 → c'.get r = c.get r := by
  have hbytes :
      ((BitVec.ofBool bit).setWidth 32).extractLsb' 0 8 = (BitVec.ofBool bit).setWidth 8 ∧
      ((BitVec.ofBool bit).setWidth 32 ||| (0x10#12).signExtend 32).extractLsb' 0 8 =
        (BitVec.ofBool bit).setWidth 8 ||| 0x10#8 := by
    cases bit <;> decide
  intro c'
  constructor
  · simp only [c', driveBit, List.foldl_cons, List.foldl_nil, Cpu.exec, Cpu.address, Cpu.get_set,
      Cpu.get_setBus, Cpu.bus_set, Cpu.bus_setBus, h, hbit, reduceCtorEq, false_and, and_self,
      ne_eq, not_false_eq_true, if_true, if_false, storeByte_ctrl, hbytes]
    rfl
  · intro r hr
    simp [c', driveBit, Cpu.exec, hr]

theorem foldl_sampleBit (c : Cpu (SpiBus flash)) (h : c.get .t0 = spiCtrl) :
    let c' := sampleBit.foldl Cpu.exec c
    c'.bus = c.bus ∧
      c'.get .t4 = (BitVec.ofBool ((flash c.bus.sent.length).getLsbD 1)).setWidth 32 ∧
      ∀ r, r ≠ .t4 → c'.get r = c.get r := by
  intro c'
  have hread : Bus.read c.bus (spiCtrl + (0#12).signExtend 32) = c.bus.readCtrl 0 :=
    SpiBus.read_ctrl 0 (by decide)
  refine ⟨rfl, ?_, fun r hr ↦ ?_⟩
  · rw [← extract_io1]
    simp only [c', sampleBit, List.foldl_cons, List.foldl_nil, Cpu.exec, Cpu.address, Cpu.get_set,
      h, reduceCtorEq, and_self, ne_eq, not_false_eq_true, if_true, hread]
    rfl
  · simp [c', sampleBit, Cpu.exec, hr]

theorem foldl_shiftBit (c : Cpu (SpiBus flash)) (bit : Bool)
    (hbit : c.get .t4 = (BitVec.ofBool bit).setWidth 32) :
    let c' := shiftBit.foldl Cpu.exec c
    c'.bus = c.bus ∧ c'.get .t2 = (c.get .t2).shiftConcat bit ∧
      c'.get .t5 = c.get .t5 - 1#32 ∧ ∀ r, r ≠ .t2 → r ≠ .t5 → c'.get r = c.get r := by
  intro c'
  refine ⟨rfl, ?_, ?_, fun r hr hr' ↦ ?_⟩
  · rw [← shiftLeft_or_ofBool]
    simp [c', shiftBit, Cpu.exec, hbit]
  · simp [c', shiftBit, Cpu.exec, BitVec.sub_eq_add_neg]
  · simp [c', shiftBit, Cpu.exec, hr, hr']

end CaravelSoc.Firmware
