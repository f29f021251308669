import CaravelSoc.Firmware.FlashioLoops

/-!
# A call of the flash worker

Before the transfer the pins are taken over and the optional command byte is sent;
after it the pins are handed back. None of this touches the memory, and apart from
the bits of the command none of it clocks anything out.
-/

open Rv32 Sequential ShiftRegister

namespace CaravelSoc.Firmware

variable {flash : ℕ → BitVec 32}

namespace SpiBus

variable {b b' : SpiBus flash}

/-- Bits are clocked out with the pins under manual control, and the memory is left alone. -/
structure Sends (b : SpiBus flash) (bits : List Bool) (b' : SpiBus flash) : Prop where
  ram : b'.ram = b.ram
  sent : b'.sent = b.sent ++ bits
  manual : b'.Manual

theorem Sends.trans {b'' : SpiBus flash} {bits bits' : List Bool} (h : b.Sends bits b')
    (h' : b'.Sends bits' b'') : b.Sends (bits ++ bits') b'' where
  ram := h'.ram.trans h.ram
  sent := by rw [h'.sent, h.sent, List.append_assoc]
  manual := h'.manual

theorem sends_bit (hmanual : b.Manual) (bit : Bool) : b.Sends [bit] ((b.lower bit).raise bit) := by
  obtain ⟨hram, hsent, hnext⟩ := raise_lower hmanual bit
  exact ⟨hram, hsent, hnext⟩

/-- With the clock low nothing is clocked out. -/
theorem sent_writeCtrl_of_low (lane : ℕ) (v : BitVec 8)
    (h : (b.writeCtrl lane v).ctrl.getLsbD 4 = false) : (b.writeCtrl lane v).sent = b.sent := by
  rw [sent_writeCtrl, h]
  simp

theorem clk_writeCtrl (lane : ℕ) (hlane : 0 < lane) (v : BitVec 8) :
    (b.writeCtrl lane v).ctrl.getLsbD 4 = b.ctrl.getLsbD 4 := by
  rw [getLsbD_writeCtrl _ _ _ (by decide), if_neg (by omega)]

/-- The chip is deselected, with the clock low. -/
def deselect (b : SpiBus flash) : SpiBus flash := b.writeCtrl 0 0x20#8

theorem clk_deselect : b.deselect.ctrl.getLsbD 4 = false := by
  unfold deselect
  rw [getLsbD_writeCtrl _ _ _ (by decide)]
  rfl

theorem sends_deselect (hmanual : b.Manual) : b.Sends [] b.deselect where
  ram := rfl
  sent := by
    rw [List.append_nil]
    exact sent_writeCtrl_of_low _ _ clk_deselect
  manual := by
    unfold Manual deselect
    rw [getLsbD_writeCtrl _ _ _ (by decide)]
    exact hmanual

/-- The pins are taken over: chip deselected, data output enabled, manual control. -/
def takeOver (b : SpiBus flash) : SpiBus flash := (b.deselect.writeCtrl 1 0x1#8).writeCtrl 3 0#8

theorem sends_takeOver : b.Sends [] b.takeOver where
  ram := rfl
  sent := by
    have hlow : (b.deselect.writeCtrl 1 0x1#8).ctrl.getLsbD 4 = false :=
      (clk_writeCtrl 1 (by decide) _).trans clk_deselect
    unfold takeOver
    rw [List.append_nil, sent_writeCtrl_of_low _ _ ((clk_writeCtrl 3 (by decide) _).trans hlow),
      sent_writeCtrl_of_low _ _ hlow]
    exact sent_writeCtrl_of_low _ _ clk_deselect
  manual := by
    unfold Manual takeOver
    rw [getLsbD_writeCtrl _ _ _ (by decide)]
    rfl

/-- The pins are handed back. -/
def handBack (b : SpiBus flash) : SpiBus flash := b.writeCtrl 3 0x80#8

theorem handBack_ram_sent : b.handBack.ram = b.ram ∧ b.handBack.sent = b.sent := by
  have hback : b.handBack.ctrl.getLsbD 31 = true := by
    unfold handBack
    rw [getLsbD_writeCtrl _ _ _ (by decide)]
    rfl
  refine ⟨rfl, ?_⟩
  unfold handBack at hback ⊢
  rw [sent_writeCtrl, hback]
  simp

end SpiBus

/-! ## The command byte -/

theorem setWidth_ushiftRight_top (y : BitVec 8) :
    y.setWidth 32 >>> 7 = (BitVec.ofBool y.msb).setWidth 32 := by
  ext i hi
  simp only [BitVec.getElem_ushiftRight, BitVec.getLsbD_setWidth, BitVec.getElem_setWidth,
    BitVec.getLsbD_ofBool]
  cases i with
  | zero => simp [BitVec.msb_eq_getLsbD_last]
  | succ i => simp [BitVec.getLsbD_of_ge y (7 + (i + 1)) (by omega)]

theorem setWidth_shiftConcat (y : BitVec 8) :
    y.setWidth 32 <<< 1 &&& (0xff#12).signExtend 32 = (y.shiftConcat false).setWidth 32 := by
  have hmask : (0xff#12).signExtend 32 = (BitVec.allOnes 8).setWidth 32 := by decide
  rw [hmask]
  ext i hi
  simp only [BitVec.getElem_and, BitVec.getElem_shiftLeft, BitVec.getElem_setWidth,
    BitVec.getLsbD_allOnes, BitVec.getLsbD_shiftConcat]
  cases i with
  | zero => simp
  | succ i => simp [Bool.and_comm]

/-- The rest of the command moves up in the byte. -/
def shiftCommand : List Op := [.slli .t2 .t2 1, .andi .t2 .t2 0xff#12, .addi .t5 .t5 (-1)]

theorem and_byte (v : BitVec 32) :
    v &&& (0xff#12).signExtend 32 = (v.extractLsb' 0 8).setWidth 32 := by
  have hmask : (0xff#12).signExtend 32 = (BitVec.allOnes 8).setWidth 32 := by decide
  rw [hmask]
  ext i hi
  simp only [BitVec.getElem_and, BitVec.getElem_setWidth, BitVec.getLsbD_allOnes,
    BitVec.getLsbD_extractLsb', Nat.zero_add]
  rw [Bool.and_comm, BitVec.getLsbD_eq_getElem hi]

/-- One bit of the command. -/
def commandBit : List Op := driveBit 7 ++ shiftCommand

theorem goto_L4 :
    goto flashioWorker .L4 =
      .label .L4 :: (commandBit.map .op ++
        .bnez .t5 .L4 :: ([.sb .t1 0#12 .t0].map .op ++ goto flashioWorker .L1)) := rfl

theorem goto_L1 :
    goto flashioWorker .L1 =
      .label .L1 :: .beqz .a1 .L3 ::
        ([.li .t5 32#32, .lw .t2 0#12 .a0].map .op ++ goto flashioWorker .LY) := rfl

theorem goto_L3 :
    goto flashioWorker .L3 =
      .label .L3 :: ([.li .t1 0x80#32, .sb .t1 3#12 .t0].map .op ++ [.ret]) := rfl

theorem flashioWorker_eq :
    flashioWorker =
      [.li .t0 0x28000000#32, .li .t1 0x120#32, .sh .t1 0#12 .t0, .sb .zero 3#12 .t0].map .op ++
        .beqz .a2 .L1 :: ([.li .t5 8#32, .andi .t2 .a2 0xff#12].map .op ++
          goto flashioWorker .L4) := rfl

theorem foldl_shiftCommand (c : Cpu (SpiBus flash)) (y : BitVec 8)
    (hy : c.get .t2 = y.setWidth 32) :
    let c' := shiftCommand.foldl Cpu.exec c
    c'.bus = c.bus ∧ c'.get .t2 = (y.shiftConcat false).setWidth 32 ∧
      c'.get .t5 = c.get .t5 - 1#32 ∧ ∀ r, r ≠ .t2 → r ≠ .t5 → c'.get r = c.get r := by
  intro c'
  refine ⟨rfl, ?_, ?_, fun r hr hr' ↦ ?_⟩
  · rw [← setWidth_shiftConcat, ← hy]
    simp [c', shiftCommand, Cpu.exec]
  · simp [c', shiftCommand, Cpu.exec, BitVec.sub_eq_add_neg]
  · simp [c', shiftCommand, Cpu.exec, hr, hr']

section Command

variable {c c₀ : Cpu (SpiBus flash)} {y : BitVec 8} {k : ℕ}

/-- The registers before bit `k` of the command, which a call from `c₀` sends. -/
structure Commands (c₀ : Cpu (SpiBus flash)) (y : BitVec 8) (k : ℕ) (c : Cpu (SpiBus flash)) :
    Prop where
  bus : c₀.bus.Sends ((msbFirst y).take k) c.bus
  t0 : c.get .t0 = spiCtrl
  t1 : c.get .t1 = 0x120#32
  t2 : c.get .t2 = (shiftOut y k).setWidth 32
  t5 : c.get .t5 = BitVec.ofNat 32 (8 - k)
  a0 : c.get .a0 = c₀.get .a0
  a1 : c.get .a1 = c₀.get .a1

theorem Commands.foldl_commandBit (h : Commands c₀ y k c) (hk : k < 8) :
    Commands c₀ y (k + 1) (commandBit.foldl Cpu.exec c) := by
  have htop : c.get .t2 >>> 7 = (BitVec.ofBool (y.getMsbD k)).setWidth 32 := by
    have hbit : (shiftOut y k).msb = y.getMsbD k := by
      rw [BitVec.msb_eq_getLsbD_last]
      exact getLsbD_shiftOut_top y k hk
    rw [h.t2, setWidth_ushiftRight_top, hbit]
  obtain ⟨hbus, hdrive⟩ := foldl_driveBit 7 c h.t0 _ htop
  obtain ⟨hbus', hbyte, hcount, hshift⟩ :=
    foldl_shiftCommand _ (shiftOut y k) ((hdrive .t2 (by decide)).trans h.t2)
  have hkept : ∀ r, r ≠ .t2 → r ≠ .t4 → r ≠ .t5 →
      (commandBit.foldl Cpu.exec c).get r = c.get r := by
    intro r h₂ h₄ h₅
    unfold commandBit
    rw [List.foldl_append, hshift r h₂ h₅, hdrive r h₄]
  refine ⟨?_, ?_, ?_, ?_, ?_, ?_, ?_⟩
  · unfold commandBit
    rw [List.foldl_append, hbus', hbus, take_succ_msbFirst y k hk]
    exact h.bus.trans (SpiBus.sends_bit h.bus.manual _)
  · rw [hkept .t0 (by decide) (by decide) (by decide), h.t0]
  · rw [hkept .t1 (by decide) (by decide) (by decide), h.t1]
  · unfold commandBit
    rw [List.foldl_append, hbyte, shiftConcat_shiftOut]
  · unfold commandBit
    rw [List.foldl_append, hcount, hdrive .t5 (by decide), h.t5,
      show 8 - k = 8 - (k + 1) + 1 by omega, ofNat_pred]
  · rw [hkept .a0 (by decide) (by decide) (by decide), h.a0]
  · rw [hkept .a1 (by decide) (by decide) (by decide), h.a1]

/-- The loop at `L4`. -/
theorem Commands.reaches (h : Commands c₀ y 0 c) (hk : k ≤ 8) :
    ∃ c', Reaches flashioWorker { code := goto flashioWorker .L4, cpu := c }
        { code := if k = 8 then [.sb .t1 0#12 .t0].map .op ++ goto flashioWorker .L1
            else goto flashioWorker .L4
          cpu := c' } ∧ Commands c₀ y k c' := by
  induction k with
  | zero => exact ⟨c, Reaches.refl _, h⟩
  | succ k ih =>
    obtain ⟨c', hrun, hnext⟩ := ih (by omega)
    rw [if_neg (by omega), goto_L4] at hrun
    have hbit := hnext.foldl_commandBit (by omega)
    have hlast : BitVec.ofNat 32 (8 - (k + 1)) ≠ 0#32 ↔ k + 1 ≠ 8 := by
      rw [ofNat_ne_zero_iff (by omega)]
      omega
    have hbranch : Reaches flashioWorker { code := goto flashioWorker .L4, cpu := c }
        { code := if (commandBit.foldl Cpu.exec c').get .t5 ≠ 0#32 then goto flashioWorker .L4
            else [.sb .t1 0#12 .t0].map .op ++ goto flashioWorker .L1
          cpu := commandBit.foldl Cpu.exec c' } := by
      rw [goto_L4]
      exact hrun.trans ((reaches_label _).trans ((reaches_ops _).trans (reaches_bnez _ _)))
    rw [hbit.t5] at hbranch
    simp only [hlast] at hbranch
    refine ⟨_, ?_, hbit⟩
    by_cases hdone : k + 1 = 8
    · rw [if_neg (not_not_intro hdone)] at hbranch
      rw [if_pos hdone]
      exact hbranch
    · rw [if_pos hdone] at hbranch
      rw [if_neg hdone]
      exact hbranch

end Command

/-! ## From the call to the return -/

/-- The bits of the optional command. -/
def commandBits (c : Cpu (SpiBus flash)) : List Bool :=
  if c.get .a2 = 0#32 then [] else msbFirst ((c.get .a2).extractLsb' 0 8)

section Call

variable {x : Exchange flash} {c : Cpu (SpiBus flash)} {n : ℕ}

def setup : List Op :=
  [.li .t0 0x28000000#32, .li .t1 0x120#32, .sh .t1 0#12 .t0, .sb .zero 3#12 .t0]

theorem foldl_setup (c : Cpu (SpiBus flash)) :
    let c' := setup.foldl Cpu.exec c
    c'.bus = c.bus.takeOver ∧ c'.get .t0 = spiCtrl ∧ c'.get .t1 = 0x120#32 ∧
      ∀ r, r ≠ .t0 → r ≠ .t1 → c'.get r = c.get r := by
  have hhalf : ∀ (b : SpiBus flash) (v : BitVec 32),
      storeHalf b (0x28000000#32 + (0#12).signExtend 32) v =
        (b.writeCtrl 0 (v.extractLsb' 0 8)).writeCtrl 1 (v.extractLsb' 8 8) := by
    intro b v
    unfold storeHalf
    rw [show 0x28000000#32 = spiCtrl from rfl, storeByte_ctrl]
    exact SpiBus.write_ctrl 1 (by decide) _
  have hbyte : ∀ (b : SpiBus flash) (v : BitVec 32),
      storeByte b (0x28000000#32 + (3#12).signExtend 32) v = b.writeCtrl 3 (v.extractLsb' 0 8) :=
    fun b v ↦ SpiBus.write_ctrl 3 (by decide) _
  intro c'
  refine ⟨?_, ?_, ?_, fun r hr hr' ↦ ?_⟩
  · simp only [c', setup, List.foldl_cons, List.foldl_nil, Cpu.exec, Cpu.address, Cpu.get_set,
      Cpu.get_setBus, Cpu.bus_set, Cpu.bus_setBus, Cpu.get_zero, reduceCtorEq, false_and, and_self,
      ne_eq, not_false_eq_true, if_true, if_false, hhalf, hbyte]
    rfl
  · simp [c', setup, Cpu.exec, spiCtrl]
  · simp [c', setup, Cpu.exec]
  · simp [c', setup, Cpu.exec, hr, hr']

/-- The command loop leads to `L1` with the chip deselected. -/
theorem Commands.reaches_L1 {c₀ : Cpu (SpiBus flash)} {y : BitVec 8} (h : Commands c₀ y 0 c) :
    ∃ c', Reaches flashioWorker { code := goto flashioWorker .L4, cpu := c }
        { code := goto flashioWorker .L1, cpu := c' } ∧
      c₀.bus.Sends (msbFirst y) c'.bus ∧ c'.get .t0 = spiCtrl ∧ c'.get .a0 = c₀.get .a0 ∧
      c'.get .a1 = c₀.get .a1 := by
  obtain ⟨c', hrun, hlast⟩ := h.reaches (k := 8) (by decide)
  have hall : (msbFirst y).take 8 = msbFirst y := by
    rw [List.take_of_length_le]
    simp
  have hbus : c'.bus.deselect =
      storeByte c'.bus (spiCtrl + (0#12).signExtend 32) (c'.get .t1) := by
    rw [storeByte_ctrl, hlast.t1]
    rfl
  have hsends := hlast.bus.trans (SpiBus.sends_deselect hlast.bus.manual)
  rw [hall, List.append_nil, hbus, ← hlast.t0] at hsends
  rw [if_pos rfl] at hrun
  exact ⟨_, hrun.trans (reaches_ops _), hsends, hlast.t0, hlast.a0, hlast.a1⟩

/-- Up to `L1`, the pins are taken over and the command is sent. -/
theorem reaches_L1 (c : Cpu (SpiBus flash)) :
    ∃ c', Reaches flashioWorker { code := flashioWorker, cpu := c }
        { code := goto flashioWorker .L1, cpu := c' } ∧
      c.bus.Sends (commandBits c) c'.bus ∧ c'.get .t0 = spiCtrl ∧ c'.get .a0 = c.get .a0 ∧
      c'.get .a1 = c.get .a1 := by
  obtain ⟨hbus, ht0, ht1, hkept⟩ := foldl_setup c
  let c₁ := setup.foldl Cpu.exec c
  have hsends : c.bus.Sends [] c₁.bus := by
    rw [hbus]
    exact SpiBus.sends_takeOver
  have hstart : Reaches flashioWorker { code := flashioWorker, cpu := c }
      { code := if c₁.get .a2 = 0#32 then goto flashioWorker .L1
          else [.li .t5 8#32, .andi .t2 .a2 0xff#12].map .op ++ goto flashioWorker .L4
        cpu := c₁ } := by
    nth_rewrite 2 [flashioWorker_eq]
    exact (reaches_ops setup).trans (reaches_beqz _ _)
  have ha2 : c₁.get .a2 = c.get .a2 := hkept .a2 (by decide) (by decide)
  rw [ha2] at hstart
  unfold commandBits
  by_cases hnone : c.get .a2 = 0#32
  · rw [if_pos hnone] at hstart ⊢
    exact ⟨c₁, hstart, hsends, ht0, hkept .a0 (by decide) (by decide),
      hkept .a1 (by decide) (by decide)⟩
  · rw [if_neg hnone] at hstart ⊢
    have hfirst : Commands c ((c.get .a2).extractLsb' 0 8) 0
        ([.li .t5 8#32, .andi .t2 .a2 0xff#12].foldl Cpu.exec c₁) := by
      refine ⟨hsends, ?_, ?_, ?_, ?_, ?_, ?_⟩
      · simpa [Cpu.exec] using ht0
      · simpa [Cpu.exec] using ht1
      · rw [shiftOut_zero, ← and_byte, ← ha2]
        simp [Cpu.exec]
      · simp [Cpu.exec]
      · rw [← hkept .a0 (by decide) (by decide)]
        simp [Cpu.exec, c₁]
      · rw [← hkept .a1 (by decide) (by decide)]
        simp [Cpu.exec, c₁]
    obtain ⟨c₂, hloop, hcommand⟩ := hfirst.reaches_L1
    exact ⟨c₂, hstart.trans ((reaches_ops _).trans hloop), hcommand⟩

/-- Nothing is left to be transferred. -/
theorem reaches_return (c : Cpu (SpiBus flash)) (ht0 : c.get .t0 = spiCtrl) :
    ∃ c', Reaches flashioWorker { code := goto flashioWorker .L3, cpu := c }
        { code := [], cpu := c' } ∧ c'.bus.ram = c.bus.ram ∧ c'.bus.sent = c.bus.sent := by
  have hbyte : storeByte c.bus (spiCtrl + (3#12).signExtend 32) 0x80#32 = c.bus.handBack :=
    SpiBus.write_ctrl 3 (by decide) _
  have hbus : ([.li .t1 0x80#32, .sb .t1 3#12 .t0].foldl Cpu.exec c).bus = c.bus.handBack := by
    rw [← hbyte, ← ht0]
    simp [Cpu.exec, Cpu.address]
  obtain ⟨hram, hsent⟩ := SpiBus.handBack_ram_sent (b := c.bus)
  refine ⟨_, ?_, (congrArg SpiBus.ram hbus).trans hram, (congrArg SpiBus.sent hbus).trans hsent⟩
  rw [goto_L3]
  exact (reaches_label _).trans ((reaches_ops _).trans reaches_ret)

/-- The word begun is stored if `t5` is not zero, and the pins are handed back. -/
theorem reaches_return_of_leave {q : ℕ} (h : Holds x c) (ht5 : c.get .t5 = Exchange.bitsLeft q) :
    ∃ c', Reaches flashioWorker { code := leave, cpu := c } { code := [], cpu := c' } ∧
      c'.bus.ram = (x.finish q).ram ∧ c'.bus.sent = (x.finish q).sent := by
  have hbranch : Reaches flashioWorker { code := leave, cpu := c }
      { code := if c.get .t5 = 0#32 then goto flashioWorker .L3
          else [.sw .t2 0#12 .a0].map .op ++ goto flashioWorker .L3
        cpu := c } := reaches_beqz _ _
  rw [ht5] at hbranch
  unfold Exchange.finish
  by_cases hzero : Exchange.bitsLeft q = 0#32
  · rw [if_pos hzero] at hbranch ⊢
    obtain ⟨c', hreturn, hram, hsent⟩ := reaches_return c h.t0
    rw [h.bus] at hram hsent
    exact ⟨c', hbranch.trans hreturn, hram, hsent⟩
  · rw [if_neg hzero] at hbranch ⊢
    have hstore : ([.sw .t2 0#12 .a0].foldl Cpu.exec c).bus =
        storeWord x.bus x.pointer x.word := by
      rw [← h.bus, ← h.t2, ← h.a0]
      simp [Cpu.exec, Cpu.address]
    have ht0 : ([.sw .t2 0#12 .a0].foldl Cpu.exec c).get .t0 = spiCtrl := h.t0
    obtain ⟨c', hreturn, hram, hsent⟩ := reaches_return _ ht0
    rw [hstore] at hram hsent
    exact ⟨c', hbranch.trans ((reaches_ops _).trans hreturn), hram, hsent⟩

theorem reaches_of_L1 (c : Cpu (SpiBus flash)) :
    Reaches flashioWorker { code := goto flashioWorker .L1, cpu := c }
      { code := if c.get .a1 = 0#32 then goto flashioWorker .L3
          else [.li .t5 32#32, .lw .t2 0#12 .a0].map .op ++ goto flashioWorker .LY
        cpu := c } := by
  rw [goto_L1]
  exact (reaches_label _).trans (reaches_beqz _ _)

/-- With some bytes to be transferred the loops begin, the first word loaded. -/
theorem reaches_L2 (c : Cpu (SpiBus flash)) (ht0 : c.get .t0 = spiCtrl)
    (ha1 : c.get .a1 = BitVec.ofNat 32 n) (hbound : n < 2 ^ 32) (hpos : 0 < n) :
    ∃ c', Reaches flashioWorker { code := goto flashioWorker .L1, cpu := c }
        { code := goto flashioWorker .L2, cpu := c' } ∧
      Holds { bus := c.bus, word := loadWord c.bus (c.get .a0), pointer := c.get .a0 } c' ∧
      Counts n 0 c' := by
  have hbranch := reaches_of_L1 c
  rw [ha1, if_neg ((ofNat_ne_zero_iff hbound).2 hpos.ne'), goto_LY] at hbranch
  refine ⟨[.li .t6 8#32].foldl Cpu.exec ([.li .t5 32#32, .lw .t2 0#12 .a0].foldl Cpu.exec c),
    hbranch.trans ((reaches_ops _).trans ((reaches_label _).trans (reaches_ops _))), ?_, ?_⟩
  · refine ⟨rfl, ?_, ?_, ?_⟩
    · simpa [Cpu.exec] using ht0
    · simp [Cpu.exec, Cpu.address]
    · simp [Cpu.exec]
  · refine ⟨?_, ?_, ?_⟩
    · simp [Cpu.exec, Exchange.bitsLeft]
    · simp [Cpu.exec]
    · simpa [Cpu.exec] using ha1

/-- **A call of the flash worker** returns, having sent the command and, if there are any bytes,
carried out the transfer of their bits. -/
theorem reaches_end (c : Cpu (SpiBus flash)) (hn : (c.get .a1).toNat = n) :
    ∃ (b : SpiBus flash) (c' : Cpu (SpiBus flash)),
      c.bus.Sends (commandBits c) b ∧
      Reaches flashioWorker { code := flashioWorker, cpu := c } { code := [], cpu := c' } ∧
      (n = 0 → c'.bus.ram = b.ram ∧ c'.bus.sent = b.sent) ∧
      (0 < n →
        let x : Exchange flash :=
          { bus := b, word := loadWord b (c.get .a0), pointer := c.get .a0 }
        c'.bus.ram = ((x.after (8 * n)).finish (8 * n)).ram ∧
          c'.bus.sent = ((x.after (8 * n)).finish (8 * n)).sent) := by
  obtain ⟨c₁, hcommand, hsends, ht0, ha0, ha1⟩ := reaches_L1 c
  have hbound : n < 2 ^ 32 := hn ▸ (c.get .a1).isLt
  have hcount : c₁.get .a1 = BitVec.ofNat 32 n := by
    rw [ha1, ← hn, BitVec.ofNat_toNat, BitVec.setWidth_eq]
  by_cases hpos : n = 0
  · have hnone := reaches_of_L1 c₁
    rw [hcount, hpos, if_pos rfl] at hnone
    obtain ⟨c', hreturn, hram, hsent⟩ := reaches_return c₁ ht0
    exact ⟨c₁.bus, c', hsends, hcommand.trans (hnone.trans hreturn), fun _ ↦ ⟨hram, hsent⟩,
      fun hlt ↦ absurd hpos hlt.ne'⟩
  · have hlt := Nat.pos_of_ne_zero hpos
    obtain ⟨c₂, hloops, hholds, hcounts⟩ := reaches_L2 c₁ ht0 hcount hbound hlt
    obtain ⟨c₃, hbits, hholds', ht5⟩ := reaches_all_bits hbound hlt hholds hcounts
    obtain ⟨c', hreturn, hram, hsent⟩ := reaches_return_of_leave hholds' ht5
    rw [ha0] at hram hsent
    exact ⟨c₁.bus, c', hsends, hcommand.trans (hloops.trans (hbits.trans hreturn)),
      fun hzero ↦ absurd hzero hpos, fun _ ↦ ⟨hram, hsent⟩⟩

end Call

end CaravelSoc.Firmware
