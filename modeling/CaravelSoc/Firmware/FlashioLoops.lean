import CaravelSoc.Firmware.FlashioWorker

/-!
# The loops of the flash worker

Three counters run in the loops: `t6` for the bits of a byte, `a1` for the bytes
and `t5` for the bits of a word. `t5` is set to 32 once; where it passes zero, the
word in `t2` is stored and the next one loaded. Its value after any number of bits
is that number taken from 32, so that the loops are those of a transfer that is
told the number of the bit and nothing else.
-/

open Rv32 Sequential

namespace CaravelSoc.Firmware

/-- The bus, the word being shifted and the address it is for. -/
structure Exchange (flash : ℕ → BitVec 32) where
  bus : SpiBus flash
  word : BitVec 32
  pointer : BitVec 32

variable {flash : ℕ → BitVec 32}

namespace Exchange

/-- One bit goes out and one comes in. -/
def clock (x : Exchange flash) : Exchange flash :=
  let bus := (x.bus.lower x.word.msb).raise x.word.msb
  { x with bus := bus, word := x.word.shiftConcat ((flash bus.sent.length).getLsbD 1) }

/-- The word is stored and the next one loaded. -/
def reload (x : Exchange flash) : Exchange flash :=
  let bus := storeWord x.bus x.pointer x.word
  { bus := bus, word := loadWord bus (x.pointer + 4#32), pointer := x.pointer + 4#32 }

/-- `t5` after `q` bits. -/
def bitsLeft (q : ℕ) : BitVec 32 := 32#32 - BitVec.ofNat 32 q

/-- Bit number `q`. -/
def bit (x : Exchange flash) (q : ℕ) : Exchange flash :=
  if bitsLeft (q + 1) = 0#32 then x.clock.reload else x.clock

/-- The first bits. -/
def after (x : Exchange flash) : ℕ → Exchange flash
  | 0 => x
  | q + 1 => (x.after q).bit q

/-- What is left to be stored after `q` bits. -/
def finish (x : Exchange flash) (q : ℕ) : SpiBus flash :=
  if bitsLeft q = 0#32 then x.bus else storeWord x.bus x.pointer x.word

end Exchange

/-- The registers of the routine hold a transfer. -/
structure Holds (x : Exchange flash) (c : Cpu (SpiBus flash)) : Prop where
  bus : c.bus = x.bus
  t0 : c.get .t0 = spiCtrl
  t2 : c.get .t2 = x.word
  a0 : c.get .a0 = x.pointer

/-- The counters of the loops before bit `q` of `8 * n`. -/
structure Counts (n q : ℕ) (c : Cpu (SpiBus flash)) : Prop where
  t5 : c.get .t5 = Exchange.bitsLeft q
  t6 : c.get .t6 = BitVec.ofNat 32 (8 - q % 8)
  a1 : c.get .a1 = BitVec.ofNat 32 (n - q / 8)

/-! ## The code -/

def clockBit : List Op := driveBit 31 ++ (sampleBit ++ shiftBit)

def reloadWord : List Op := [.sw .t2 0#12 .a0, .addi .a0 .a0 4#12, .lw .t2 0#12 .a0]

theorem goto_L2 :
    goto flashioWorker .L2 =
      .label .L2 :: (clockBit.map .op ++
        .bnez .t5 .LX :: (reloadWord.map .op ++ goto flashioWorker .LX)) := rfl

theorem goto_LX :
    goto flashioWorker .LX =
      .label .LX :: ([.addi .t6 .t6 (-1)].map .op ++
        .bnez .t6 .L2 :: ([.addi .a1 .a1 (-1)].map .op ++
          .bnez .a1 .LY :: .beqz .t5 .L3 ::
            ([.sw .t2 0#12 .a0].map .op ++ goto flashioWorker .L3))) := rfl

theorem goto_LY :
    goto flashioWorker .LY =
      .label .LY :: ([.li .t6 8#32].map .op ++ goto flashioWorker .L2) := rfl

/-! ## One bit -/

section Bit

variable {x : Exchange flash} {c : Cpu (SpiBus flash)}

theorem foldl_clockBit (h : Holds x c) :
    let c' := clockBit.foldl Cpu.exec c
    Holds x.clock c' ∧ c'.get .t5 = c.get .t5 - 1#32 ∧ c'.get .t6 = c.get .t6 ∧
      c'.get .a1 = c.get .a1 := by
  intro c'
  have htop : c.get .t2 >>> 31 = (BitVec.ofBool x.word.msb).setWidth 32 := by
    rw [h.t2, ushiftRight_top]
  obtain ⟨hbus, hdrive⟩ := foldl_driveBit 31 c h.t0 x.word.msb htop
  have ht0 := (hdrive .t0 (by decide)).trans h.t0
  obtain ⟨hbus', hbit, hsample⟩ := foldl_sampleBit _ ht0
  obtain ⟨hbus'', hword, hcount, hshift⟩ := foldl_shiftBit _ _ hbit
  have hkept : ∀ r, r ≠ .t2 → r ≠ .t4 → r ≠ .t5 → c'.get r = c.get r := by
    intro r h₂ h₄ h₅
    calc
      c'.get r = _ := by
        unfold c' clockBit
        rw [List.foldl_append, List.foldl_append]
        exact hshift r h₂ h₅
      _ = _ := hsample r h₄
      _ = c.get r := hdrive r h₄
  have hlast : c' = shiftBit.foldl Cpu.exec
      (sampleBit.foldl Cpu.exec ((driveBit 31).foldl Cpu.exec c)) := by
    unfold c' clockBit
    rw [List.foldl_append, List.foldl_append]
  have hsent : c'.bus = (c.bus.lower x.word.msb).raise x.word.msb := by
    rw [hlast, hbus'', hbus', hbus]
  refine ⟨⟨?_, ?_, ?_, ?_⟩, ?_, ?_, ?_⟩
  · rw [hsent, h.bus]
    rfl
  · rw [hkept .t0 (by decide) (by decide) (by decide), h.t0]
  · rw [hlast, hword, hsample .t2 (by decide), hdrive .t2 (by decide), h.t2, hbus, h.bus]
    rfl
  · rw [hkept .a0 (by decide) (by decide) (by decide), h.a0]
    rfl
  · rw [hlast, hcount, hsample .t5 (by decide), hdrive .t5 (by decide)]
  · exact hkept .t6 (by decide) (by decide) (by decide)
  · exact hkept .a1 (by decide) (by decide) (by decide)

theorem foldl_reloadWord (h : Holds x c) :
    let c' := reloadWord.foldl Cpu.exec c
    Holds x.reload c' ∧ c'.get .t5 = c.get .t5 ∧ c'.get .t6 = c.get .t6 ∧
      c'.get .a1 = c.get .a1 := by
  intro c'
  refine ⟨⟨?_, ?_, ?_, ?_⟩, ?_, ?_, ?_⟩
  all_goals simp [c', reloadWord, Cpu.exec, Cpu.address, Exchange.reload, h.bus, h.t0, h.t2, h.a0]

end Bit

/-! ## The counters -/

namespace Exchange

theorem bitsLeft_succ (q : ℕ) : bitsLeft q - 1#32 = bitsLeft (q + 1) := by
  unfold bitsLeft
  rw [BitVec.ofNat_add]
  bv_omega

theorem bitsLeft_eq_zero_iff (q : ℕ) : bitsLeft q = 0#32 ↔ q % 2 ^ 32 = 32 := by
  unfold bitsLeft
  rw [← BitVec.toNat_inj, BitVec.toNat_sub, BitVec.toNat_ofNat, BitVec.toNat_ofNat,
    BitVec.toNat_zero]
  omega

end Exchange

theorem ofNat_pred (k : ℕ) : BitVec.ofNat 32 (k + 1) - 1#32 = BitVec.ofNat 32 k := by
  rw [BitVec.ofNat_add, BitVec.add_sub_cancel]

theorem ofNat_ne_zero_iff {k : ℕ} (h : k < 2 ^ 32) : BitVec.ofNat 32 k ≠ 0#32 ↔ k ≠ 0 := by
  rw [ne_eq, ← BitVec.toNat_inj, BitVec.toNat_ofNat, Nat.mod_eq_of_lt h, BitVec.toNat_zero]

section Loops

variable {x : Exchange flash} {c : Cpu (SpiBus flash)} {n q : ℕ}

/-- The registers of the transfer are not among those that count. -/
theorem Holds.set (h : Holds x c) (r : Reg) (v : BitVec 32) (h₀ : Reg.t0 ≠ r) (h₂ : Reg.t2 ≠ r)
    (ha : Reg.a0 ≠ r) : Holds x (c.set r v) where
  bus := h.bus
  t0 := by simp [h₀, h.t0]
  t2 := by simp [h₂, h.t2]
  a0 := by simp [ha, h.a0]

/-- Counting down one register. -/
theorem exec_addi_pred (r : Reg) :
    [.addi r r (-1)].foldl Cpu.exec c = c.set r (c.get r - 1#32) := by
  have hpred : (-1 : BitVec 12).signExtend 32 = -1#32 := by decide
  simp only [List.foldl_cons, List.foldl_nil, Cpu.exec, hpred, BitVec.sub_eq_add_neg]

/-- The bit itself: from `L2` to `LX`. -/
theorem reaches_LX (h : Holds x c) (hcount : c.get .t5 = Exchange.bitsLeft q) :
    ∃ c', Reaches flashioWorker { code := goto flashioWorker .L2, cpu := c }
        { code := goto flashioWorker .LX, cpu := c' } ∧
      Holds (x.bit q) c' ∧ c'.get .t5 = Exchange.bitsLeft (q + 1) ∧ c'.get .t6 = c.get .t6 ∧
      c'.get .a1 = c.get .a1 := by
  obtain ⟨hclock, ht5, ht6, ha1⟩ := foldl_clockBit h
  rw [hcount, Exchange.bitsLeft_succ] at ht5
  have hrun : Reaches flashioWorker { code := goto flashioWorker .L2, cpu := c }
      { code := if (clockBit.foldl Cpu.exec c).get .t5 ≠ 0#32 then goto flashioWorker .LX
          else reloadWord.map .op ++ goto flashioWorker .LX
        cpu := clockBit.foldl Cpu.exec c } := by
    rw [goto_L2]
    exact (reaches_label _).trans ((reaches_ops _).trans (reaches_bnez _ _))
  unfold Exchange.bit
  by_cases hzero : Exchange.bitsLeft (q + 1) = 0#32
  · rw [ht5, if_neg (not_not_intro hzero)] at hrun
    obtain ⟨hreload, ht5', ht6', ha1'⟩ := foldl_reloadWord hclock
    rw [if_pos hzero]
    exact ⟨_, hrun.trans (reaches_ops _), hreload, ht5'.trans ht5, ht6'.trans ht6,
      ha1'.trans ha1⟩
  · rw [ht5, if_pos hzero] at hrun
    rw [if_neg hzero]
    exact ⟨_, hrun, hclock, ht5, ht6, ha1⟩

/-- The code after the loops. -/
def leave : List (Line Label) :=
  .beqz .t5 .L3 :: ([.sw .t2 0#12 .a0].map .op ++ goto flashioWorker .L3)

/-- The code after a byte. -/
def byteDone : List (Line Label) := [.addi .a1 .a1 (-1)].map .op ++ .bnez .a1 .LY :: leave

/-- The bits of the byte are counted. -/
theorem reaches_of_LX (c : Cpu (SpiBus flash)) :
    Reaches flashioWorker { code := goto flashioWorker .LX, cpu := c }
      { code := if c.get .t6 - 1#32 ≠ 0#32 then goto flashioWorker .L2 else byteDone
        cpu := c.set .t6 (c.get .t6 - 1#32) } := by
  have hbranch : Reaches flashioWorker
      { code := .bnez .t6 .L2 :: byteDone, cpu := c.set .t6 (c.get .t6 - 1#32) }
      { code := if (c.set .t6 (c.get .t6 - 1#32)).get .t6 ≠ 0#32 then goto flashioWorker .L2
          else byteDone
        cpu := c.set .t6 (c.get .t6 - 1#32) } := reaches_bnez _ _
  have ht6 : (c.set .t6 (c.get .t6 - 1#32)).get .t6 = c.get .t6 - 1#32 := by simp
  rw [ht6] at hbranch
  rw [goto_LX]
  refine (reaches_label _).trans ((reaches_ops _).trans ?_)
  rw [exec_addi_pred]
  exact hbranch

/-- The bytes are counted; before another one, `t6` is set again. -/
theorem reaches_of_byteDone (c : Cpu (SpiBus flash)) :
    let c' := c.set .a1 (c.get .a1 - 1#32)
    (c.get .a1 - 1#32 ≠ 0#32 →
      Reaches flashioWorker { code := byteDone, cpu := c }
        { code := goto flashioWorker .L2, cpu := c'.set .t6 8#32 }) ∧
    (c.get .a1 - 1#32 = 0#32 →
      Reaches flashioWorker { code := byteDone, cpu := c } { code := leave, cpu := c' }) := by
  intro c'
  have ha1 : c'.get .a1 = c.get .a1 - 1#32 := by simp [c']
  have hbranch : Reaches flashioWorker { code := byteDone, cpu := c }
      { code := if c'.get .a1 ≠ 0#32 then goto flashioWorker .LY else leave, cpu := c' } := by
    refine (reaches_ops _).trans ?_
    rw [exec_addi_pred]
    exact reaches_bnez _ _
  rw [ha1] at hbranch
  constructor
  · intro hmore
    rw [if_pos hmore, goto_LY] at hbranch
    exact hbranch.trans ((reaches_label _).trans (reaches_ops _))
  · intro hlast
    rw [if_neg (not_not_intro hlast)] at hbranch
    exact hbranch

/-- The counters of the next bit, if there is one. -/
theorem reaches_next (hn : n < 2 ^ 32) (hq : q + 1 < 8 * n) (h : Holds x c)
    (ht5 : c.get .t5 = Exchange.bitsLeft (q + 1)) (ht6 : c.get .t6 = BitVec.ofNat 32 (8 - q % 8))
    (ha1 : c.get .a1 = BitVec.ofNat 32 (n - q / 8)) :
    ∃ c', Reaches flashioWorker { code := goto flashioWorker .LX, cpu := c }
        { code := goto flashioWorker .L2, cpu := c' } ∧ Holds x c' ∧ Counts n (q + 1) c' := by
  have hbyte := reaches_of_LX c
  have hdown : c.get .t6 - 1#32 = BitVec.ofNat 32 (7 - q % 8) := by
    rw [ht6, show 8 - q % 8 = 7 - q % 8 + 1 by omega, ofNat_pred]
  rw [hdown] at hbyte
  by_cases hmore : 7 - q % 8 = 0
  · -- the byte is complete, another one follows
    have hbytes : BitVec.ofNat 32 (n - q / 8) - 1#32 = BitVec.ofNat 32 (n - (q + 1) / 8) := by
      rw [show n - q / 8 = n - (q + 1) / 8 + 1 by omega, ofNat_pred]
    rw [if_neg fun hne ↦ (ofNat_ne_zero_iff (by omega)).1 hne hmore] at hbyte
    have hleft := (reaches_of_byteDone (c.set .t6 (BitVec.ofNat 32 (7 - q % 8)))).1
    rw [show (c.set .t6 (BitVec.ofNat 32 (7 - q % 8))).get .a1 = _ by simpa using ha1, hbytes]
      at hleft
    refine ⟨_, hbyte.trans (hleft ((ofNat_ne_zero_iff (by omega)).2 (by omega))), ?_, ?_⟩
    · exact ((h.set _ _ (by decide) (by decide) (by decide)).set _ _ (by decide) (by decide)
        (by decide)).set _ _ (by decide) (by decide) (by decide)
    · refine ⟨?_, ?_, ?_⟩
      · simp [ht5]
      · simp [show (q + 1) % 8 = 0 by omega]
      · simp
  · rw [if_pos ((ofNat_ne_zero_iff (by omega)).2 hmore)] at hbyte
    refine ⟨_, hbyte, h.set _ _ (by decide) (by decide) (by decide), ?_, ?_, ?_⟩
    · simp [ht5]
    · simp [show 8 - (q + 1) % 8 = 7 - q % 8 by omega]
    · simp [ha1, show (q + 1) / 8 = q / 8 by omega]

/-- The last bit leads out of the loops. -/
theorem reaches_leave (hq : q + 1 = 8 * n) (h : Holds x c)
    (ht5 : c.get .t5 = Exchange.bitsLeft (q + 1)) (ht6 : c.get .t6 = BitVec.ofNat 32 (8 - q % 8))
    (ha1 : c.get .a1 = BitVec.ofNat 32 (n - q / 8)) :
    ∃ c', Reaches flashioWorker { code := goto flashioWorker .LX, cpu := c }
        { code := leave, cpu := c' } ∧ Holds x c' ∧ c'.get .t5 = Exchange.bitsLeft (q + 1) := by
  have hbyte := reaches_of_LX c
  have ht6' : c.get .t6 - 1#32 = 0#32 := by
    rw [ht6, show 8 - q % 8 = 1 by omega]
    rfl
  have ha1' : c.get .a1 - 1#32 = 0#32 := by
    rw [ha1, show n - q / 8 = 1 by omega]
    rfl
  rw [ht6', if_neg (not_not_intro rfl)] at hbyte
  have hleft := (reaches_of_byteDone (c.set .t6 0#32)).2
  rw [show (c.set .t6 0#32).get .a1 = c.get .a1 by simp, ha1'] at hleft
  refine ⟨_, hbyte.trans (hleft rfl), ?_, ?_⟩
  · exact (h.set _ _ (by decide) (by decide) (by decide)).set _ _ (by decide) (by decide)
      (by decide)
  · simp [ht5]

/-- All bits but the last: the induction is over the bits, `Counts` says where the counters
stand before each. -/
theorem reaches_bits (hn : n < 2 ^ 32) (h : Holds x c) (hcounts : Counts n 0 c) (q : ℕ)
    (hq : q < 8 * n) :
    ∃ c', Reaches flashioWorker { code := goto flashioWorker .L2, cpu := c }
        { code := goto flashioWorker .L2, cpu := c' } ∧ Holds (x.after q) c' ∧ Counts n q c' := by
  induction q with
  | zero => exact ⟨c, Reaches.refl _, h, hcounts⟩
  | succ q ih =>
    obtain ⟨c₁, hrun, hholds, hcount⟩ := ih (by omega)
    obtain ⟨c₂, hbit, hholds', ht5, ht6, ha1⟩ := reaches_LX hholds hcount.t5
    obtain ⟨c₃, hnext, hholds'', hcount'⟩ := reaches_next hn hq hholds' ht5
      (ht6.trans hcount.t6) (ha1.trans hcount.a1)
    exact ⟨c₃, hrun.trans (hbit.trans hnext), hholds'', hcount'⟩

/-- All bits. -/
theorem reaches_all_bits (hn : n < 2 ^ 32) (hpos : 0 < n) (h : Holds x c)
    (hcounts : Counts n 0 c) :
    ∃ c', Reaches flashioWorker { code := goto flashioWorker .L2, cpu := c }
        { code := leave, cpu := c' } ∧ Holds (x.after (8 * n)) c' ∧
      c'.get .t5 = Exchange.bitsLeft (8 * n) := by
  obtain ⟨c₁, hrun, hholds, hcount⟩ := reaches_bits hn h hcounts (8 * n - 1) (by omega)
  obtain ⟨c₂, hbit, hholds', ht5, ht6, ha1⟩ := reaches_LX hholds hcount.t5
  obtain ⟨c₃, hleave, hholds'', ht5'⟩ := reaches_leave (by omega) hholds' ht5
    (ht6.trans hcount.t6) (ha1.trans hcount.a1)
  have hlast : 8 * n = 8 * n - 1 + 1 := by omega
  rw [hlast]
  exact ⟨c₃, hrun.trans (hbit.trans hleave), hholds'', ht5'⟩

end Loops

end CaravelSoc.Firmware
