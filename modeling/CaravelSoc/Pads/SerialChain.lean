import CaravelSoc.Pads.GpioControlBlock

/-!
# The two serial chains

The 38 control blocks as `caravel.v` wires them: pads 0 to 18 are fed upward
from `data_1`, pads 37 down to 19 from `data_2`. Clock, load and reset reach
every block.
-/

open Sequential.ShiftRegister (Chain msbFirst)

namespace CaravelSoc.Pads

/-- The control blocks by pad number. -/
abbrev Blocks := Fin 38 → GpioControlBlock

/-- `gpio_serial_link_1_shifted` for pads 0 to 18, `gpio_serial_link_2_shifted` above. -/
def serialDataIn (blocks : Blocks) (lines : SerialLines) (pad : Fin 38) : Bool :=
  if pad.val < 19 then
    if h : pad.val = 0 then lines.data1 else (blocks ⟨pad.val - 1, by omega⟩).serialDataOut
  else
    if h : pad.val = 37 then lines.data2 else (blocks ⟨pad.val + 1, by omega⟩).serialDataOut

/-- `GPIO_CONFIG_INIT` of `gpio_defaults_block_0` to `gpio_defaults_block_37`; from pad 5 on it is
`` `USER_CONFIG_GPIO_5_INIT `` and so on, all `` `GPIO_MODE_MGMT_STD_INPUT_NOPULL ``. -/
def gpioDefaults (pad : Fin 38) : BitVec padCtrlBits :=
  match pad with
  | 0 => 0x1803#13
  | 1 => 0x1803#13
  | 2 => 0x0403#13
  | 3 => 0x0801#13
  | 4 => 0x0403#13
  | _ => 0x0403#13

/-- All blocks follow one change of the serial lines. -/
def follow (old new : SerialLines) (blocks : Blocks) : Blocks := fun pad ↦
  (blocks pad).follow (gpioDefaults pad) old new (serialDataIn blocks new pad)

/-! ## The chains as shift registers -/

/-- Chain 1 from the data input on: position `i` is pad `i`. -/
def chain1 (blocks : Blocks) : Chain 19 padCtrlBits := fun i ↦
  (blocks ⟨i.val, by omega⟩).shiftRegister

/-- Chain 2 from the data input on: position `i` is pad `37 - i`. -/
def chain2 (blocks : Blocks) : Chain 19 padCtrlBits := fun i ↦
  (blocks ⟨37 - i.val, by omega⟩).shiftRegister

/-- Every output flop shows the top bit of its own shift register, as it does after the serial
clock has fallen. -/
def Settled (blocks : Blocks) : Prop :=
  ∀ pad, (blocks pad).serialDataOut = (blocks pad).shiftRegister.getLsbD 12

/-- The two chains together cover every pad. -/
theorem shiftRegister_eq_of_chains {blocks blocks' : Blocks} (h1 : chain1 blocks' = chain1 blocks)
    (h2 : chain2 blocks' = chain2 blocks) (pad : Fin 38) :
    (blocks' pad).shiftRegister = (blocks pad).shiftRegister := by
  by_cases hpad : pad.val < 19
  · exact congrFun h1 ⟨pad.val, hpad⟩
  · have hchain := congrFun h2 ⟨37 - pad.val, by omega⟩
    simpa only [chain2, show 37 - (37 - pad.val) = pad.val by omega] using hchain

/-- Once 19 words have been sent along each chain, every shift register holds its own: the last
word of a chain is nearest the data input. -/
theorem shiftRegister_of_words {blocks : Blocks} {chain chain' : Chain 19 padCtrlBits}
    {words1 words2 : List (BitVec padCtrlBits)} (hlen1 : words1.length = 19)
    (hlen2 : words2.length = 19)
    (h1 : chain1 blocks = (words1.flatMap msbFirst).foldl Chain.shift chain)
    (h2 : chain2 blocks = (words2.flatMap msbFirst).foldl Chain.shift chain') (pad : Fin 38) :
    (blocks pad).shiftRegister =
      if pad.val < 19 then words1.getD (18 - pad) 0#13 else words2.getD (pad - 19) 0#13 := by
  rw [Chain.foldl_shift_flatMap] at h1 h2
  by_cases hpad : pad.val < 19
  · have hindex : words1.length - 1 - pad.val = 18 - pad.val := by omega
    rw [if_pos hpad]
    calc
      (blocks pad).shiftRegister
      _ = words1.foldl Chain.push chain ⟨pad.val, hpad⟩ := congrFun h1 ⟨pad.val, hpad⟩
      _ = words1.getD (words1.length - 1 - pad.val) 0#13 := by
        rw [Chain.foldl_push _ _ _ (by simp only; omega), List.getD_eq_getElem]
      _ = words1.getD (18 - pad.val) 0#13 := by rw [hindex]
  · have hpos : 37 - (37 - pad.val) = pad.val := by omega
    have hindex : words2.length - 1 - (37 - pad.val) = pad.val - 19 := by omega
    rw [if_neg hpad]
    calc
      (blocks pad).shiftRegister
      _ = chain2 blocks ⟨37 - pad.val, by omega⟩ := by simp only [chain2, hpos]
      _ = words2.foldl Chain.push chain' ⟨37 - pad.val, by omega⟩ := by rw [h2]
      _ = words2.getD (words2.length - 1 - (37 - pad.val)) 0#13 := by
        rw [Chain.foldl_push _ _ _ (by simp only; omega), List.getD_eq_getElem]
      _ = words2.getD (pad.val - 19) 0#13 := by rw [hindex]

section Follow

variable {old new : SerialLines} {blocks : Blocks}

theorem follow_of_no_edge (hresetn : new.resetn = true) (hrise : old.clockRises new = false)
    (hfall : old.clockFalls new = false) (hload : old.loadRises new = false) :
    follow old new blocks = blocks := by
  funext pad
  simp [follow, GpioControlBlock.follow, hresetn, hrise, hfall, hload]

theorem follow_same (hresetn : new.resetn = true) : follow new new blocks = blocks :=
  follow_of_no_edge hresetn (by simp [SerialLines.clockRises]) (by simp [SerialLines.clockFalls])
    (by simp [SerialLines.loadRises])

theorem follow_config_of_no_load (hresetn : new.resetn = true)
    (hload : old.loadRises new = false) (pad : Fin 38) :
    (follow old new blocks pad).config = (blocks pad).config := by
  simp [follow, GpioControlBlock.follow, hresetn, hload]

theorem follow_config_of_load (hresetn : new.resetn = true) (hload : old.loadRises new = true)
    (pad : Fin 38) :
    (follow old new blocks pad).config = PadConfig.ofWord (blocks pad).shiftRegister := by
  simp [follow, GpioControlBlock.follow, hresetn, hload]

theorem follow_shiftRegister_of_no_rise (hresetn : new.resetn = true)
    (hrise : old.clockRises new = false) (pad : Fin 38) :
    (follow old new blocks pad).shiftRegister = (blocks pad).shiftRegister := by
  simp [follow, GpioControlBlock.follow, hresetn, hrise]

/-- The falling clock settles the output flops. -/
theorem follow_settled_of_fall (hresetn : new.resetn = true) (hfall : old.clockFalls new = true) :
    Settled (follow old new blocks) := by
  intro pad
  have hrise : old.clockRises new = false := by
    simp_all [SerialLines.clockRises, SerialLines.clockFalls]
  simp [follow, GpioControlBlock.follow, hresetn, hfall, hrise]

/-- Without a clock edge settled output flops stay settled. -/
theorem settled_of_no_edge (hresetn : new.resetn = true) (hrise : old.clockRises new = false)
    (hfall : old.clockFalls new = false) (hsettled : Settled blocks) :
    Settled (follow old new blocks) := by
  intro pad
  simpa [follow, GpioControlBlock.follow, hresetn, hfall, hrise] using hsettled pad

/-- A rising clock shifts settled chain 1 by the bit on `data_1`. -/
theorem chain1_follow_rise (hresetn : new.resetn = true) (hrise : old.clockRises new = true)
    (hsettled : Settled blocks) :
    chain1 (follow old new blocks) = (chain1 blocks).shift new.data1 := by
  funext i
  simp only [chain1, follow, GpioControlBlock.follow, hresetn, hrise, Chain.shift, serialDataIn,
    i.isLt, Bool.not_true, Bool.false_eq_true, if_false, if_true]
  congr 1
  split
  · rfl
  · exact (hsettled _).trans (BitVec.msb_eq_getLsbD_last _).symm

/-- A rising clock shifts settled chain 2 by the bit on `data_2`. -/
theorem chain2_follow_rise (hresetn : new.resetn = true) (hrise : old.clockRises new = true)
    (hsettled : Settled blocks) :
    chain2 (follow old new blocks) = (chain2 blocks).shift new.data2 := by
  funext i
  have hi := i.isLt
  simp only [chain2, follow, GpioControlBlock.follow, hresetn, hrise, Chain.shift, serialDataIn,
    Bool.not_true, Bool.false_eq_true, if_false, if_true, show ¬37 - i.val < 19 by omega]
  congr 1
  by_cases h : i.val = 0
  · simp [h]
  · have hpred : 37 - i.val + 1 = 37 - (i.val - 1) := by omega
    rw [dif_neg (by omega), dif_neg h]
    simp only [hpred]
    exact (hsettled _).trans (BitVec.msb_eq_getLsbD_last _).symm

end Follow

/-! ## Unsettled output flops -/

/-- What a block holds as far as its successor and a rising clock can tell: the output flop stands
for the top bit, which the clock shifts out. -/
def GpioControlBlock.presented (b : GpioControlBlock) : GpioControlBlock :=
  { b with shiftRegister := BitVec.cons b.serialDataOut (b.shiftRegister.setWidth 12) }

/-- The blocks with what they present. -/
def presented (blocks : Blocks) : Blocks := fun pad ↦ (blocks pad).presented

theorem settled_presented (blocks : Blocks) : Settled (presented blocks) := by
  intro pad
  simp only [presented, GpioControlBlock.presented, BitVec.getLsbD_cons, if_true]

theorem shiftConcat_presented (b : GpioControlBlock) (bit : Bool) :
    b.presented.shiftRegister.shiftConcat bit = b.shiftRegister.shiftConcat bit := by
  apply BitVec.eq_of_getLsbD_eq
  intro i hi
  rw [BitVec.getLsbD_shiftConcat, BitVec.getLsbD_shiftConcat]
  by_cases hzero : i = 0
  · simp [hzero]
  · have hlt : i - 1 < 12 := by
      have hi' : i < 13 := hi
      omega
    have hne : i - 1 ≠ 12 := by omega
    simp [hzero, GpioControlBlock.presented, BitVec.getLsbD_cons, hne, hlt]

/-- A rising clock takes the blocks and what they present to the same place. -/
theorem follow_presented {old new : SerialLines} (blocks : Blocks)
    (hrise : old.clockRises new = true) (hload : old.loadRises new = false) :
    follow old new (presented blocks) = follow old new blocks := by
  funext pad
  have hin : serialDataIn (presented blocks) new pad = serialDataIn blocks new pad := rfl
  have hfall : old.clockFalls new = false := by
    simp_all [SerialLines.clockRises, SerialLines.clockFalls]
  simp only [follow, hin, GpioControlBlock.follow, hrise, hfall, hload, presented, if_true,
    shiftConcat_presented]
  rfl

end CaravelSoc.Pads
