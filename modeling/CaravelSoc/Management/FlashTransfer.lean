import CaravelSoc.Management.FlashBus

/-!
# One word between the controller and the flash

The phy takes `2 * (d + 1)` clocks for a bit, `d` the clock divisor. A clock of a
transfer is counted by its bit and its place in that bit. The pins follow the
clock of the phy one clock later, the sampled level another one, so that with a
divisor of zero the last sample is taken after the last bit.
-/

open Sequential Sequential.ShiftRegister

namespace CaravelSoc.Management

open SpiFlash (Follows OneLine clockIn shown)

/-- The clock divisor. -/
def LiteSpiConfig.div (config : LiteSpiConfig) : ℕ := config.spiClkDivisor.toNat

/-- What is loaded for a word: its first bit on top. -/
def PhyWord.loaded (w : PhyWord) : BitVec 32 := w.data <<< (32#6 - w.len).toNat

/-- The bits on the line while a word is sent; with its mask off nobody drives the line. -/
structure PhyWord.Sends (w : PhyWord) (sent : List Bool) : Prop where
  length_le : sent.length ≤ w.len.toNat
  driven : w.mask.getLsbD 0 = true → sent = (msbFirst w.loaded).take sent.length

/-- What the controller samples while `sent` goes out. -/
def samples (memory : BitVec 24 → BitVec 8) (chip : SpiFlash) (base sent : List Bool) : List Bool :=
  (List.range sent.length).map fun m ↦ shown memory chip (base ++ sent.take m)

theorem samples_append (memory : BitVec 24 → BitVec 8) (chip : SpiFlash) (base sent : List Bool)
    (bit : Bool) :
    samples memory chip base (sent ++ [bit]) =
      samples memory chip base sent ++ [shown memory chip (base ++ sent)] := by
  rw [samples, samples, List.length_append, List.length_singleton, List.range_succ,
    List.map_append, List.map_singleton, List.take_left' rfl]
  congr 1
  apply List.map_congr_left
  intro m hm
  rw [List.take_append_of_le_length (List.mem_range.1 hm).le]

theorem length_samples (memory : BitVec 24 → BitVec 8) (chip : SpiFlash) (base sent : List Bool) :
    (samples memory chip base sent).length = sent.length := by
  simp [samples]

/-- The controller and the flash at place `i` of bit `j` of a word, with `sent` on the line so far.
The flash was selected in state `chip0` and took `base` before. -/
structure Shifting (config : LiteSpiConfig) (memory : BitVec 24 → BitVec 8) (chip0 : SpiFlash)
    (base : List Bool) (old : BitVec 32) (w : PhyWord) (j i : ℕ) (sent : List Bool)
    (core : LiteSpi) (chip : SpiFlash) : Prop where
  phyState : core.phyState = if j < w.len.toNat then .shift else .last
  cnt : core.cnt.toNat =
    if i ≤ config.div then i else i - (config.div + 1)
  clk : core.clk = decide (config.div < i)
  posedgeReg : core.posedgeReg = decide (i = config.div + 1)
  posedgeReg2 : core.posedgeReg2 = decide (i = config.div + 2 ∨
    config.div = 0 ∧ i = 0 ∧ 0 < j)
  flashClk : core.flashClk = decide (config.div + 2 ≤ i ∨ i = 0 ∧ 0 < j)
  srCnt : j < w.len.toNat → core.srCnt.toNat = w.len.toNat - 1 - j
  srOut : core.srOut = w.loaded <<< j
  srIn : core.srIn = (samples memory chip0 base
    (if core.posedgeReg2 then sent.dropLast else sent)).foldl BitVec.shiftConcat old
  dqI : core.posedgeReg2 = true → core.dqI.getLsbD 1 = shown memory chip0 (base ++ sent.dropLast)
  length : sent.length = j + if config.div + 2 ≤ i then 1 else 0
  sends : w.Sends sent
  chipClk : chip.clk = core.flashClk
  follows : Follows memory chip0 (base ++ sent) chip

section Step

variable {config : LiteSpiConfig} {memory : BitVec 24 → BitVec 8} {chip0 : SpiFlash}
  {base : List Bool} {old : BitVec 32} {w : PhyWord} {j i : ℕ} {sent : List Bool}
  {core : LiteSpi} {chip : SpiFlash} {x : LiteSpiInputs}

theorem beq_div (n : BitVec 8) : (n == config.spiClkDivisor) = decide (n.toNat = config.div) := by
  rw [Bool.eq_iff_iff, beq_iff_eq, decide_eq_true_iff, ← BitVec.toNat_inj]
  rfl

/-- The phy between two words: its clock and what follows the clock are low. -/
structure Quiet (core : LiteSpi) : Prop where
  cnt : core.cnt = 0#8
  clk : core.clk = false
  posedgeReg : core.posedgeReg = false
  posedgeReg2 : core.posedgeReg2 = false
  flashClk : core.flashClk = false

theorem Quiet.step (h : Quiet core) (hidle : core.phyState ≠ .shift) :
    Quiet (core.clockEdge config x) := by
  refine ⟨?_, ?_, ?_, h.posedgeReg, h.clk⟩
  · simp [LiteSpi.clockEdge, hidle]
  · simp [LiteSpi.clockEdge, hidle]
  · change core.posedge config = _
    rw [LiteSpi.posedge, beq_eq_false_iff_ne.2 hidle]
    rfl

namespace Shifting

theorem posedge_eq (h : Shifting config memory chip0 base old w j i sent core chip)
    (hj : j < w.len.toNat) : core.posedge config = decide (i = config.div) := by
  rw [LiteSpi.posedge, h.phyState, if_pos hj, h.clk, beq_div, h.cnt, Bool.eq_iff_iff]
  simp only [beq_self_eq_true, Bool.true_and, Bool.and_eq_true, Bool.not_eq_true',
    decide_eq_false_iff_not, decide_eq_true_iff]
  split <;> omega

theorem negedge_eq (h : Shifting config memory chip0 base old w j i sent core chip)
    (hj : j < w.len.toNat) : core.negedge config = decide (i = 2 * config.div + 1) := by
  rw [LiteSpi.negedge, h.phyState, if_pos hj, h.clk, beq_div, h.cnt, Bool.eq_iff_iff]
  simp only [beq_self_eq_true, Bool.true_and, Bool.and_eq_true, decide_eq_true_iff]
  split <;> omega

theorem cnt_lt_iff (h : Shifting config memory chip0 base old w j i sent core chip)
    (hi : i ≤ 2 * config.div + 1) :
    core.cnt < config.spiClkDivisor ↔ i ≠ config.div ∧ i ≠ 2 * config.div + 1 := by
  rw [BitVec.lt_def, h.cnt, ← LiteSpiConfig.div]
  split <;> omega

/-- The clock of the phy and its counter. -/
theorem clock_step (h : Shifting config memory chip0 base old w j i sent core chip)
    (hj : j < w.len.toNat) (hi : i ≤ 2 * config.div + 1) :
    (core.clockEdge config x).clk =
        decide (config.div < if i = 2 * config.div + 1 then 0 else i + 1) ∧
      (core.clockEdge config x).cnt.toNat =
        if i = 2 * config.div + 1 ∨ i = config.div then 0
        else if i < config.div then i + 1 else i - config.div := by
  have hshift : core.phyState = .shift := by rw [h.phyState, if_pos hj]
  have hlt := h.cnt_lt_iff hi
  have hcnt := h.cnt
  have hbound := config.spiClkDivisor.isLt
  change config.div < 2 ^ 8 at hbound
  by_cases hturn : i = config.div ∨ i = 2 * config.div + 1
  · have hstop : ¬core.cnt < config.spiClkDivisor := by
      rw [hlt]
      omega
    simp only [LiteSpi.clockEdge, hshift, if_true, hstop, if_false, h.clk]
    rw [if_pos hturn.symm, ← decide_not, decide_eq_decide]
    refine ⟨?_, rfl⟩
    split <;> omega
  · have hgo : core.cnt < config.spiClkDivisor := by
      rw [hlt]
      omega
    simp only [LiteSpi.clockEdge, hshift, if_true, hgo, h.clk]
    rw [if_neg (fun hend ↦ hturn (.inr hend)), if_neg (fun hor ↦ hturn hor.symm), BitVec.toNat_add,
      hcnt, decide_eq_decide]
    refine ⟨by omega, ?_⟩
    change (_ + 1) % 2 ^ 8 = _
    split <;> split <;> omega

/-- The bits on the line after a clock. -/
theorem line_step (h : Shifting config memory chip0 base old w j i sent core chip) (floating : Bool)
    (hw : core.txMux config x = w) (hwidth : w.width = 1#4) (hlen : w.len.toNat ≤ 32)
    (hj : j < w.len.toNat) (hdone : (core.clockEdge config x).count = 0#4)
    (hline : OneLine ((base ++ sent).foldl (clockIn memory) chip0)) :
    ∃ sent', w.Sends sent' ∧
      (i = config.div + 1 → ∃ bit, sent' = sent ++ [bit]) ∧ (i ≠ config.div + 1 → sent' = sent) ∧
      Follows memory chip0 (base ++ sent')
        (chip.step memory (FlashBus.pins (core.clockEdge config x) floating)) := by
  have hfollows := h.follows.step hline
    (show (FlashBus.pins (core.clockEdge config x) floating).csb = false by
      simp [FlashBus.pins, LiteSpi.flashCsN, LiteSpi.phyDone, hdone])
  have hrise : (!chip.clk && (FlashBus.pins (core.clockEdge config x) floating).clk) =
      decide (i = config.div + 1) := by
    change (!chip.clk && core.clk) = _
    rw [h.chipClk, h.flashClk, h.clk, ← decide_not, ← Bool.decide_and, decide_eq_decide]
    omega
  rw [hrise] at hfollows
  by_cases hplace : i = config.div + 1
  · rw [decide_eq_true hplace, if_pos rfl, List.append_assoc] at hfollows
    refine ⟨_, ⟨?_, ?_⟩, fun _ ↦ ⟨_, rfl⟩, fun hnot ↦ absurd hplace hnot, hfollows⟩
    · have hlength := h.length
      rw [if_neg (by omega)] at hlength
      rw [List.length_append, List.length_singleton]
      omega
    · intro hmask
      have hlength := h.length
      rw [if_neg (by omega), Nat.add_zero] at hlength
      have hdriven := h.sends.driven hmask
      have hdo : (core.clockEdge config x).flashIo0Do = w.loaded.getMsbD j := by
        change core.dqO config x = _
        rw [LiteSpi.dqO, hw, hwidth, h.srOut, BitVec.getMsbD_eq_getLsbD,
          BitVec.getLsbD_shiftLeft, decide_eq_true (show j < 32 by omega),
          decide_eq_false (show ¬31 < j by omega)]
        rfl
      have hoeb : (core.clockEdge config x).flashIo0Oeb = false := by
        change (!(core.txMux config x).mask.getLsbD 0) = false
        rw [hw, hmask]
        rfl
      rw [List.length_append, List.length_singleton, take_succ_msbFirst _ _ (by omega), ← hdriven]
      congr 2
      change (if (core.clockEdge config x).flashIo0Oeb then floating else
        (core.clockEdge config x).flashIo0Do) = _
      rw [hoeb, hdo, hlength]
      rfl
  · rw [decide_eq_false hplace] at hfollows
    exact ⟨sent, h.sends, fun hyes ↦ absurd hyes hplace, fun _ ↦ rfl, hfollows⟩

/-- What has been sampled after a clock. -/
theorem sample_step (h : Shifting config memory chip0 base old w j i sent core chip)
    (hw : core.txMux config x = w) (hwidth : w.width = 1#4) (hj : j < w.len.toNat)
    (hdi : x.flashIo1Di = chip.io1) {sent' : List Bool}
    (hgrow : i = config.div + 1 → ∃ bit, sent' = sent ++ [bit])
    (hsame : i ≠ config.div + 1 → sent' = sent) :
    (core.clockEdge config x).srIn =
        (samples memory chip0 base (if core.posedgeReg then sent'.dropLast else sent')).foldl
          BitVec.shiftConcat old ∧
      (core.posedgeReg = true →
        (core.clockEdge config x).dqI.getLsbD 1 = shown memory chip0 (base ++ sent'.dropLast)) := by
  have hshift : core.phyState = .shift := by rw [h.phyState, if_pos hj]
  have hreg := h.posedgeReg
  have hsent : (if core.posedgeReg then sent'.dropLast else sent') = sent := by
    by_cases hplace : i = config.div + 1
    · obtain ⟨bit, rfl⟩ := hgrow hplace
      rw [hreg, decide_eq_true hplace, if_pos rfl, List.dropLast_concat]
    · rw [hreg, decide_eq_false hplace, hsame hplace]
      rfl
  constructor
  · rw [hsent]
    change (if core.srInShift config then core.shiftIn config x else core.srIn) = _
    rw [LiteSpi.srInShift, hshift, LiteSpi.shiftIn, hw, hwidth, if_pos rfl, h.srIn]
    cases hreg2 : core.posedgeReg2 with
    | false => rfl
    | true =>
      have hlength := h.length
      have hplace := h.posedgeReg2
      rw [hreg2, eq_comm, decide_eq_true_iff] at hplace
      have hne : sent ≠ [] := by
        rintro rfl
        rw [List.length_nil] at hlength
        split at hlength <;> omega
      rw [if_pos rfl, if_pos rfl, h.dqI hreg2]
      conv_rhs => rw [← List.dropLast_append_getLast hne, samples_append, List.foldl_append]
      rfl
  · intro hplace
    have hlow : chip.clk = false := by
      rw [h.chipClk, h.flashClk]
      rw [hreg, decide_eq_true_iff] at hplace
      exact decide_eq_false (by omega)
    rw [hplace, if_pos rfl] at hsent
    rw [hsent, ← h.follows.low hlow, ← hdi]
    change (BitVec.ofBool x.flashIo1Di ++ BitVec.ofBool (core.dqI.getLsbD 0)).getLsbD 1 = _
    rw [BitVec.getLsbD_append, if_neg (by decide)]
    cases x.flashIo1Di <;> rfl

/-- **One clock of a transfer.** -/
theorem step (h : Shifting config memory chip0 base old w j i sent core chip) (floating : Bool)
    (hw : core.txMux config x = w) (hwidth : w.width = 1#4) (hlen : w.len.toNat ≤ 32)
    (hj : j < w.len.toNat) (hi : i ≤ 2 * config.div + 1) (hdi : x.flashIo1Di = chip.io1)
    (hdone : (core.clockEdge config x).count = 0#4)
    (hline : OneLine ((base ++ sent).foldl (clockIn memory) chip0)) :
    ∃ sent', Shifting config memory chip0 base old w
      (if i = 2 * config.div + 1 then j + 1 else j) (if i = 2 * config.div + 1 then 0 else i + 1)
      sent' (core.clockEdge config x)
      (chip.step memory (FlashBus.pins (core.clockEdge config x) floating)) := by
  have hshift : core.phyState = .shift := by rw [h.phyState, if_pos hj]
  have hload : core.load config x = false := by simp [LiteSpi.load, hshift]
  have hneg := h.negedge_eq hj
  have hsrCnt := h.srCnt hj
  obtain ⟨hclk, hcnt⟩ := h.clock_step (x := x) hj hi
  obtain ⟨sent', hsends, hgrow, hsame, hfollows⟩ :=
    h.line_step floating hw hwidth hlen hj hdone hline
  obtain ⟨hsrIn, hdqI⟩ := h.sample_step hw hwidth hj hdi hgrow hsame
  have hlength : sent'.length = sent.length + if i = config.div + 1 then 1 else 0 := by
    by_cases hplace : i = config.div + 1
    · obtain ⟨bit, rfl⟩ := hgrow hplace
      rw [List.length_append, if_pos hplace, List.length_singleton]
    · rw [hsame hplace, if_neg hplace, Nat.add_zero]
  refine ⟨sent', ?_⟩
  constructor
  · change core.phyNext config x = _
    rw [LiteSpi.phyNext, hshift, hneg]
    have hzero : (core.srCnt == 0#8) = decide (w.len.toNat - 1 - j = 0) := by
      rw [← hsrCnt, Bool.eq_iff_iff, beq_iff_eq, decide_eq_true_iff, ← BitVec.toNat_inj]
      rfl
    rw [hzero, ← Bool.decide_and]
    by_cases hend : i = 2 * config.div + 1
    · by_cases hlast : w.len.toNat - 1 - j = 0
      · rw [decide_eq_true ⟨hend, hlast⟩, if_pos rfl, if_pos hend,
          if_neg (show ¬j + 1 < w.len.toNat by omega)]
      · rw [decide_eq_false fun hboth ↦ hlast hboth.2, if_pos hend,
          if_pos (show j + 1 < w.len.toNat by omega)]
        rfl
    · rw [decide_eq_false fun hboth ↦ hend hboth.1, if_neg hend, if_pos hj]
      rfl
  · rw [hcnt]
    by_cases hend : i = 2 * config.div + 1
    · rw [if_pos (.inl hend), if_pos hend, if_pos (Nat.zero_le _)]
    · rw [if_neg hend]
      split <;> split <;> (try split) <;> omega
  · exact hclk
  · change core.posedge config = _
    rw [h.posedge_eq hj, decide_eq_decide]
    split <;> omega
  · change core.posedgeReg = _
    rw [h.posedgeReg, decide_eq_decide]
    split <;> omega
  · change core.clk = _
    rw [h.clk, decide_eq_decide]
    split <;> omega
  · intro hmore
    change (if core.load config x then _ else if core.negedge config then
      core.srCnt - (core.txMux config x).width.setWidth 8 else core.srCnt : BitVec 8).toNat = _
    rw [hload, hneg, hw, hwidth]
    by_cases hend : i = 2 * config.div + 1
    · rw [if_pos hend] at hmore
      rw [decide_eq_true hend, if_pos hend]
      change (core.srCnt - 1#8).toNat = _
      rw [BitVec.toNat_sub_of_le (by rw [BitVec.le_def, hsrCnt]; change 1 ≤ _; omega), hsrCnt]
      change _ - 1 = _
      omega
    · rw [decide_eq_false hend, if_neg hend]
      exact hsrCnt
  · change (if core.load config x then _ else if core.negedge config then core.shiftOut config x
      else core.srOut) = _
    rw [hload, hneg, LiteSpi.shiftOut, hw, hwidth, if_pos rfl, h.srOut]
    by_cases hend : i = 2 * config.div + 1
    · rw [decide_eq_true hend, if_pos hend, BitVec.shiftLeft_add]
      rfl
    · rw [decide_eq_false hend, if_neg hend]
      rfl
  · exact hsrIn
  · exact hdqI
  · rw [hlength, h.length]
    by_cases hend : i = 2 * config.div + 1
    · rw [if_pos hend, if_pos hend]
      split <;> split <;> split <;> omega
    · rw [if_neg hend, if_neg hend]
      split <;> split <;> split <;> omega
  · exact hsends
  · exact congrArg Prod.snd (SpiFlash.levels_step _ _ _)
  · exact hfollows

/-- The last bit is on the line, and the phy answers a clock later. -/
theorem answer_step (h : Shifting config memory chip0 base old w w.len.toNat 0 sent core chip)
    (floating : Bool) (hw : core.txMux config x = w) (hwidth : w.width = 1#4)
    (hpos : 0 < w.len.toNat) (hdone : (core.clockEdge config x).count = 0#4)
    (hline : OneLine ((base ++ sent).foldl (clockIn memory) chip0)) :
    (core.clockEdge config x).phyState = .reply ∧ Quiet (core.clockEdge config x) ∧
      (core.clockEdge config x).srIn =
        (samples memory chip0 base sent).foldl BitVec.shiftConcat old ∧
      Follows memory chip0 (base ++ sent)
        (chip.step memory (FlashBus.pins (core.clockEdge config x) floating)) := by
  have hlast : core.phyState = .last := by rw [h.phyState, if_neg (lt_irrefl _)]
  have hclk : core.clk = false := by rw [h.clk, decide_eq_false (Nat.not_lt_zero _)]
  have hreg2 : core.posedgeReg2 = decide (config.div = 0) := by
    rw [h.posedgeReg2, decide_eq_decide]
    omega
  have hzero : (0#8 < config.spiClkDivisor) ↔ config.div ≠ 0 := Nat.pos_iff_ne_zero
  have hsampled : core.lastSampled config = true := by
    rw [LiteSpi.lastSampled, hreg2, Bool.or_eq_true, decide_eq_true_iff, decide_eq_true_iff, hzero]
    exact (eq_or_ne _ _).symm
  refine ⟨?_, ⟨?_, ?_, ?_, ?_, hclk⟩, ?_, ?_⟩
  · change core.phyNext config x = _
    rw [LiteSpi.phyNext, hlast]
    exact if_pos hsampled
  · simp [LiteSpi.clockEdge, hlast]
  · simp [LiteSpi.clockEdge, hlast]
  · change core.posedge config = _
    rw [LiteSpi.posedge, hlast]
    rfl
  · change core.posedgeReg = _
    rw [h.posedgeReg, decide_eq_false (by omega)]
  · change (if core.srInShift config then core.shiftIn config x else core.srIn) = _
    rw [LiteSpi.srInShift, hlast, LiteSpi.shiftIn, hw, hwidth, if_pos rfl, h.srIn]
    change (if (core.lastSampled config && config.spiClkDivisor == 0#8) = true then _ else _) = _
    rw [hsampled, Bool.true_and]
    by_cases hdiv : config.div = 0
    · have hbeq : (config.spiClkDivisor == 0#8) = true := by
        rw [beq_iff_eq, ← BitVec.toNat_inj]
        exact hdiv
      rw [decide_eq_true hdiv] at hreg2
      have hne : sent ≠ [] := by
        rintro rfl
        have hlength := h.length
        rw [List.length_nil] at hlength
        omega
      rw [hbeq, if_pos rfl, if_pos hreg2, h.dqI hreg2]
      conv_rhs => rw [← List.dropLast_append_getLast hne, samples_append, List.foldl_append]
      rfl
    · have hbeq : (config.spiClkDivisor == 0#8) = false := by
        rw [beq_eq_false_iff_ne, Ne, ← BitVec.toNat_inj]
        exact hdiv
      rw [hbeq, if_neg (by decide), hreg2, if_neg (by simpa using hdiv)]
  · have hopen : (FlashBus.pins (core.clockEdge config x) floating).csb = false := by
      simp [FlashBus.pins, LiteSpi.flashCsN, LiteSpi.phyDone, hdone]
    have hfollows := h.follows.step hline hopen
    change Follows memory chip0 (if !chip.clk && core.clk then _ else base ++ sent) _ at hfollows
    rwa [hclk, Bool.and_false, if_neg (by decide)] at hfollows

end Shifting

/-! ## From the load to the answer -/

/-- A word that a port offers for one line. -/
structure PhyWord.OnOneLine (w : PhyWord) : Prop where
  valid : w.valid = true
  width : w.width = 1#4
  len_pos : 0 < w.len.toNat
  len_le : w.len.toNat ≤ 32

/-- The clocks of a bit. -/
def LiteSpiConfig.bitClocks (config : LiteSpiConfig) : ℕ := 2 * config.div + 2

/-- Between two words the flash takes nothing. -/
theorem Quiet.follows_step (h : Quiet core) (floating : Bool)
    (hfollows : Follows memory chip0 base chip)
    (hdone : (core.clockEdge config x).count = 0#4)
    (hline : OneLine (base.foldl (clockIn memory) chip0)) :
    Follows memory chip0 base
      (chip.step memory (FlashBus.pins (core.clockEdge config x) floating)) := by
  have hopen : (FlashBus.pins (core.clockEdge config x) floating).csb = false := by
    simp [FlashBus.pins, LiteSpi.flashCsN, LiteSpi.phyDone, hdone]
  have hpins := hfollows.step hline hopen
  change Follows memory chip0 (if !chip.clk && core.clk then _ else base) _ at hpins
  rwa [h.clk, Bool.and_false, if_neg (by decide)] at hpins

theorem Quiet.load_step (h : Quiet core) (floating : Bool) (hidle : core.phyState = .idle)
    (hfollows : Follows memory chip0 base chip)
    (hw : core.txMux config x = w) (hone : w.OnOneLine) (hcount : core.count = 0#4)
    (hdone : (core.clockEdge config x).count = 0#4)
    (hline : OneLine (base.foldl (clockIn memory) chip0)) :
    Shifting config memory chip0 base core.srIn w 0 0 [] (core.clockEdge config x)
      (chip.step memory (FlashBus.pins (core.clockEdge config x) floating)) := by
  have hload : core.load config x = true := by
    rw [LiteSpi.load, hidle, hw, hone.valid, LiteSpi.phyDone, hcount]
    rfl
  have hquiet : Quiet (core.clockEdge config x) := h.step (by rw [hidle]; decide)
  have hpins := h.follows_step floating hfollows hdone hline
  have hpos := hone.len_pos
  constructor
  · rw [if_pos hpos]
    change core.phyNext config x = _
    rw [LiteSpi.phyNext, hidle]
    exact if_pos hload
  · rw [hquiet.cnt]
    rfl
  · rw [hquiet.clk, decide_eq_false (Nat.not_lt_zero _)]
  · rw [hquiet.posedgeReg, decide_eq_false (by omega)]
  · rw [hquiet.posedgeReg2, decide_eq_false (by omega)]
  · rw [hquiet.flashClk, decide_eq_false (by omega)]
  · intro _
    change (if core.load config x then
      (core.txMux config x).len.setWidth 8 - (core.txMux config x).width.setWidth 8
      else _ : BitVec 8).toNat = _
    rw [hload, if_pos rfl, hw, hone.width]
    change (w.len.setWidth 8 - 1#8).toNat = _
    have hwide : (w.len.setWidth 8).toNat = w.len.toNat := by
      rw [BitVec.toNat_setWidth]
      omega
    rw [BitVec.toNat_sub_of_le (by rw [BitVec.le_def, hwide]; exact hpos), hwide]
    rfl
  · change (if core.load config x then
      (core.txMux config x).data <<< (32#6 - (core.txMux config x).len).toNat else _) = _
    rw [hload, if_pos rfl, hw, BitVec.shiftLeft_zero]
    rfl
  · rw [hquiet.posedgeReg2, if_neg (by decide)]
    change (if core.srInShift config then _ else core.srIn) = core.srIn
    rw [LiteSpi.srInShift, hidle]
    rfl
  · intro hreg2
    rw [hquiet.posedgeReg2] at hreg2
    cases hreg2
  · rw [if_neg (by omega)]
    rfl
  · exact ⟨Nat.zero_le _, fun _ ↦ rfl⟩
  · exact congrArg Prod.snd (SpiFlash.levels_step _ _ _)
  · rwa [List.append_nil]

/-- A word between the controller and the flash, its answer `m` clocks away: it waits to be loaded,
it is on the line, or the answer is there. -/
inductive Leg (config : LiteSpiConfig) (memory : BitVec 24 → BitVec 8) (chip0 : SpiFlash)
    (base : List Bool) (w : PhyWord) : ℕ → LiteSpi → SpiFlash → Prop
  | load {core : LiteSpi} {chip : SpiFlash} (idle : core.phyState = .idle) (quiet : Quiet core)
      (follows : Follows memory chip0 base chip) :
      Leg config memory chip0 base w (w.len.toNat * config.bitClocks + 2) core chip
  | shift {old : BitVec 32} {j i : ℕ} {sent : List Bool} {core : LiteSpi} {chip : SpiFlash}
      (shifting : Shifting config memory chip0 base old w j i sent core chip)
      (place : j < w.len.toNat ∧ i < config.bitClocks) :
      Leg config memory chip0 base w ((w.len.toNat - j) * config.bitClocks - i + 1) core chip
  | last {old : BitVec 32} {sent : List Bool} {core : LiteSpi} {chip : SpiFlash}
      (shifting : Shifting config memory chip0 base old w w.len.toNat 0 sent core chip) :
      Leg config memory chip0 base w 1 core chip
  | reply {old : BitVec 32} {sent : List Bool} {core : LiteSpi} {chip : SpiFlash}
      (answered : core.phyState = .reply) (quiet : Quiet core) (sends : w.Sends sent)
      (length : sent.length = w.len.toNat)
      (srIn : core.srIn = (samples memory chip0 base sent).foldl BitVec.shiftConcat old)
      (follows : Follows memory chip0 (base ++ sent) chip) :
      Leg config memory chip0 base w 0 core chip

namespace Leg

variable {m : ℕ}

theorem one_lt_of_shift (hplace : j < w.len.toNat ∧ i < config.bitClocks) :
    1 < (w.len.toNat - j) * config.bitClocks - i + 1 := by
  have hbit : config.bitClocks ≤ (w.len.toNat - j) * config.bitClocks :=
    Nat.le_mul_of_pos_left _ (by omega)
  omega

/-- The phy takes the word one clock before it answers. -/
theorem sinkReady_eq (h : Leg config memory chip0 base w m core chip) (hpos : 0 < w.len.toNat) :
    core.sinkReady config = decide (m = 1) := by
  rw [LiteSpi.sinkReady]
  cases h with
  | load hidle =>
    rw [hidle, decide_eq_false (by omega)]
    rfl
  | shift h hplace =>
    rw [h.phyState, if_pos hplace.1, decide_eq_false (one_lt_of_shift hplace).ne']
    rfl
  | last h =>
    have hreg2 := h.posedgeReg2
    rw [h.phyState, if_neg (lt_irrefl _), decide_eq_true rfl, LiteSpi.lastSampled, hreg2]
    simp only [beq_self_eq_true, Bool.true_and, Bool.or_eq_true, decide_eq_true_iff, true_and]
    rcases Nat.eq_zero_or_pos config.div with hdiv | hdiv
    · exact .inr (.inr ⟨hdiv, hpos⟩)
    · exact .inl hdiv
  | reply hreply =>
    rw [hreply]
    rfl

theorem sourceValid_eq (h : Leg config memory chip0 base w m core chip) :
    core.sourceValid = decide (m = 0) := by
  rw [LiteSpi.sourceValid]
  cases h with
  | load hidle =>
    rw [hidle]
    rfl
  | shift h hplace =>
    rw [h.phyState, if_pos hplace.1]
    rfl
  | last h =>
    rw [h.phyState, if_neg (lt_irrefl _)]
    rfl
  | reply hreply =>
    rw [hreply]
    rfl

/-- **One clock of a word.** -/
theorem step (h : Leg config memory chip0 base w (m + 1) core chip) (floating : Bool)
    (hw : core.txMux config x = w) (hone : w.OnOneLine) (hdi : x.flashIo1Di = chip.io1)
    (hcount : core.count = 0#4) (hdone : (core.clockEdge config x).count = 0#4)
    (hline : ∀ sent, w.Sends sent → OneLine ((base ++ sent).foldl (clockIn memory) chip0)) :
    Leg config memory chip0 base w m (core.clockEdge config x)
      (chip.step memory (FlashBus.pins (core.clockEdge config x) floating)) := by
  generalize hm : m + 1 = m' at h
  cases h with
  | load hidle hquiet hfollows =>
    have hnil : w.Sends [] := ⟨Nat.zero_le _, fun _ ↦ rfl⟩
    have hstart := hquiet.load_step floating hidle hfollows hw hone hcount hdone
      (by simpa using hline [] hnil)
    have hleg := shift hstart ⟨hone.len_pos, by rw [LiteSpiConfig.bitClocks]; omega⟩
    rwa [Nat.sub_zero, Nat.sub_zero, show w.len.toNat * config.bitClocks + 1 = m by omega] at hleg
  | @shift old j i sent _ _ h hplace =>
    obtain ⟨hj, hi⟩ := hplace
    have hlarge := one_lt_of_shift ⟨hj, hi⟩
    rw [LiteSpiConfig.bitClocks] at hi
    obtain ⟨sent', hnext⟩ := h.step floating hw hone.width hone.len_le hj (by omega)
      hdi hdone (hline sent h.sends)
    by_cases hend : i = 2 * config.div + 1
    · rw [if_pos hend, if_pos hend] at hnext
      have hbit : (w.len.toNat - j) * config.bitClocks =
          (w.len.toNat - (j + 1)) * config.bitClocks + config.bitClocks := by
        rw [← Nat.succ_mul]
        congr 1
        omega
      have hclocks : config.bitClocks = i + 1 := by rw [LiteSpiConfig.bitClocks]; omega
      rcases Nat.lt_or_ge (j + 1) w.len.toNat with hmore | hall
      · have hleg := shift hnext ⟨hmore, by omega⟩
        rwa [Nat.sub_zero, show _ + 1 = m by omega] at hleg
      · obtain rfl : m = 1 := by
          rw [show w.len.toNat - (j + 1) = 0 by omega, Nat.zero_mul] at hbit
          omega
        rw [show j + 1 = w.len.toNat by omega] at hnext
        exact last hnext
    · rw [if_neg hend, if_neg hend] at hnext
      have hleg := shift hnext ⟨hj, by rw [LiteSpiConfig.bitClocks]; omega⟩
      rwa [show _ - (i + 1) + 1 = m by omega] at hleg
  | last h =>
    obtain ⟨hreply, hquiet, hsrIn, hfollows⟩ := h.answer_step floating hw hone.width
      hone.len_pos hdone (hline _ h.sends)
    obtain rfl : m = 0 := by omega
    have hlength := h.length
    rw [if_neg (by omega)] at hlength
    exact reply hreply hquiet h.sends hlength hsrIn hfollows
  | reply => omega

/-- The answer is taken. -/
theorem answered (h : Leg config memory chip0 base w 0 core chip) (floating : Bool)
    (hready : core.sourceReady x = true) (hdone : (core.clockEdge config x).count = 0#4)
    (hline : ∀ sent, w.Sends sent → OneLine ((base ++ sent).foldl (clockIn memory) chip0)) :
    ∃ old sent, w.Sends sent ∧ sent.length = w.len.toNat ∧
      core.srIn = (samples memory chip0 base sent).foldl BitVec.shiftConcat old ∧
      (core.clockEdge config x).phyState = .idle ∧ Quiet (core.clockEdge config x) ∧
      Follows memory chip0 (base ++ sent)
        (chip.step memory (FlashBus.pins (core.clockEdge config x) floating)) := by
  generalize hm : 0 = m' at h
  cases h with
  | load => omega
  | shift => omega
  | last => omega
  | @reply old sent _ _ hreply hquiet hsends hlength hsrIn hfollows =>
    refine ⟨old, sent, hsends, hlength, hsrIn, ?_, hquiet.step (by rw [hreply]; decide),
      hquiet.follows_step floating hfollows hdone (hline sent hsends)⟩
    change core.phyNext config x = _
    rw [LiteSpi.phyNext, hreply]
    exact if_pos hready

end Leg

end Step

end CaravelSoc.Management
