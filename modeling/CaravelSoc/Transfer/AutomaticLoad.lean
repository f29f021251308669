import CaravelSoc.Soc
import Mathlib.Tactic.IntervalCases

/-!
# The automatic transfer, clock by clock

With bit-bang disabled the serial lines are those of the loader's own flops, and
the loader with the pad ring is a machine clocked by `wb_clk_i` alone, whose
input is the register block it samples. A transfer is followed through it word by
word: thirteen rising clocks push one word into each chain.
-/

open Sequential Sequential.ShiftRegister

namespace CaravelSoc.Transfer

/-- The serial lines of a loader whose bit-bang port is disabled. -/
def autoLines (l : SerialLoader.Registers) : Pads.SerialLines where
  clock := l.serialClockPre
  load := l.serialLoadPre
  resetn := l.serialResetnPre
  data1 := l.serialDataStaging1.getLsbD 12
  data2 := l.serialDataStaging2.getLsbD 12

/-- The loader with the pad ring. -/
structure Machine where
  loader : SerialLoader.Registers
  pads : Pads.Blocks

namespace Machine

/-- One rising edge of `wb_clk_i` at which the loader samples the registers `r`. -/
def step (t : Machine) (r : RegisterMap.Registers) : Machine where
  loader := SerialLoader.next t.loader r
  pads := Pads.follow (autoLines t.loader) (autoLines (SerialLoader.next t.loader r)) t.pads

theorem step_loader (t : Machine) (r : RegisterMap.Registers) :
    (t.step r).loader = SerialLoader.next t.loader r := rfl

def edges (t : Machine) (r : RegisterMap.Registers) : List SerialEdge :=
  (autoLines t.loader).edges (autoLines (SerialLoader.next t.loader r))

end Machine

/-! ## One word -/

/-- `count` bits of a word, starting `sent` below its most significant one. -/
def bitsFrom (word : BitVec 13) (sent count : ℕ) : List Bool :=
  (List.range' sent count).map word.getMsbD

theorem bitsFrom_all (word : BitVec 13) : bitsFrom word 0 13 = msbFirst word := by
  simp [bitsFrom, msbFirst, List.range', List.ofFn_succ]

/-- The configuration word of a pad; there is none past the last pad. -/
def configWord (cfg : Fin 38 → BitVec 13) (pad : ℕ) : BitVec 13 :=
  if h : pad < 38 then cfg ⟨pad, h⟩ else 0#13

/-- What the loader samples while bit-bang is disabled and the configuration is `cfg`. -/
structure Quiet (cfg : Fin 38 → BitVec 13) (r : RegisterMap.Registers) : Prop where
  bb : r.serialBbEnable = false
  configure : r.gpioConfigure = cfg

theorem Quiet.configureAt {cfg : Fin 38 → BitVec 13} {r : RegisterMap.Registers}
    (h : Quiet cfg r) (pad : ℕ) : SerialLoader.configureAt r pad = configWord cfg pad := by
  rw [SerialLoader.configureAt, configWord, h.configure]

/-- The sample is one from which word number `word` of `cfg` is staged. -/
structure Stages (cfg : Fin 38 → BitVec 13) (word : ℕ) (r : RegisterMap.Registers) : Prop where
  first : SerialLoader.configureAt r (18 - word) = configWord cfg (18 - word)
  second : SerialLoader.configureAt r (19 + word) = configWord cfg (19 + word)

theorem Quiet.stages {cfg : Fin 38 → BitVec 13} {r : RegisterMap.Registers} (h : Quiet cfg r)
    (word : ℕ) : Stages cfg word r :=
  ⟨h.configureAt _, h.configureAt _⟩

/-- The loader inside word number `word` with `sent` of its bits out and the clock low. Word `w`
is the one of pad `18 - w` on chain 1 and of pad `19 + w` on chain 2. -/
def atBit (cfg : Fin 38 → BitVec 13) (word sent : ℕ) : SerialLoader.Registers where
  xferCount := BitVec.ofNat 4 sent
  padCount1 := 17#5 - BitVec.ofNat 5 word
  padCount2 := BitVec.ofNat 6 (20 + word)
  xferState := .xbyte
  serialClockPre := false
  serialResetnPre := true
  serialLoadPre := false
  serialDataStaging1 := shiftOut (configWord cfg (18 - word)) sent
  serialDataStaging2 := shiftOut (configWord cfg (19 + word)) sent
  serialBusy := true

/-- The pad rings of two machines differ by bits shifted into the chains; nothing was loaded. -/
structure Shifted (t t' : Machine) (bits1 bits2 : List Bool) : Prop where
  chain1 : Pads.chain1 t'.pads = bits1.foldl Chain.shift (Pads.chain1 t.pads)
  chain2 : Pads.chain2 t'.pads = bits2.foldl Chain.shift (Pads.chain2 t.pads)
  config : ∀ pad, (t'.pads pad).config = (t.pads pad).config

theorem Shifted.trans {t t' t'' : Machine} {bits1 bits2 bits1' bits2' : List Bool}
    (h : Shifted t t' bits1 bits2) (h' : Shifted t' t'' bits1' bits2') :
    Shifted t t'' (bits1 ++ bits1') (bits2 ++ bits2') where
  chain1 := by rw [List.foldl_append, ← h.chain1, h'.chain1]
  chain2 := by rw [List.foldl_append, ← h.chain2, h'.chain2]
  config pad := (h'.config pad).trans (h.config pad)

section Edge

variable {t : Machine} {r : RegisterMap.Registers}

/-- A rising clock shifts the two staged bits in. -/
theorem shifted_of_rise (hclock : t.loader.serialClockPre = false)
    (hsettled : Pads.Settled t.pads) (hresetn : (t.step r).loader.serialResetnPre = true)
    (hclock' : (t.step r).loader.serialClockPre = true)
    (hload' : (t.step r).loader.serialLoadPre = false) :
    Shifted t (t.step r) [(t.step r).loader.serialDataStaging1.getLsbD 12]
        [(t.step r).loader.serialDataStaging2.getLsbD 12] ∧
      t.edges r = [.clockRise] := by
  have hrise : (autoLines t.loader).clockRises (autoLines (t.step r).loader) = true := by
    simp [autoLines, Pads.SerialLines.clockRises, hclock, hclock']
  have hnoload : (autoLines t.loader).loadRises (autoLines (t.step r).loader) = false := by
    simp [autoLines, Pads.SerialLines.loadRises, hload']
  refine ⟨⟨?_, ?_, fun pad ↦ ?_⟩, ?_⟩
  · exact Pads.chain1_follow_rise hresetn hrise hsettled
  · exact Pads.chain2_follow_rise hresetn hrise hsettled
  · exact Pads.follow_config_of_no_load hresetn hnoload pad
  · simp only [Machine.edges, Pads.SerialLines.edges]
    rw [← Machine.step_loader, hrise, hnoload]
    rfl

/-- Without a rising clock or load the pads keep their words and configurations. -/
theorem shifted_of_no_rise (hresetn : (t.step r).loader.serialResetnPre = true)
    (hclock' : (t.step r).loader.serialClockPre = false)
    (hload' : (t.step r).loader.serialLoadPre = false) :
    Shifted t (t.step r) [] [] ∧ t.edges r = [] := by
  have hrise : (autoLines t.loader).clockRises (autoLines (t.step r).loader) = false := by
    simp [autoLines, Pads.SerialLines.clockRises, hclock']
  have hnoload : (autoLines t.loader).loadRises (autoLines (t.step r).loader) = false := by
    simp [autoLines, Pads.SerialLines.loadRises, hload']
  refine ⟨⟨?_, ?_, fun pad ↦ ?_⟩, ?_⟩
  · funext i
    exact Pads.follow_shiftRegister_of_no_rise hresetn hrise _
  · funext i
    exact Pads.follow_shiftRegister_of_no_rise hresetn hrise _
  · exact Pads.follow_config_of_no_load hresetn hnoload pad
  · simp only [Machine.edges, Pads.SerialLines.edges]
    rw [← Machine.step_loader, hrise, hnoload]
    rfl

/-- A falling clock settles the output flops. -/
theorem settled_of_fall (hclock : t.loader.serialClockPre = true)
    (hresetn : (t.step r).loader.serialResetnPre = true)
    (hclock' : (t.step r).loader.serialClockPre = false) : Pads.Settled (t.step r).pads :=
  Pads.follow_settled_of_fall hresetn (by
    simp [autoLines, Pads.SerialLines.clockFalls, hclock, ← Machine.step_loader, hclock'])

end Edge

section Word

variable {cfg : Fin 38 → BitVec 13} {r r' : RegisterMap.Registers}

/-- The loader inside a word with the clock just raised for the bit after `sent`. -/
def raised (cfg : Fin 38 → BitVec 13) (word sent : ℕ) : SerialLoader.Registers :=
  { atBit cfg word sent with serialClockPre := true, xferCount := BitVec.ofNat 4 (sent + 1) }

/-- The loader after the last rising clock of a word. -/
def wordDone (cfg : Fin 38 → BitVec 13) (word : ℕ) : SerialLoader.Registers :=
  { atBit cfg word 12 with
    serialClockPre := true
    xferCount := 0#4
    xferState := if word = 18 then .load else .start }

theorem next_atBit (hbb : r.serialBbEnable = false) (word : ℕ) {sent : ℕ} (hsent : sent < 12) :
    SerialLoader.next (atBit cfg word sent) r = raised cfg word sent := by
  have hcount : BitVec.ofNat 4 sent ≠ 12#4 := by interval_cases sent <;> decide
  simp [SerialLoader.next, SerialLoader.xbyteStep, SerialLoader.serialClock, hbb, atBit, raised,
    hcount, BitVec.ofNat_add]

theorem next_raised (hbb : r.serialBbEnable = false) (word sent : ℕ) :
    SerialLoader.next (raised cfg word sent) r = atBit cfg word (sent + 1) := by
  simp [SerialLoader.next, SerialLoader.xbyteStep, SerialLoader.serialClock, hbb, atBit, raised,
    shiftConcat_shiftOut]

theorem next_atBit_last (hbb : r.serialBbEnable = false) {word : ℕ} (hword : word ≤ 18) :
    SerialLoader.next (atBit cfg word 12) r = wordDone cfg word := by
  have hlast : BitVec.ofNat 6 (20 + word) = 38#6 ↔ word = 18 := by
    interval_cases word <;> decide
  simp [SerialLoader.next, SerialLoader.xbyteStep, SerialLoader.serialClock, hbb, atBit, wordDone,
    hlast]

/-- The next word is staged. -/
theorem next_wordDone {word : ℕ} (hr : Stages cfg (word + 1) r) (hword : word < 18) :
    SerialLoader.next (wordDone cfg word) r = atBit cfg (word + 1) 0 := by
  have hpad1 : (17#5 - BitVec.ofNat 5 word).toNat = 18 - (word + 1) := by
    interval_cases word <;> decide
  have hpad2 : (20 + word) % 64 = 19 + (word + 1) := by omega
  have hdec : 17#5 - BitVec.ofNat 5 word - 1#5 = 17#5 - BitVec.ofNat 5 (word + 1) := by
    interval_cases word <;> decide
  have hpad : 18 - (word + 1) = 17 - word := by omega
  have hfirst := hr.first
  rw [hpad] at hfirst hpad1
  simp [SerialLoader.next, SerialLoader.startStep, hfirst, hr.second, atBit, wordDone, hword.ne,
    shiftOut_zero, hpad1, hpad2, hdec, BitVec.ofNat_add, BitVec.add_assoc]

/-- `rs` takes the machine to a state whose pads differ by the shifted bits, with the given serial
edges on the way. -/
structure Sends (t : Machine) (rs : List RegisterMap.Registers) (bits1 bits2 : List Bool)
    (edges : List SerialEdge) : Prop where
  shifted : Shifted t (run Machine.step t rs) bits1 bits2
  edges : trace Machine.step Machine.edges t rs = edges

theorem Sends.append {t : Machine} {rs rs' : List RegisterMap.Registers}
    {bits1 bits2 bits1' bits2' : List Bool} {edges edges' : List SerialEdge}
    (h : Sends t rs bits1 bits2 edges)
    (h' : Sends (run Machine.step t rs) rs' bits1' bits2' edges') :
    Sends t (rs ++ rs') (bits1 ++ bits1') (bits2 ++ bits2') (edges ++ edges') where
  shifted := by
    rw [run_append]
    exact h.shifted.trans h'.shifted
  edges := by rw [trace_append, h.edges, h'.edges]

/-- Clocks that send nothing, before some that do. -/
theorem Sends.quiet_append {t : Machine} {rs rs' : List RegisterMap.Registers}
    {bits1 bits2 : List Bool} {edges : List SerialEdge} (h : Sends t rs [] [] [])
    (h' : Sends (run Machine.step t rs) rs' bits1 bits2 edges) :
    Sends t (rs ++ rs') bits1 bits2 edges :=
  h.append h'

theorem sends_one {t : Machine} {bits1 bits2 : List Bool} {edges : List SerialEdge}
    (h : Shifted t (t.step r) bits1 bits2 ∧ t.edges r = edges) : Sends t [r] bits1 bits2 edges :=
  ⟨h.1, by simp [trace, h.2]⟩

/-- One bit that is not the last of its word takes two clocks. -/
theorem bit_run (t : Machine) (word : ℕ) {sent : ℕ} (hsent : sent < 12)
    (hloader : t.loader = atBit cfg word sent) (hsettled : Pads.Settled t.pads)
    (hr : r.serialBbEnable = false) (hr' : r'.serialBbEnable = false) :
    ((t.step r).step r').loader = atBit cfg word (sent + 1) ∧
      Pads.Settled ((t.step r).step r').pads ∧
      Sends t [r, r'] [(configWord cfg (18 - word)).getMsbD sent]
        [(configWord cfg (19 + word)).getMsbD sent] [.clockRise] := by
  have hup : (t.step r).loader = raised cfg word sent := by
    rw [Machine.step_loader, hloader, next_atBit hr word hsent]
  have hdown : ((t.step r).step r').loader = atBit cfg word (sent + 1) := by
    rw [Machine.step_loader, hup, next_raised hr']
  have hrise := shifted_of_rise (t := t) (r := r) (by rw [hloader]; rfl) hsettled (by rw [hup]; rfl)
    (by rw [hup]; rfl) (by rw [hup]; rfl)
  have hfall := shifted_of_no_rise (t := t.step r) (r := r') (by rw [hdown]; rfl)
    (by rw [hdown]; rfl) (by rw [hdown]; rfl)
  have hsettled' := settled_of_fall (t := t.step r) (r := r') (by rw [hup]; rfl)
    (by rw [hdown]; rfl) (by rw [hdown]; rfl)
  rw [hup] at hrise
  simp only [raised, atBit, getLsbD_shiftOut_top _ _ (show sent < 13 by omega)] at hrise
  exact ⟨hdown, hsettled', (sends_one hrise).append (sends_one hfall)⟩

/-- Bits short of the last one of the word. -/
theorem bits_run (word count : ℕ) : ∀ (sent : ℕ) (t : Machine) (rs : List RegisterMap.Registers),
    sent + count ≤ 12 → rs.length = 2 * count → (∀ r ∈ rs, r.serialBbEnable = false) →
    t.loader = atBit cfg word sent → Pads.Settled t.pads →
    (run Machine.step t rs).loader = atBit cfg word (sent + count) ∧
      Pads.Settled (run Machine.step t rs).pads ∧
      Sends t rs (bitsFrom (configWord cfg (18 - word)) sent count)
        (bitsFrom (configWord cfg (19 + word)) sent count) (List.replicate count .clockRise) := by
  induction count with
  | zero =>
    intro sent t rs _ hlen _ hloader hsettled
    obtain rfl : rs = [] := List.eq_nil_of_length_eq_zero hlen
    exact ⟨hloader, hsettled, ⟨⟨rfl, rfl, fun _ ↦ rfl⟩, rfl⟩⟩
  | succ count ih =>
    intro sent t rs hsent hlen hbb hloader hsettled
    match rs, hlen with
    | r :: r' :: rest, hlen =>
      obtain ⟨hr, hr', hrest⟩ : r.serialBbEnable = false ∧ r'.serialBbEnable = false ∧
          ∀ r ∈ rest, r.serialBbEnable = false := by
        simpa using hbb
      obtain ⟨hloader', hsettled', hbit⟩ := bit_run t word (show sent < 12 by omega) hloader
        hsettled hr hr'
      obtain ⟨hlast, hsettledLast, hbits⟩ := ih (sent + 1) _ rest (by omega)
        (by simp at hlen; omega) hrest hloader' hsettled'
      have hsum : sent + (count + 1) = sent + 1 + count := by omega
      refine ⟨?_, hsettledLast, hbit.append hbits⟩
      rw [hsum]
      exact hlast

/-- The thirteenth bit leaves the clock high for the next state to lower. -/
theorem word_raised (t : Machine) {word : ℕ} (hword : word ≤ 18)
    (rs : List RegisterMap.Registers) (hlen : rs.length = 25)
    (hbb : ∀ r ∈ rs, r.serialBbEnable = false)
    (hloader : t.loader = atBit cfg word 0) (hsettled : Pads.Settled t.pads) :
    (run Machine.step t rs).loader = wordDone cfg word ∧
      Sends t rs (msbFirst (configWord cfg (18 - word))) (msbFirst (configWord cfg (19 + word)))
        (List.replicate 13 .clockRise) := by
  obtain ⟨front, back, rfl, hfront, hback⟩ := exists_append_of_length (m := 24) (n := 1) hlen
  obtain ⟨last, rfl⟩ := List.length_eq_one_iff.mp hback
  have hlast : last.serialBbEnable = false := hbb last (by simp)
  obtain ⟨hbits, hsettledBits, hsends⟩ := bits_run word 12 0 t front (by omega) hfront
    (fun r hr ↦ hbb r (by simp [hr])) hloader hsettled
  have hdone : ((run Machine.step t front).step last).loader = wordDone cfg word := by
    rw [Machine.step_loader, hbits, next_atBit_last hlast hword]
  have hrise := shifted_of_rise (t := run Machine.step t front) (r := last) (by rw [hbits]; rfl)
    hsettledBits (by rw [hdone]; rfl) (by rw [hdone]; rfl) (by rw [hdone]; rfl)
  rw [hdone] at hrise
  simp only [wordDone, atBit, getLsbD_shiftOut_top _ _ (show 12 < 13 by omega)] at hrise
  have hall := hsends.append (sends_one hrise)
  refine ⟨by rw [run_append]; exact hdone, ?_⟩
  rw [← bitsFrom_all, ← bitsFrom_all]
  exact hall

/-- A word that is not the last takes 26 clocks, from one staging to the next. -/
theorem word_run (t : Machine) {word : ℕ} (hword : word < 18) (rs : List RegisterMap.Registers)
    (hlen : rs.length = 26) (hbb : ∀ r ∈ rs, r.serialBbEnable = false)
    (hstage : ∀ r, rs[25]? = some r → Stages cfg (word + 1) r)
    (hloader : t.loader = atBit cfg word 0) (hsettled : Pads.Settled t.pads) :
    (run Machine.step t rs).loader = atBit cfg (word + 1) 0 ∧
      Pads.Settled (run Machine.step t rs).pads ∧
      Sends t rs (msbFirst (configWord cfg (18 - word))) (msbFirst (configWord cfg (19 + word)))
        (List.replicate 13 .clockRise) := by
  obtain ⟨front, back, rfl, hfront, hback⟩ := exists_append_of_length (m := 25) (n := 1) hlen
  obtain ⟨last, rfl⟩ := List.length_eq_one_iff.mp hback
  have hlast : Stages cfg (word + 1) last := by
    apply hstage
    rw [List.getElem?_append_right hfront.le, hfront]
    rfl
  obtain ⟨hdone, hsends⟩ := word_raised t hword.le front hfront
    (fun r hr ↦ hbb r (by simp [hr])) hloader hsettled
  have hnext : ((run Machine.step t front).step last).loader = atBit cfg (word + 1) 0 := by
    rw [Machine.step_loader, hdone, next_wordDone hlast hword]
  have hfall := shifted_of_no_rise (t := run Machine.step t front) (r := last)
    (by rw [hnext]; rfl) (by rw [hnext]; rfl) (by rw [hnext]; rfl)
  have hsettled' := settled_of_fall (t := run Machine.step t front) (r := last)
    (by rw [hdone]; rfl) (by rw [hnext]; rfl) (by rw [hnext]; rfl)
  have hall := hsends.append (sends_one hfall)
  rw [run_append]
  exact ⟨hnext, hsettled', by simpa only [List.append_nil] using hall⟩

/-- The words of chain 1 in the order in which they are sent, from word `word` on. -/
def words1 (cfg : Fin 38 → BitVec 13) (word count : ℕ) : List (BitVec 13) :=
  (List.range' word count).map fun w ↦ configWord cfg (18 - w)

/-- The words of chain 2 in the order in which they are sent, from word `word` on. -/
def words2 (cfg : Fin 38 → BitVec 13) (word count : ℕ) : List (BitVec 13) :=
  (List.range' word count).map fun w ↦ configWord cfg (19 + w)

theorem words_run (count : ℕ) : ∀ (word : ℕ) (t : Machine) (rs : List RegisterMap.Registers),
    word + count ≤ 18 → rs.length = 26 * count → (∀ r ∈ rs, r.serialBbEnable = false) →
    (∀ i < count, ∀ r, rs[26 * i + 25]? = some r → Stages cfg (word + i + 1) r) →
    t.loader = atBit cfg word 0 → Pads.Settled t.pads →
    (run Machine.step t rs).loader = atBit cfg (word + count) 0 ∧
      Pads.Settled (run Machine.step t rs).pads ∧
      Sends t rs ((words1 cfg word count).flatMap msbFirst)
        ((words2 cfg word count).flatMap msbFirst) (List.replicate (13 * count) .clockRise) := by
  induction count with
  | zero =>
    intro word t rs _ hlen _ _ hloader hsettled
    obtain rfl : rs = [] := List.eq_nil_of_length_eq_zero hlen
    exact ⟨hloader, hsettled, ⟨⟨rfl, rfl, fun _ ↦ rfl⟩, rfl⟩⟩
  | succ count ih =>
    intro word t rs hword hlen hbb hstage hloader hsettled
    obtain ⟨front, back, rfl, hfront, hback⟩ :=
      exists_append_of_length (show rs.length = 26 + 26 * count by omega)
    have hstageFirst : ∀ r, front[25]? = some r → Stages cfg (word + 1) r := fun r hr ↦
      hstage 0 (by omega) r ((List.getElem?_append_left (by omega)).trans hr)
    have hstageRest : ∀ i < count, ∀ r, back[26 * i + 25]? = some r →
        Stages cfg (word + 1 + i + 1) r := by
      intro i hi r hr
      have hindex : 26 * (i + 1) + 25 - front.length = 26 * i + 25 := by omega
      rw [show word + 1 + i + 1 = word + (i + 1) + 1 by omega]
      apply hstage (i + 1) (by omega)
      rw [List.getElem?_append_right (by omega), hindex, hr]
    obtain ⟨hloader', hsettled', hfirst⟩ := word_run t (show word < 18 by omega) front hfront
      (fun r hr ↦ hbb r (by simp [hr])) hstageFirst hloader hsettled
    obtain ⟨hloaderLast, hsettledLast, hrest⟩ := ih (word + 1) _ back (by omega) hback
      (fun r hr ↦ hbb r (by simp [hr])) hstageRest hloader' hsettled'
    have hall := hfirst.append hrest
    have hsum : word + (count + 1) = word + 1 + count := by omega
    have hedges : 13 * (count + 1) = 13 + 13 * count := by omega
    rw [run_append, hsum, hedges, List.replicate_add]
    exact ⟨hloaderLast, hsettledLast, hall⟩

end Word

/-! ## Loading -/

section Load

variable {cfg : Fin 38 → BitVec 13} {t : Machine} {r : RegisterMap.Registers}

/-- A rising load latches every pad's configuration from its shift register. -/
theorem load_latches (hload : t.loader.serialLoadPre = false)
    (hresetn : (t.step r).loader.serialResetnPre = true)
    (hload' : (t.step r).loader.serialLoadPre = true)
    (hclock' : (t.step r).loader.serialClockPre = false) :
    (∀ pad, ((t.step r).pads pad).config = Pads.PadConfig.ofWord (t.pads pad).shiftRegister) ∧
      t.edges r = [.loadRise] := by
  have hrise : (autoLines t.loader).clockRises (autoLines (t.step r).loader) = false := by
    simp [autoLines, Pads.SerialLines.clockRises, hclock']
  have hloads : (autoLines t.loader).loadRises (autoLines (t.step r).loader) = true := by
    simp [autoLines, Pads.SerialLines.loadRises, hload, hload']
  refine ⟨fun pad ↦ Pads.follow_config_of_load hresetn hloads pad, ?_⟩
  simp only [Machine.edges, Pads.SerialLines.edges]
  rw [← Machine.step_loader, hrise, hloads]
  rfl

/-- The loader in `` `GPIO_LOAD `` after `count` of its clocks. -/
def loading (cfg : Fin 38 → BitVec 13) (count : ℕ) : SerialLoader.Registers :=
  { atBit cfg 18 12 with
    serialLoadPre := count == 2
    xferCount := BitVec.ofNat 4 count
    xferState := .load }

/-- The loader back in `` `GPIO_IDLE `` with the transfer done. -/
def finished (cfg : Fin 38 → BitVec 13) : SerialLoader.Registers :=
  { atBit cfg 18 12 with xferCount := 3#4, xferState := .idle, serialBusy := false }

/-- The three clocks after the last bit lower the clock, pulse the load strobe and return to idle;
every pad latches the word its shift register holds. -/
theorem load_run (r₀ r₁ r₂ : RegisterMap.Registers) (hloader : t.loader = wordDone cfg 18) :
    (run Machine.step t [r₀, r₁, r₂]).loader = finished cfg ∧
      trace Machine.step Machine.edges t [r₀, r₁, r₂] = [.loadRise] ∧
      ∀ pad, ((run Machine.step t [r₀, r₁, r₂]).pads pad).config =
        Pads.PadConfig.ofWord (t.pads pad).shiftRegister := by
  have h₀ : (t.step r₀).loader = loading cfg 1 := by
    rw [Machine.step_loader, hloader]
    rfl
  have h₁ : ((t.step r₀).step r₁).loader = loading cfg 2 := by
    rw [Machine.step_loader, h₀]
    rfl
  have h₂ : (((t.step r₀).step r₁).step r₂).loader = finished cfg := by
    rw [Machine.step_loader, h₁]
    rfl
  obtain ⟨hfall, hedge₀⟩ := shifted_of_no_rise (t := t) (r := r₀) (by rw [h₀]; rfl)
    (by rw [h₀]; rfl) (by rw [h₀]; rfl)
  obtain ⟨hlatch, hedge₁⟩ := load_latches (t := t.step r₀) (r := r₁) (by rw [h₀]; rfl)
    (by rw [h₁]; rfl) (by rw [h₁]; rfl) (by rw [h₁]; rfl)
  obtain ⟨hkeep, hedge₂⟩ := shifted_of_no_rise (t := (t.step r₀).step r₁) (r := r₂)
    (by rw [h₂]; rfl) (by rw [h₂]; rfl) (by rw [h₂]; rfl)
  refine ⟨h₂, by simp [trace, hedge₀, hedge₁, hedge₂], fun pad ↦ ?_⟩
  calc
    ((run Machine.step t [r₀, r₁, r₂]).pads pad).config =
        (((t.step r₀).step r₁).pads pad).config := hkeep.config pad
    _ = Pads.PadConfig.ofWord ((t.step r₀).pads pad).shiftRegister := hlatch pad
    _ = Pads.PadConfig.ofWord (t.pads pad).shiftRegister := by
      rw [Pads.shiftRegister_eq_of_chains hfall.chain1 hfall.chain2]

end Load

/-! ## The whole transfer -/

section Whole

variable {cfg : Fin 38 → BitVec 13} {t : Machine} {r : RegisterMap.Registers}

/-- Once every word is sent, each shift register holds the word of its own pad. -/
theorem chains_hold_words {blocks : Pads.Blocks} {chain chain' : Chain 19 13}
    (h1 : Pads.chain1 blocks = ((words1 cfg 0 19).flatMap msbFirst).foldl Chain.shift chain)
    (h2 : Pads.chain2 blocks = ((words2 cfg 0 19).flatMap msbFirst).foldl Chain.shift chain')
    (pad : Fin 38) : (blocks pad).shiftRegister = cfg pad := by
  have hword := Pads.shiftRegister_of_words (by simp [words1]) (by simp [words2]) h1 h2 pad
  by_cases hpad : pad.val < 19
  · have hindex : 18 - (18 - pad.val) = pad.val := by omega
    calc
      (blocks pad).shiftRegister
      _ = (words1 cfg 0 19).getD (18 - pad.val) 0#13 := by rw [hword, if_pos hpad]
      _ = configWord cfg (18 - (18 - pad.val)) := by
        rw [List.getD_eq_getElem _ _ (by simp [words1]; omega)]
        simp [words1]
      _ = cfg pad := by rw [hindex, configWord, dif_pos pad.isLt]
  · have hindex : 19 + (pad.val - 19) = pad.val := by omega
    calc
      (blocks pad).shiftRegister
      _ = (words2 cfg 0 19).getD (pad.val - 19) 0#13 := by rw [hword, if_neg hpad]
      _ = configWord cfg (19 + (pad.val - 19)) := by
        rw [List.getD_eq_getElem _ _ (by simp [words2]; omega)]
        simp [words2]
      _ = cfg pad := by rw [hindex, configWord, dif_pos pad.isLt]

/-- The first clock of a transfer, at which the idle loader samples `serial_xfer`. -/
theorem request_step (hidle : t.loader.xferState = .idle) (hxfer : r.serialXfer = true)
    (hsettled : Pads.Settled t.pads) :
    (t.step r).loader = SerialLoader.idleStep t.loader true ∧ Pads.Settled (t.step r).pads ∧
      Sends t [r] [] [] [] := by
  have hnext : (t.step r).loader = SerialLoader.idleStep t.loader true := by
    rw [Machine.step_loader, SerialLoader.next, hidle, hxfer]
  have hquiet := shifted_of_no_rise (t := t) (r := r) (by rw [hnext]; rfl) (by rw [hnext]; rfl)
    (by rw [hnext]; rfl)
  refine ⟨hnext, ?_, sends_one hquiet⟩
  by_cases hclock : t.loader.serialClockPre = true
  · exact settled_of_fall hclock (by rw [hnext]; rfl) (by rw [hnext]; rfl)
  · exact Pads.settled_of_no_edge (by rw [← Machine.step_loader, hnext]; rfl)
      (by simp [autoLines, Pads.SerialLines.clockRises, ← Machine.step_loader, hnext,
        SerialLoader.idleStep])
      (by simp [autoLines, Pads.SerialLines.clockFalls, hclock]) hsettled

theorem next_idleStep (l : SerialLoader.Registers) (hr : Stages cfg 0 r) :
    SerialLoader.next (SerialLoader.idleStep l true) r = atBit cfg 0 0 := by
  have hfirst := hr.first
  have hsecond := hr.second
  simp only [Nat.sub_zero, Nat.add_zero] at hfirst hsecond
  simp [SerialLoader.next, SerialLoader.idleStep, SerialLoader.startStep, hfirst, hsecond, atBit,
    shiftOut_zero]

/-- The second clock stages the first word of each chain. -/
theorem start_step (l : SerialLoader.Registers) (hr : Stages cfg 0 r)
    (hloader : t.loader = SerialLoader.idleStep l true) (hsettled : Pads.Settled t.pads) :
    (t.step r).loader = atBit cfg 0 0 ∧ Pads.Settled (t.step r).pads ∧ Sends t [r] [] [] [] := by
  have hnext : (t.step r).loader = atBit cfg 0 0 := by
    rw [Machine.step_loader, hloader, next_idleStep l hr]
  have hquiet := shifted_of_no_rise (t := t) (r := r) (by rw [hnext]; rfl) (by rw [hnext]; rfl)
    (by rw [hnext]; rfl)
  refine ⟨hnext, ?_, sends_one hquiet⟩
  exact Pads.settled_of_no_edge (by rw [← Machine.step_loader, hnext]; rfl)
    (by simp [autoLines, Pads.SerialLines.clockRises, ← Machine.step_loader, hnext, atBit])
    (by simp [autoLines, Pads.SerialLines.clockFalls, hloader, SerialLoader.idleStep]) hsettled

/-- The request, the start and the 19 words. -/
theorem words_sent (hidle : t.loader.xferState = .idle) (hsettled : Pads.Settled t.pads)
    (hxfer : r.serialXfer = true) {r₁ : RegisterMap.Registers} (hr₁ : Stages cfg 0 r₁)
    {words last : List RegisterMap.Registers} (hwords : words.length = 26 * 18)
    (hlast : last.length = 25) (hbb : ∀ r ∈ words ++ last, r.serialBbEnable = false)
    (hstage : ∀ i < 18, ∀ r, words[26 * i + 25]? = some r → Stages cfg (0 + i + 1) r) :
    (run Machine.step t ([r] ++ [r₁] ++ words ++ last)).loader = wordDone cfg 18 ∧
      Sends t ([r] ++ [r₁] ++ words ++ last) ((words1 cfg 0 19).flatMap msbFirst)
        ((words2 cfg 0 19).flatMap msbFirst) (List.replicate 247 .clockRise) := by
  obtain ⟨hload₀, hsettled₀, hsend₀⟩ := request_step hidle hxfer hsettled
  obtain ⟨hload₁, hsettled₁, hsend₁⟩ := start_step t.loader hr₁ hload₀ hsettled₀
  obtain ⟨hload₂, hsettled₂, hsend₂⟩ := words_run 18 0 _ words (by omega) hwords
    (fun r hr ↦ hbb r (List.mem_append_left _ hr)) hstage hload₁ hsettled₁
  obtain ⟨hload₃, hsend₃⟩ := word_raised _ (by omega) last hlast
    (fun r hr ↦ hbb r (List.mem_append_right _ hr)) hload₂ hsettled₂
  have hmid : run Machine.step t ([r] ++ [r₁] ++ words) =
      run Machine.step ((t.step r).step r₁) words := by
    rw [run_append]
    rfl
  have hsend₀₂ := (hsend₀.append hsend₁).quiet_append hsend₂
  rw [← hmid] at hload₃ hsend₃
  have hwords1 : (words1 cfg 0 18).flatMap msbFirst ++ msbFirst (configWord cfg (18 - (0 + 18))) =
      (words1 cfg 0 19).flatMap msbFirst := by simp [words1, List.range'_concat]
  have hwords2 : (words2 cfg 0 18).flatMap msbFirst ++ msbFirst (configWord cfg (19 + (0 + 18))) =
      (words2 cfg 0 19).flatMap msbFirst := by simp [words2, List.range'_concat]
  have hedges : List.replicate (13 * 18) SerialEdge.clockRise ++ List.replicate 13 .clockRise =
      List.replicate 247 .clockRise := (List.replicate_add ..).symm
  refine ⟨by rw [run_append, hload₃], ?_⟩
  rw [← hwords1, ← hwords2, ← hedges]
  exact hsend₀₂.append hsend₃

/-- A transfer takes 498 clocks and leaves in every pad the word staged for it, whatever the
configuration is at other clocks. -/
theorem transfer_run_of_stages (hidle : t.loader.xferState = .idle)
    (hsettled : Pads.Settled t.pads) (hxfer : r.serialXfer = true)
    (rs : List RegisterMap.Registers) (hlen : rs.length = 497)
    (hbb : ∀ r ∈ rs, r.serialBbEnable = false)
    (hstage : ∀ word ≤ 18, ∀ r, rs[26 * word]? = some r → Stages cfg word r) :
    (run Machine.step t (r :: rs)).loader = finished cfg ∧
      trace Machine.step Machine.edges t (r :: rs) =
        List.replicate 247 .clockRise ++ [.loadRise] ∧
      ∀ pad, ((run Machine.step t (r :: rs)).pads pad).config =
        Pads.PadConfig.ofWord (cfg pad) := by
  obtain ⟨r₁, rest, rfl⟩ := List.exists_cons_of_length_eq_add_one hlen
  obtain ⟨front, load, rfl, hfront, hload⟩ := exists_append_of_length (m := 26 * 18 + 25) (n := 3)
    (Nat.succ.inj hlen)
  obtain ⟨words, last, rfl, hwords, hlast⟩ := exists_append_of_length hfront
  obtain ⟨r₂, r₃, r₄, rfl⟩ := List.length_eq_three.mp hload
  have hbb' : ∀ r ∈ words ++ last, r.serialBbEnable = false := fun r hr ↦
    hbb r (List.mem_cons_of_mem _ (List.mem_append_left _ hr))
  have hstageWords : ∀ i < 18, ∀ r, words[26 * i + 25]? = some r → Stages cfg (0 + i + 1) r := by
    intro i hi r hr
    rw [Nat.zero_add]
    apply hstage (i + 1) (by omega)
    rw [show 26 * (i + 1) = 26 * i + 25 + 1 by omega, List.getElem?_cons_succ,
      List.getElem?_append_left (by simp; omega), List.getElem?_append_left (by omega), hr]
  obtain ⟨hdone, hsent⟩ :=
    words_sent hidle hsettled hxfer (hstage 0 (by omega) r₁ rfl) hwords hlast hbb' hstageWords
  obtain ⟨hfinished, hedges, hconfig⟩ := load_run r₂ r₃ r₄ hdone
  have hsplit : r :: r₁ :: (words ++ last ++ [r₂, r₃, r₄]) =
      ([r] ++ [r₁] ++ words ++ last) ++ [r₂, r₃, r₄] := by simp
  rw [hsplit, run_append, trace_append, hsent.edges, hedges]
  refine ⟨hfinished, rfl, fun pad ↦ ?_⟩
  rw [hconfig, chains_hold_words hsent.shifted.chain1 hsent.shifted.chain2]

/-- A transfer of a configuration that does not change. -/
theorem transfer_run (hidle : t.loader.xferState = .idle) (hsettled : Pads.Settled t.pads)
    (hxfer : r.serialXfer = true) (rs : List RegisterMap.Registers)
    (hlen : rs.length = 497) (hquiet : ∀ r ∈ rs, Quiet cfg r) :
    (run Machine.step t (r :: rs)).loader = finished cfg ∧
      trace Machine.step Machine.edges t (r :: rs) =
        List.replicate 247 .clockRise ++ [.loadRise] ∧
      ∀ pad, ((run Machine.step t (r :: rs)).pads pad).config =
        Pads.PadConfig.ofWord (cfg pad) :=
  transfer_run_of_stages hidle hsettled hxfer rs hlen (fun r hr ↦ (hquiet r hr).bb)
    fun word _ r hr ↦ (hquiet r (List.mem_of_getElem? hr)).stages word

theorem pads_of_no_edge {l l' : SerialLoader.Registers} {pads : Pads.Blocks}
    (hclock : l.serialClockPre = false) (hresetn : l'.serialResetnPre = true)
    (hclock' : l'.serialClockPre = false) (hload : l'.serialLoadPre = false) :
    Pads.follow (autoLines l) (autoLines l') pads = pads := by
  apply Pads.follow_of_no_edge hresetn
  · simp [autoLines, Pads.SerialLines.clockRises, hclock']
  · simp [autoLines, Pads.SerialLines.clockFalls, hclock]
  · simp [autoLines, Pads.SerialLines.loadRises, hload]

/-- The block with its output flop showing the top bit. -/
def settledBlock (b : Pads.GpioControlBlock) : Pads.GpioControlBlock :=
  { b with serialDataOut := b.shiftRegister.getLsbD 12 }

/-- Output flops that are not settled make no difference once the first bit is in: they are
either settled by the idle loader lowering the clock, or seen by the first shift only. -/
theorem exists_settled (hidle : t.loader.xferState = .idle) (hxfer : r.serialXfer = true)
    {r₁ r₂ : RegisterMap.Registers} (hr₁ : Stages cfg 0 r₁) (hbb : r₂.serialBbEnable = false) :
    ∃ t' : Machine, t'.loader = t.loader ∧ Pads.Settled t'.pads ∧
      run Machine.step t' [r, r₁, r₂] = run Machine.step t [r, r₁, r₂] := by
  have hnext : SerialLoader.next t.loader r = SerialLoader.idleStep t.loader true := by
    rw [SerialLoader.next, hidle, hxfer]
  have hstart := next_idleStep t.loader hr₁
  cases hclock : t.loader.serialClockPre with
  | true =>
    refine ⟨⟨t.loader, fun pad ↦ settledBlock (t.pads pad)⟩, rfl, fun _ ↦ rfl, ?_⟩
    have hstep : Machine.step ⟨t.loader, fun pad ↦ settledBlock (t.pads pad)⟩ r = t.step r := by
      unfold Machine.step
      congr 1
      funext pad
      simp [Pads.follow, Pads.GpioControlBlock.follow, hnext, autoLines, SerialLoader.idleStep,
        settledBlock, Pads.SerialLines.clockRises, Pads.SerialLines.clockFalls,
        Pads.SerialLines.loadRises, hclock]
    simp only [run, hstep]
  | false =>
    refine ⟨⟨t.loader, Pads.presented t.pads⟩, rfl, Pads.settled_presented _, ?_⟩
    -- two clocks without an edge, then the first rise
    have hwait : ∀ pads, run Machine.step ⟨t.loader, pads⟩ [r, r₁] = ⟨atBit cfg 0 0, pads⟩ := by
      intro pads
      simp only [run, Machine.step, hnext, hstart]
      rw [pads_of_no_edge hclock rfl rfl rfl, pads_of_no_edge rfl rfl rfl rfl]
    have hrise : ∀ pads, run Machine.step ⟨t.loader, pads⟩ [r, r₁, r₂] =
        ⟨raised cfg 0 0,
          Pads.follow (autoLines (atBit cfg 0 0)) (autoLines (raised cfg 0 0)) pads⟩ := by
      intro pads
      calc
        run Machine.step ⟨t.loader, pads⟩ [r, r₁, r₂]
        _ = Machine.step (run Machine.step ⟨t.loader, pads⟩ [r, r₁]) r₂ := rfl
        _ = Machine.step ⟨atBit cfg 0 0, pads⟩ r₂ := by rw [hwait]
        _ = _ := by rw [Machine.step, next_atBit hbb 0 (by omega)]
    rw [hrise, hrise, Pads.follow_presented _ rfl rfl]

/-- The configuration that a transfer leaves, from any output flops. -/
theorem transfer_config_of_stages (hidle : t.loader.xferState = .idle)
    (hxfer : r.serialXfer = true) (rs : List RegisterMap.Registers) (hlen : rs.length = 497)
    (hbb : ∀ r ∈ rs, r.serialBbEnable = false)
    (hstage : ∀ word ≤ 18, ∀ r, rs[26 * word]? = some r → Stages cfg word r) (pad : Fin 38) :
    ((run Machine.step t (r :: rs)).pads pad).config = Pads.PadConfig.ofWord (cfg pad) := by
  obtain ⟨r₁, rest, rfl⟩ := List.exists_cons_of_length_eq_add_one hlen
  obtain ⟨r₂, rest, rfl⟩ := List.exists_cons_of_length_eq_add_one (Nat.succ.inj hlen)
  obtain ⟨t', hloader, hsettled, hsame⟩ :=
    exists_settled hidle hxfer (hstage 0 (by omega) r₁ rfl) (hbb r₂ (by simp))
  obtain ⟨-, -, hconfig⟩ := transfer_run_of_stages (t := t') (by rw [hloader, hidle]) hsettled
    hxfer (r₁ :: r₂ :: rest) hlen hbb hstage
  rw [← hconfig pad]
  change ((run Machine.step t ([r, r₁, r₂] ++ rest)).pads pad).config =
    ((run Machine.step t' ([r, r₁, r₂] ++ rest)).pads pad).config
  rw [run_append, run_append, hsame]

theorem transfer_config (hidle : t.loader.xferState = .idle) (hxfer : r.serialXfer = true)
    (rs : List RegisterMap.Registers) (hlen : rs.length = 497) (hquiet : ∀ r ∈ rs, Quiet cfg r)
    (pad : Fin 38) :
    ((run Machine.step t (r :: rs)).pads pad).config = Pads.PadConfig.ofWord (cfg pad) :=
  transfer_config_of_stages hidle hxfer rs hlen (fun r hr ↦ (hquiet r hr).bb)
    (fun word _ r hr ↦ (hquiet r (List.mem_of_getElem? hr)).stages word) pad

end Whole

end CaravelSoc.Transfer
