import CaravelSoc.Housekeeping.RegisterLaws
import CaravelSoc.Sequential.Framing
import CaravelSoc.Transfer.OneTransfer

/-!
# Loading the pads by bit-bang

With the enable bit of register `0x13` set, the serial lines are the other bits of
that register, and the pad ring sees one change of its lines for each write. A
program of such writes is followed here on the pad ring alone: each pair of
writes, the data bits first under a low and then under a high clock, shifts both
chains by one bit, at whatever pace and whatever else the system does. The last
write lowers the clock and raises the load.
-/

open Sequential Sequential.ShiftRegister

namespace CaravelSoc.Transfer

open Pads (SerialLines Blocks)

/-! ## The pad ring on written lines -/

/-- The pad ring with the lines it last saw. -/
structure Driven where
  lines : SerialLines
  pads : Blocks

def Driven.step (d : Driven) (lines : SerialLines) : Driven where
  lines := lines
  pads := Pads.follow d.lines lines d.pads

/-- The lines of one bit pair. -/
def bitLines (clock : Bool) (bit : Bool × Bool) : SerialLines where
  clock := clock
  load := false
  resetn := true
  data1 := bit.1
  data2 := bit.2

/-- The clock low and the load high, with any data. -/
def loadLines (bit : Bool × Bool) : SerialLines where
  clock := false
  load := true
  resetn := true
  data1 := bit.1
  data2 := bit.2

/-- Each bit pair under a low and a high clock. -/
def pulses (bits : List (Bool × Bool)) : List SerialLines :=
  bits.flatMap fun bit ↦ [bitLines false bit, bitLines true bit]

/-- All bit pairs, then the load. -/
def program (bits : List (Bool × Bool)) (last : Bool × Bool) : List SerialLines :=
  pulses bits ++ [loadLines last]

variable {d : Driven} {bit last : Bool × Bool} {bits : List (Bool × Bool)}

/-- The first pulse shifts what the blocks present; the clock may have been low or high. -/
theorem pulse_run (d : Driven) (bit : Bool × Bool) :
    ∃ chain1 chain2,
      Pads.chain1 (run Driven.step d [bitLines false bit, bitLines true bit]).pads =
        Chain.shift chain1 bit.1 ∧
      Pads.chain2 (run Driven.step d [bitLines false bit, bitLines true bit]).pads =
        Chain.shift chain2 bit.2 := by
  have hpresented : Pads.follow (bitLines false bit) (bitLines true bit)
      (Pads.presented (d.step (bitLines false bit)).pads) =
      Pads.follow (bitLines false bit) (bitLines true bit) (d.step (bitLines false bit)).pads :=
    Pads.follow_presented _ rfl rfl
  have hsettled := Pads.settled_presented (d.step (bitLines false bit)).pads
  refine ⟨Pads.chain1 (Pads.presented (d.step (bitLines false bit)).pads),
    Pads.chain2 (Pads.presented (d.step (bitLines false bit)).pads), ?_, ?_⟩
  · change Pads.chain1 (Pads.follow (bitLines false bit) (bitLines true bit) _) = _
    rw [← hpresented]
    exact Pads.chain1_follow_rise rfl rfl hsettled
  · change Pads.chain2 (Pads.follow (bitLines false bit) (bitLines true bit) _) = _
    rw [← hpresented]
    exact Pads.chain2_follow_rise rfl rfl hsettled

/-- After a high clock the low one settles the flops, and a pulse is one shift. -/
theorem pulse_run_of_high (hclock : d.lines.clock = true) (bit : Bool × Bool) :
    Pads.chain1 (run Driven.step d [bitLines false bit, bitLines true bit]).pads =
        (Pads.chain1 d.pads).shift bit.1 ∧
      Pads.chain2 (run Driven.step d [bitLines false bit, bitLines true bit]).pads =
        (Pads.chain2 d.pads).shift bit.2 := by
  have hrise : d.lines.clockRises (bitLines false bit) = false := by
    simp [SerialLines.clockRises, bitLines]
  have hfall : d.lines.clockFalls (bitLines false bit) = true := by
    simp [SerialLines.clockFalls, bitLines, hclock]
  have hsettled : Pads.Settled (d.step (bitLines false bit)).pads :=
    Pads.follow_settled_of_fall rfl hfall
  have hkeep : ∀ pad, ((d.step (bitLines false bit)).pads pad).shiftRegister =
      (d.pads pad).shiftRegister :=
    Pads.follow_shiftRegister_of_no_rise rfl hrise
  constructor
  · calc
      Pads.chain1 (run Driven.step d [bitLines false bit, bitLines true bit]).pads
      _ = (Pads.chain1 (d.step (bitLines false bit)).pads).shift bit.1 :=
        Pads.chain1_follow_rise rfl rfl hsettled
      _ = (Pads.chain1 d.pads).shift bit.1 := by
        congr 1
        funext i
        exact hkeep _
  · calc
      Pads.chain2 (run Driven.step d [bitLines false bit, bitLines true bit]).pads
      _ = (Pads.chain2 (d.step (bitLines false bit)).pads).shift bit.2 :=
        Pads.chain2_follow_rise rfl rfl hsettled
      _ = (Pads.chain2 d.pads).shift bit.2 := by
        congr 1
        funext i
        exact hkeep _

/-- The induction over the pulses: each leaves the clock high and the load low. -/
theorem pulses_run_of_high (bits : List (Bool × Bool)) (hclock : d.lines.clock = true)
    (hload : d.lines.load = false) :
    (run Driven.step d (pulses bits)).lines.clock = true ∧
      (run Driven.step d (pulses bits)).lines.load = false ∧
      Pads.chain1 (run Driven.step d (pulses bits)).pads =
        (bits.map Prod.fst).foldl Chain.shift (Pads.chain1 d.pads) ∧
      Pads.chain2 (run Driven.step d (pulses bits)).pads =
        (bits.map Prod.snd).foldl Chain.shift (Pads.chain2 d.pads) := by
  induction bits generalizing d with
  | nil => exact ⟨hclock, hload, rfl, rfl⟩
  | cons bit rest ih =>
    obtain ⟨h1, h2⟩ := pulse_run_of_high hclock bit
    have hrest := ih (d := run Driven.step d [bitLines false bit, bitLines true bit]) rfl rfl
    rw [h1, h2] at hrest
    exact hrest

/-- From any lines and any blocks, a program shifts all its bits into the chains and loads every
pad from its shift register. -/
theorem program_run (d : Driven) (last : Bool × Bool) (hbits : bits ≠ []) :
    ∃ blocks chain1 chain2,
      Pads.chain1 blocks = (bits.map Prod.fst).foldl Chain.shift chain1 ∧
      Pads.chain2 blocks = (bits.map Prod.snd).foldl Chain.shift chain2 ∧
      ∀ pad, ((run Driven.step d (program bits last)).pads pad).config =
        Pads.PadConfig.ofWord (blocks pad).shiftRegister := by
  obtain ⟨bit, rest, rfl⟩ := List.exists_cons_of_ne_nil hbits
  obtain ⟨chain1, chain2, h1, h2⟩ := pulse_run d bit
  obtain ⟨hclock, hload, hchain1, hchain2⟩ := pulses_run_of_high rest
    (d := run Driven.step d [bitLines false bit, bitLines true bit]) rfl rfl
  have hsplit : program (bit :: rest) last =
      [bitLines false bit, bitLines true bit] ++ pulses rest ++ [loadLines last] := rfl
  refine ⟨(run Driven.step (run Driven.step d [bitLines false bit, bitLines true bit])
    (pulses rest)).pads, chain1, chain2, ?_, ?_, fun pad ↦ ?_⟩
  · rw [hchain1, h1]
    rfl
  · rw [hchain2, h2]
    rfl
  · rw [hsplit, run_append, run_append]
    exact Pads.follow_config_of_load rfl (by simp [SerialLines.loadRises, hload, loadLines]) pad

/-! ## Register 0x13 -/

/-- The bytes written to register `0x13`. -/
def controlWrites (s : Soc) (e : Event) : List (BitVec 8) :=
  ((s.registerEdges e).filter fun x ↦ x.cwstb && x.caddr == 0x13#8).map RegisterEdge.cdata

/-- The serial lines that a byte written there asks for. -/
def controlLines (cdata : BitVec 8) : SerialLines where
  clock := cdata.getLsbD 4
  load := cdata.getLsbD 3
  resetn := cdata.getLsbD 2
  data1 := cdata.getLsbD 5
  data2 := cdata.getLsbD 6

/-- The enable bit of such a byte. -/
def enables (cdata : BitVec 8) : Bool := cdata.getLsbD 1

/-- The lines held in the bit-bang registers. -/
def bitBangLines (r : RegisterMap.Registers) : SerialLines where
  clock := r.serialBbClock
  load := r.serialBbLoad
  resetn := r.serialBbResetn
  data1 := r.serialBbData1
  data2 := r.serialBbData2

theorem serialLines_eq_bitBangLines {s : Housekeeping} (hbb : s.regs.serialBbEnable = true) :
    s.serialLines = bitBangLines s.regs := by
  simp [Housekeeping.serialLines, bitBangLines, Housekeeping.serialClock, Housekeeping.serialLoad,
    Housekeeping.serialResetn, Housekeeping.serialData1, Housekeeping.serialData2,
    SerialLoader.serialClock, SerialLoader.serialLoad, SerialLoader.serialResetn,
    RegisterMap.serialData1, RegisterMap.serialData2, hbb]

/-- The bit-bang registers are written through the control row only. -/
theorem bitBang_write (row : RegisterMap.Row) (r : RegisterMap.Registers) (cdata : BitVec 8)
    (spiIsActive : Bool) :
    (row.write r cdata spiIsActive).serialBbEnable =
        (if row = .gpioControl then enables cdata else r.serialBbEnable) ∧
      bitBangLines (row.write r cdata spiIsActive) =
        if row = .gpioControl then controlLines cdata else bitBangLines r := by
  cases row with
  | gpioDataByte byte =>
    obtain ⟨data, buf, hwrite⟩ := RegisterMap.write_gpioDataByte r cdata spiIsActive byte
    rw [hwrite]
    exact ⟨rfl, rfl⟩
  | _ => exact ⟨rfl, rfl⟩

theorem bitBang_apply (x : RegisterEdge) (r : RegisterMap.Registers) :
    (x.apply r).serialBbEnable =
        (if x.cwstb && x.caddr == 0x13#8 then enables x.cdata else r.serialBbEnable) ∧
      bitBangLines (x.apply r) =
        if x.cwstb && x.caddr == 0x13#8 then controlLines x.cdata else bitBangLines r := by
  unfold RegisterEdge.apply RegisterMap.posedgeCsclk
  cases hstrobe : x.cwstb with
  | false => exact ⟨rfl, rfl⟩
  | true =>
    obtain ⟨henable, hlines⟩ := bitBang_write (RegisterMap.writeRow x.caddr) r x.cdata
      x.spiIsActive
    simp only [RegisterMap.writeRow_eq_gpioControl_iff] at henable hlines
    simp only [if_true, henable, hlines, Bool.true_and, beq_iff_eq]
    exact ⟨trivial, trivial⟩

variable {s : Soc} {e : Event} {es : List Event}

/-- One event makes at most one write. -/
theorem controlWrites_cases (hporb : (s.step e).hk.porb = true) :
    (controlWrites s e = [] ∧ (s.step e).hk.regs.serialBbEnable = s.hk.regs.serialBbEnable ∧
      bitBangLines (s.step e).hk.regs = bitBangLines s.hk.regs) ∨
    ∃ cdata, controlWrites s e = [cdata] ∧
      (s.step e).hk.regs.serialBbEnable = enables cdata ∧
      bitBangLines (s.step e).hk.regs = controlLines cdata := by
  have hregs : (s.step e).hk.regs = (s.registerEdges e).foldl RegisterEdge.apply s.hk.regs :=
    Housekeeping.step_regs hporb
  rw [hregs, controlWrites]
  rcases s.hk.registerEdges_cases e with hnone | ⟨x, hone⟩
  · left
    rw [Soc.registerEdges, hnone]
    exact ⟨rfl, rfl, rfl⟩
  · obtain ⟨henable, hlines⟩ := bitBang_apply x s.hk.regs
    rw [Soc.registerEdges, hone, List.foldl_cons, List.foldl_nil, henable, hlines]
    cases hx : x.cwstb && x.caddr == 0x13#8 with
    | false =>
      left
      exact ⟨by simp [hx], rfl, rfl⟩
    | true =>
      right
      exact ⟨x.cdata, by simp [hx], rfl, rfl⟩

/-- Writes that enable the bit-bang port and ask for the given lines, the request bit and the
unused bit being free. -/
def AskFor (writes : List (BitVec 8)) (lines : List SerialLines) : Prop :=
  List.Forall₂ (fun cdata l ↦ enables cdata = true ∧ controlLines cdata = l) writes lines

/-- The bit-bang port is enabled and drives the pad ring. -/
structure Drives (s : Soc) (d : Driven) : Prop where
  enabled : s.hk.regs.serialBbEnable = true
  lines : s.hk.serialLines = d.lines
  pads : s.pads = d.pads
  resetn : d.lines.resetn = true

/-- A write with the enable bit is one change of the lines, whatever drove them before. -/
theorem drives_of_write {cdata : BitVec 8} (hporb : (s.step e).hk.porb = true)
    (hwrite : controlWrites s e = [cdata]) (henable : enables cdata = true)
    (hresetn : (controlLines cdata).resetn = true) :
    Drives (s.step e) (Driven.step ⟨s.hk.serialLines, s.pads⟩ (controlLines cdata)) := by
  rcases controlWrites_cases hporb with ⟨hnone, -, -⟩ | ⟨cdata', hone, hbb, hlines⟩
  · simp [hnone] at hwrite
  · obtain rfl : cdata' = cdata := by simpa [hone] using hwrite
    have hbb' : (s.step e).hk.regs.serialBbEnable = true := hbb.trans henable
    have hserial : (s.step e).hk.serialLines = controlLines cdata' :=
      (serialLines_eq_bitBangLines hbb').trans hlines
    refine ⟨hbb', hserial, ?_, hresetn⟩
    simp only [Soc.step, Driven.step]
    rw [← Soc.step_hk, hserial]

/-- Between writes the pad ring stands still. -/
theorem Drives.step_of_no_write (h : Drives s d) (hporb : (s.step e).hk.porb = true)
    (hnone : controlWrites s e = []) : Drives (s.step e) d := by
  rcases controlWrites_cases hporb with ⟨-, hbb, hlines⟩ | ⟨cdata, hone, -, -⟩
  · have hbb' : (s.step e).hk.regs.serialBbEnable = true := hbb.trans h.enabled
    have hserial : (s.step e).hk.serialLines = d.lines := by
      calc
        (s.step e).hk.serialLines = bitBangLines (s.step e).hk.regs :=
          serialLines_eq_bitBangLines hbb'
        _ = bitBangLines s.hk.regs := hlines
        _ = s.hk.serialLines := (serialLines_eq_bitBangLines h.enabled).symm
        _ = d.lines := h.lines
    refine ⟨hbb', hserial, ?_, h.resetn⟩
    rw [← h.pads]
    change Pads.follow s.hk.serialLines (s.step e).hk.serialLines s.pads = s.pads
    rw [hserial, h.lines]
    exact Pads.follow_same h.resetn
  · simp [hone] at hnone

/-- The induction over the run: the pad ring sees the lines that the writes ask for. -/
theorem Drives.run (h : Drives s d) {lines : List SerialLines}
    (hporb : Always Soc.step (fun t ↦ t.hk.porb = true) s es)
    (hwrites : AskFor (trace Soc.step controlWrites s es) lines)
    (hresetn : ∀ l ∈ lines, l.resetn = true) :
    Drives (Sequential.run Soc.step s es) (Sequential.run Driven.step d lines) := by
  induction es generalizing s d lines with
  | nil =>
    obtain rfl : lines = [] := List.forall₂_nil_left_iff.1 hwrites
    exact h
  | cons e rest ih =>
    have hporb' : (s.step e).hk.porb = true := hporb.2.head
    rw [trace] at hwrites
    rcases controlWrites_cases hporb' with ⟨hnone, -, -⟩ | ⟨cdata, hone, -, -⟩
    · rw [hnone, List.nil_append] at hwrites
      exact ih (h.step_of_no_write hporb' hnone) hporb.2 hwrites hresetn
    · rw [hone, List.singleton_append] at hwrites
      obtain ⟨l, rest', hfirst, hrest, rfl⟩ := List.forall₂_cons_left_iff.1 hwrites
      rw [List.forall_mem_cons] at hresetn
      obtain ⟨henable, rfl⟩ := hfirst
      have hnext := drives_of_write hporb' hone henable hresetn.1
      rw [h.lines, h.pads] at hnext
      exact ih hnext hporb.2 hrest hresetn.2

theorem resetn_of_mem_program {l : SerialLines} (hl : l ∈ program bits last) :
    l.resetn = true := by
  simp only [program, pulses, List.mem_append, List.mem_flatMap, List.mem_cons, List.mem_nil_iff,
    or_false] at hl
  rcases hl with ⟨bit, -, rfl | rfl⟩ | rfl <;> rfl

/-- A program of writes shifts all its bits into the chains and loads every pad. -/
theorem program_writes_run (hporb : Always Soc.step (fun t ↦ t.hk.porb = true) s es)
    (hbits : bits ≠ []) (hwrites : AskFor (trace Soc.step controlWrites s es) (program bits last)) :
    ∃ blocks chain1 chain2,
      Pads.chain1 blocks = (bits.map Prod.fst).foldl Chain.shift chain1 ∧
      Pads.chain2 blocks = (bits.map Prod.snd).foldl Chain.shift chain2 ∧
      ∀ pad, ((run Soc.step s es).pads pad).config =
        Pads.PadConfig.ofWord (blocks pad).shiftRegister := by
  obtain ⟨first, rest, hprogram⟩ : ∃ first rest, program bits last = first :: rest := by
    obtain ⟨bit, others, rfl⟩ := List.exists_cons_of_ne_nil hbits
    exact ⟨_, _, rfl⟩
  have hresetn : ∀ l ∈ first :: rest, l.resetn = true := by
    rw [← hprogram]
    exact fun l hl ↦ resetn_of_mem_program hl
  rw [List.forall_mem_cons] at hresetn
  obtain ⟨cdata, writes, ⟨henable, hlines⟩, hrest, htrace⟩ :=
    List.forall₂_cons_right_iff.1 (hprogram ▸ hwrites)
  obtain ⟨front, e, back, ys, rfl, -, hfirst, hwritten⟩ := exists_first_of_trace_eq_cons htrace
  -- what happens before the first write only changes what the blocks hold
  rw [always_append] at hporb
  obtain ⟨-, -, hporbBack⟩ := hporb
  have hporb' : ((run Soc.step s front).step e).hk.porb = true := hporbBack.head
  obtain rfl : ys = [] := by
    rcases controlWrites_cases hporb' with ⟨hnone, -, -⟩ | ⟨cdata', hone, -, -⟩
    · simp [hfirst] at hnone
    · rw [hfirst] at hone
      exact (List.cons.inj hone).2
  have hdrives := drives_of_write hporb' hfirst henable (hlines ▸ hresetn.1)
  rw [hwritten, List.nil_append, run_append] at hrest
  have hrun := hdrives.run hporbBack hrest hresetn.2
  obtain ⟨blocks, chain1, chain2, h1, h2, hconfig⟩ := program_run
    ⟨(run Soc.step s front).hk.serialLines, (run Soc.step s front).pads⟩ last hbits
  refine ⟨blocks, chain1, chain2, h1, h2, fun pad ↦ ?_⟩
  rw [← hconfig pad, hprogram, run_append]
  change ((run Soc.step ((run Soc.step s front).step e) back).pads pad).config = _
  rw [hrun.pads, hlines]
  rfl

/-! ## The two ways to load agree -/

/-- The word of a pad when two bit sequences are split in the order of the chains: pad 18 gets the
first word of chain 1, pad 19 that of chain 2. -/
def sentWord (bits : List (Bool × Bool)) (pad : Fin 38) : BitVec 13 :=
  if pad.val < 19 then (words 13 (bits.map Prod.fst)).getD (18 - pad) 0#13
  else (words 13 (bits.map Prod.snd)).getD (pad - 19) 0#13

theorem program_writes_config (hlen : bits.length = 247)
    (hporb : Always Soc.step (fun t ↦ t.hk.porb = true) s es)
    (hwrites : AskFor (trace Soc.step controlWrites s es) (program bits last)) (pad : Fin 38) :
    ((run Soc.step s es).pads pad).config = Pads.PadConfig.ofWord (sentWord bits pad) := by
  have hne : bits ≠ [] := by
    rintro rfl
    simp at hlen
  obtain ⟨blocks, chain1, chain2, h1, h2, hconfig⟩ := program_writes_run hporb hne hwrites
  have hsplit : ∀ f : Bool × Bool → Bool,
      (words 13 (bits.map f)).flatMap msbFirst = bits.map f :=
    fun f ↦ flatMap_words (by omega) (by rw [List.length_map, hlen])
  rw [← hsplit] at h1 h2
  rw [hconfig, Pads.shiftRegister_of_words (by rw [length_words, List.length_map, hlen])
    (by rw [length_words, List.length_map, hlen]) h1 h2, sentWord]

/-- The pads after an automatic transfer, whatever their output flops showed before. -/
theorem automatic_config {cfg : Fin 38 → BitVec 13} (hidle : s.hk.loader.xferState = .idle)
    (hxfer : s.hk.regs.serialXfer = true)
    (hrun : Always Soc.step (Configured cfg) s (.wbClk :: es))
    (hclocks : (Event.wbClk :: es).count .wbClk = 498) (pad : Fin 38) :
    ((run Soc.step s (.wbClk :: es)).pads pad).config = Pads.PadConfig.ofWord (cfg pad) := by
  obtain ⟨hproj, -⟩ := projects_run (hrun.mono fun _ h ↦ h.1)
  have hquiet : ∀ r ∈ trace Soc.step clockSamples s (.wbClk :: es), Quiet cfg r :=
    forall_mem_clockSamples (hrun.mono fun _ h ↦ ⟨h.1.2, h.2⟩)
  have hlength := length_trace_clockSamples s (.wbClk :: es)
  rw [trace_clockSamples_wbClk] at hproj hquiet hlength
  rw [List.forall_mem_cons] at hquiet
  rw [List.length_cons, hclocks] at hlength
  rw [hproj.2]
  exact transfer_config hidle hxfer _ (Nat.succ.inj hlength) hquiet.2 pad

/-- **Bit-bang loading.** From any state, whatever else happens and at any pace, the writes of a
program of 247 bit pairs to register `0x13` leave in every pad its word of the two sequences. If
these are the configuration words, the pads end up as after an automatic transfer of them. -/
theorem bit_bang_load (s : Soc) (es : List Event) (bits : List (Bool × Bool))
    (last : Bool × Bool) (hlen : bits.length = 247)
    (hporb : Always Soc.step (fun t ↦ t.hk.porb = true) s es)
    (hwrites : AskFor (trace Soc.step controlWrites s es) (program bits last)) :
    (∀ pad, ((run Soc.step s es).pads pad).config =
        Pads.PadConfig.ofWord (sentWord bits pad)) ∧
      ∀ (cfg : Fin 38 → BitVec 13) (s' : Soc) (es' : List Event),
        bits.map Prod.fst = (words1 cfg 0 19).flatMap msbFirst →
        bits.map Prod.snd = (words2 cfg 0 19).flatMap msbFirst →
        s'.hk.loader.xferState = .idle → s'.hk.regs.serialXfer = true →
        Always Soc.step (Configured cfg) s' (.wbClk :: es') →
        (Event.wbClk :: es').count .wbClk = 498 →
          ∀ pad, ((run Soc.step s es).pads pad).config =
            ((run Soc.step s' (.wbClk :: es')).pads pad).config := by
  refine ⟨program_writes_config hlen hporb hwrites, ?_⟩
  intro cfg s' es' hbits1 hbits2 hidle hxfer hrun hclocks pad
  have hne : bits ≠ [] := by
    rintro rfl
    simp at hlen
  obtain ⟨blocks, chain1, chain2, h1, h2, hconfig⟩ := program_writes_run hporb hne hwrites
  rw [hbits1] at h1
  rw [hbits2] at h2
  calc
    ((run Soc.step s es).pads pad).config
    _ = Pads.PadConfig.ofWord (blocks pad).shiftRegister := hconfig pad
    _ = Pads.PadConfig.ofWord (cfg pad) := by rw [chains_hold_words h1 h2]
    _ = ((run Soc.step s' (.wbClk :: es')).pads pad).config :=
      (automatic_config hidle hxfer hrun hclocks pad).symm

/-! ## A program of Wishbone accesses -/

/-- The request of a master that writes one byte to register `0x13`. -/
def controlBus (cdata : BitVec 8) : BackDoor.Bus where
  adr := 0x26000000#32
  dat := cdata.setWidth 32
  sel := 0b0001#4
  we := true
  cyc := true
  stb := true

/-- The access: its acceptance, eight clocks to the acknowledge and one back to idle. -/
def controlAccess (cdata : BitVec 8) : List Event :=
  .wishbone (controlBus cdata) :: List.replicate 10 .wbClk

/-- The back door is in a given state, and the SPI is not selected. -/
structure Waits (state : BackDoor.State) (bus : BackDoor.Bus) (s : Soc) : Prop where
  outOfReset : s.hk.OutOfReset
  state : s.hk.wbbd.state = state
  csbPin : s.hk.csbPin = true
  bus : s.hk.bus = bus

/-- An unselected SPI makes no register edge, and the back door none outside its access states. -/
theorem controlWrites_of_low (hcsb : (s.hk.drive e).csbPin = true)
    (hlow : ((s.hk.drive e).wbbd.busy && (s.hk.drive e).wbbd.sck) = false) :
    controlWrites s e = [] := by
  have hcsclk : (s.hk.drive e).csclk = false := by
    simp only [Housekeeping.csclk, Housekeeping.spiIsActive, hcsb]
    cases hbusy : (s.hk.drive e).wbbd.busy
    · simp
    · simpa [hbusy] using hlow
  simp [controlWrites, Soc.registerEdges, Housekeeping.registerEdges, Housekeeping.csclkRises,
    hcsclk]

variable {state : BackDoor.State} {bus : BackDoor.Bus}

theorem Waits.wbbd_step (h : Waits state bus s) :
    (s.step .wbClk).hk.wbbd = BackDoor.next s.hk.wbbd bus false s.hk.odata := by
  have hfree : s.hk.spiIsBusy = false := by
    simp [Housekeeping.spiIsBusy, Housekeeping.spiIsActive, h.csbPin]
  change (s.hk.drive .wbClk).wbbd = _
  rw [Housekeeping.drive_wbbd_wbClk h.outOfReset.1, h.bus, hfree]

theorem Waits.step (h : Waits state bus s) {state' : BackDoor.State}
    (hnext : (s.step .wbClk).hk.wbbd.state = state') : Waits state' bus (s.step .wbClk) where
  outOfReset := h.outOfReset.step (e := .wbClk) trivial
  state := hnext
  csbPin := h.csbPin
  bus := h.bus

/-- `n` clocks take the back door to `state'` and make the given writes on the way. -/
structure Clocks (bus : BackDoor.Bus) (s : Soc) (n : ℕ) (state' : BackDoor.State)
    (writes : List (BitVec 8)) : Prop where
  waits : Waits state' bus (run Soc.step s (List.replicate n .wbClk))
  writes : trace Soc.step controlWrites s (List.replicate n .wbClk) = writes

theorem Clocks.trans {m n : ℕ} {state' : BackDoor.State} {writes writes' : List (BitVec 8)}
    (h : Clocks bus s m state writes)
    (h' : ∀ t, Waits state bus t → Clocks bus t n state' writes') :
    Clocks bus s (m + n) state' (writes ++ writes') where
  waits := by
    rw [List.replicate_add, run_append]
    exact (h' _ h.waits).waits
  writes := by
    rw [List.replicate_add, trace_append, h.writes, (h' _ h.waits).writes]

/-- A clock that is not the one of an access state writes nothing. -/
theorem Waits.clock_of_low (h : Waits state bus s) {state' : BackDoor.State}
    (hnext : (BackDoor.next s.hk.wbbd bus false s.hk.odata).state = state')
    (hlow : ((BackDoor.next s.hk.wbbd bus false s.hk.odata).busy &&
      (BackDoor.next s.hk.wbbd bus false s.hk.odata).sck) = false) :
    Clocks bus s 1 state' [] := by
  rw [← h.wbbd_step] at hnext hlow
  have hquiet : controlWrites s .wbClk = [] :=
    controlWrites_of_low (e := .wbClk) h.csbPin hlow
  exact ⟨h.step hnext, by simp [trace, hquiet]⟩

/-- What a lane writes to register `0x13`. -/
def laneWrites (bus : BackDoor.Bus) (lane : Fin 4) : List (BitVec 8) :=
  if BackDoor.laneWrite bus lane && BackDoor.laneAddr bus lane == 0x13#8 then
    [BackDoor.laneData bus lane]
  else []

/-- The two clocks of a lane. -/
theorem Waits.lane_clocks {lane : Fin 4} (h : Waits (.setup lane) bus s) :
    Clocks bus s 2 (if lane = 3 then .done else .setup (lane + 1)) (laneWrites bus lane) := by
  have hsetup : BackDoor.next s.hk.wbbd bus false s.hk.odata =
      BackDoor.setup s.hk.wbbd bus false lane :=
    BackDoor.next_setup h.state
  obtain ⟨hrw, hfirst⟩ : Clocks bus s 1 (.rw lane) [] :=
    h.clock_of_low (by rw [hsetup]; rfl) (by rw [hsetup]; rfl)
  have hlatched : (s.step .wbClk).hk.wbbd = BackDoor.setup s.hk.wbbd bus false lane :=
    h.wbbd_step.trans hsetup
  have hrw' : Waits (.rw lane) bus (s.step .wbClk) := hrw
  have hnext : BackDoor.next (s.step .wbClk).hk.wbbd bus false (s.step .wbClk).hk.odata =
      BackDoor.rw (s.step .wbClk).hk.wbbd (s.step .wbClk).hk.odata lane :=
    BackDoor.next_rw hrw'.state
  have hedge := Housekeeping.backDoorEdges_rw hrw'.outOfReset hrw'.state (by rw [hlatched]; rfl)
    (by rw [hlatched]; rfl)
  refine ⟨hrw'.step (by rw [hrw'.wbbd_step, hnext]; rfl), ?_⟩
  have hsecond : controlWrites (s.step .wbClk) .wbClk = laneWrites bus lane := by
    rw [hlatched] at hedge
    rw [controlWrites, Soc.registerEdges, Housekeeping.registerEdges_of_backDoorEdges hedge,
      laneWrites]
    cases hstrobe : BackDoor.laneWrite bus lane with
    | false => simp [BackDoor.setup, hstrobe]
    | true =>
      simp only [BackDoor.setup, hstrobe, if_true, List.filter_cons, List.filter_nil,
        Bool.true_and, beq_iff_eq]
      split <;> rfl
  have hfirst' : controlWrites s .wbClk = [] := by simpa [trace] using hfirst
  simp only [List.replicate, trace, hfirst', hsecond, List.nil_append, List.append_nil]

/-- An access from the idle back door: its acceptance, its four lanes, and back to idle. -/
theorem Waits.access_clocks (h : Waits .idle bus s) (hreq : BackDoor.request bus = true) :
    Clocks bus s 10 .idle
      (laneWrites bus 0 ++ laneWrites bus 1 ++ laneWrites bus 2 ++ laneWrites bus 3) := by
  have haccept : Clocks bus s 1 (.setup 0) [] :=
    h.clock_of_low (by simp [BackDoor.next, h.state, hreq])
      (by simp [BackDoor.next, h.state, hreq])
  have hdone : ∀ t, Waits .done bus t → Clocks bus t 1 .idle [] := fun t ht ↦
    ht.clock_of_low (by simp [BackDoor.next, ht.state]) (by simp [BackDoor.next, ht.state])
  have hall := ((((haccept.trans fun _ ↦ Waits.lane_clocks).trans
    fun _ ↦ Waits.lane_clocks).trans fun _ ↦ Waits.lane_clocks).trans
    fun _ ↦ Waits.lane_clocks).trans hdone
  rw [List.nil_append, List.append_nil] at hall
  exact hall

theorem request_controlBus (cdata : BitVec 8) : BackDoor.request (controlBus cdata) = true := by
  have hsame : BackDoor.request (controlBus cdata) = BackDoor.request (controlBus 0#8) := rfl
  rw [hsame]
  decide

theorem laneWrites_controlBus_zero (cdata : BitVec 8) :
    laneWrites (controlBus cdata) 0 = [cdata] := by
  have hstrobe : BackDoor.laneWrite (controlBus cdata) 0 = true := by
    simp [BackDoor.laneWrite, controlBus]
  have haddr : BackDoor.laneAddr (controlBus cdata) 0 = 0x13#8 := by
    have hsame : BackDoor.laneAddr (controlBus cdata) 0 =
        BackDoor.laneAddr (controlBus 0#8) 0 := rfl
    rw [hsame]
    decide
  have hdata : BackDoor.laneData (controlBus cdata) 0 = cdata := by
    ext i hi
    have hi' : i < 32 := by omega
    simp [BackDoor.laneData, controlBus, hi, hi']
  simp [laneWrites, hstrobe, haddr, hdata]

theorem laneWrites_controlBus_of_ne_zero (cdata : BitVec 8) {lane : Fin 4} (hlane : lane ≠ 0) :
    laneWrites (controlBus cdata) lane = [] := by
  have hstrobe : BackDoor.laneWrite (controlBus cdata) lane = false := by
    simp [BackDoor.laneWrite, controlBus, hlane]
  simp [laneWrites, hstrobe]

/-- The access of a master that writes a byte to register `0x13` writes just that byte. -/
theorem Waits.controlAccess_run (h : Waits .idle bus s) (cdata : BitVec 8) :
    Waits .idle (controlBus cdata) (run Soc.step s (controlAccess cdata)) ∧
      trace Soc.step controlWrites s (controlAccess cdata) = [cdata] := by
  have hbus : Waits .idle (controlBus cdata) (s.step (.wishbone (controlBus cdata))) :=
    ⟨h.outOfReset, h.state, h.csbPin, rfl⟩
  obtain ⟨hwaits, hwrites⟩ := hbus.access_clocks (request_controlBus cdata)
  have hquiet : controlWrites s (.wishbone (controlBus cdata)) = [] := by
    have hcsclk : (s.hk.drive (.wishbone (controlBus cdata))).csclk = s.hk.csclk := rfl
    simp [controlWrites, Soc.registerEdges, Housekeeping.registerEdges, Housekeeping.csclkRises,
      hcsclk]
  rw [controlAccess, run, trace, hquiet, hwrites, laneWrites_controlBus_zero,
    laneWrites_controlBus_of_ne_zero cdata (show (1 : Fin 4) ≠ 0 by decide),
    laneWrites_controlBus_of_ne_zero cdata (show (2 : Fin 4) ≠ 0 by decide),
    laneWrites_controlBus_of_ne_zero cdata (show (3 : Fin 4) ≠ 0 by decide)]
  exact ⟨hwaits, rfl⟩

theorem Waits.controlAccesses_run (h : Waits .idle bus s) (writes : List (BitVec 8)) :
    trace Soc.step controlWrites s (writes.flatMap controlAccess) = writes := by
  induction writes generalizing s bus with
  | nil => rfl
  | cons cdata rest ih =>
    obtain ⟨hwaits, hwrites⟩ := h.controlAccess_run cdata
    rw [List.flatMap_cons, trace_append, hwrites, ih hwaits, List.singleton_append]

/-- The byte that enables the bit-bang port and asks for the given lines. -/
def controlByte (l : SerialLines) : BitVec 8 :=
  RegisterMap.byteOf false l.data2 l.data1 l.clock l.load l.resetn true false

theorem controlLines_controlByte (l : SerialLines) :
    enables (controlByte l) = true ∧ controlLines (controlByte l) = l := by
  obtain ⟨clock, load, resetn, data1, data2⟩ := l
  revert clock load resetn data1 data2
  decide

theorem askFor_controlByte (lines : List SerialLines) : AskFor (lines.map controlByte) lines :=
  List.forall₂_map_left_iff.2 (List.forall₂_same.2 fun l _ ↦ controlLines_controlByte l)

/-- All pads are sent ones on chain 1 and zeros on chain 2. -/
def bitsExample : List (Bool × Bool) := List.replicate 247 (true, false)

/-- The firmware writes them to register `0x13`. -/
def bitBangExample : List Event :=
  ((program bitsExample (false, false)).map controlByte).flatMap controlAccess

theorem bit_bang_load_bitBangExample :
    ((run Soc.step requestedExample bitBangExample).pads 18).config =
      Pads.PadConfig.ofWord (sentWord bitsExample 18) := by
  have hidle : Waits .idle default requestedExample :=
    ⟨by decide, by decide, by decide, rfl⟩
  have hrunning : ∀ e ∈ bitBangExample, e.Running := by
    intro e he
    obtain ⟨cdata, -, hmem⟩ := List.mem_flatMap.1 he
    rw [controlAccess, List.mem_cons] at hmem
    rcases hmem with rfl | hclock
    · trivial
    · rw [List.eq_of_mem_replicate hclock]
      trivial
  have hporb : Always Soc.step (fun t ↦ t.hk.porb = true) requestedExample bitBangExample := by
    refine (always_of_invariant (I := fun t : Soc ↦ t.hk.OutOfReset)
      (P := fun _ e ↦ e.Running) ?_ hidle.outOfReset (along_of_forall hrunning)).mono ?_
    · exact fun t e ht he ↦ ht.step he
    · exact fun t ht ↦ ht.2
  refine (bit_bang_load requestedExample bitBangExample bitsExample (false, false)
    List.length_replicate hporb ?_).1 18
  rw [bitBangExample, hidle.controlAccesses_run]
  exact askFor_controlByte _

end CaravelSoc.Transfer
