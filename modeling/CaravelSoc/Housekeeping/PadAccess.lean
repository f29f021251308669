import CaravelSoc.Housekeeping.AccessLaw
import CaravelSoc.Housekeeping.RegisterLaws

/-!
# Pad configuration words over Wishbone

The third table of the map, the address translation of the back door, meets the
other two: a word access at `0x26000024 + 4k` reaches the low and the high byte
of pad `k` in its first two lanes and unmapped addresses in the others, so that
the Wishbone word is the configuration word of the pad.
-/

open Sequential

namespace CaravelSoc.Housekeeping

open BackDoor RegisterMap

/-- `reg_mprj_io_k`. -/
def regMprjIo (pad : Fin mprjIoPads) : BitVec 32 := 0x26000024#32 + BitVec.ofNat 32 (4 * pad)

theorem spiaddr_regMprjIo : ∀ pad : Fin mprjIoPads,
    spiaddr (regMprjIo pad + BitVec.ofNat 32 (0 : Fin 4)) = (Row.gpioConfigureLow pad).address ∧
      spiaddr (regMprjIo pad + BitVec.ofNat 32 (1 : Fin 4)) =
        (Row.gpioConfigureHigh pad).address ∧
      spiaddr (regMprjIo pad + BitVec.ofNat 32 (2 : Fin 4)) = 0x00#8 ∧
      spiaddr (regMprjIo pad + BitVec.ofNat 32 (3 : Fin 4)) = 0x00#8 := by
  decide

theorem writeRow_gpioConfigure : ∀ pad : Fin mprjIoPads,
    writeRow (Row.gpioConfigureLow pad).address = .gpioConfigureLow pad ∧
      writeRow (Row.gpioConfigureHigh pad).address = .gpioConfigureHigh pad := by
  decide

theorem fdataRow_gpioConfigure : ∀ pad : Fin mprjIoPads,
    fdataRow (Row.gpioConfigureLow pad).address = .gpioConfigureLow pad ∧
      fdataRow (Row.gpioConfigureHigh pad).address = .gpioConfigureHigh pad := by
  decide

variable {s : Housekeeping} {es : List Event} {pad : Fin mprjIoPads}

theorem fdata_gpioConfigureLow (s : Housekeeping) (pad : Fin mprjIoPads) :
    s.fdata (Row.gpioConfigureLow pad).address = (s.regs.gpioConfigure pad).extractLsb' 0 8 := by
  rw [fdata, RegisterMap.fdata, (fdataRow_gpioConfigure pad).1]
  rfl

theorem fdata_gpioConfigureHigh (s : Housekeeping) (pad : Fin mprjIoPads) :
    s.fdata (Row.gpioConfigureHigh pad).address =
      0#3 ++ (s.regs.gpioConfigure pad).extractLsb' 8 5 := by
  rw [fdata, RegisterMap.fdata, (fdataRow_gpioConfigure pad).2]
  rfl

/-- Without an edge of the SPI clock, the register edges are those of the back door. -/
theorem registerEdges_eq_backDoorEdges (hspi : trace step spiEdges s es = []) :
    trace step registerEdges s es = trace step backDoorEdges s es := by
  have hall : ∀ x ∈ trace step registerEdges s es, x.backDoor = true := by
    intro x hx
    by_contra hfront
    have hmem : x ∈ trace step spiEdges s es := by
      rw [trace_spiEdges]
      exact List.mem_filter.2 ⟨hx, by simpa using hfront⟩
    simp [hspi] at hmem
  rw [trace_backDoorEdges]
  exact (List.filter_eq_self.2 hall).symm

/-- Two byte writes put a word together. -/
theorem setPart_low_high (config : BitVec 13) (word : BitVec 32) :
    setPart (setPart config 0 (word.extractLsb' 0 8)) 8 ((word.extractLsb' 8 8).extractLsb' 0 5) =
      word.extractLsb' 0 13 := by
  apply BitVec.eq_of_getLsbD_eq
  intro i hi
  rw [getLsbD_setPart _ _ _ _ hi, getLsbD_setPart _ _ _ _ hi]
  by_cases hlow : i < 8
  · rw [if_neg (by omega), if_pos (by omega)]
    simp [hlow, hi]
  · rw [if_pos (by omega)]
    have hback : 8 + (i - 8) = i := by omega
    have hhigh : i - 8 < 5 := by omega
    have hbyte : i - 8 < 8 := by omega
    simp [hi, hback, hhigh, hbyte]

/-! The bytes of a register extended to 32 bits. -/

theorem low_byte {w : ℕ} (v : BitVec w) :
    v.extractLsb' 0 8 = (v.setWidth 32).extractLsb' 0 8 := by
  apply BitVec.eq_of_getLsbD_eq
  intro i hi
  simp [hi, show i < 32 by omega]

theorem high_byte (config : BitVec 13) :
    0#3 ++ config.extractLsb' 8 5 = (config.setWidth 32).extractLsb' 8 8 := by
  apply BitVec.eq_of_getLsbD_eq
  intro i hi
  rw [BitVec.getLsbD_append]
  by_cases h : i < 5
  · simp [h, hi, show 8 + i < 32 by omega]
  · simp [h, BitVec.getLsbD_of_ge config (8 + i) (by omega)]

theorem upper_byte {w : ℕ} (v : BitVec w) {lo : ℕ} (hlo : w ≤ lo) :
    0#8 = (v.setWidth 32).extractLsb' lo 8 := by
  apply BitVec.eq_of_getLsbD_eq
  intro i _
  simp [BitVec.getLsbD_of_ge v (lo + i) (by omega)]

theorem getLsbD_mask : ∀ i < 32, (0x1fff#32).getLsbD i = decide (i < 13) := by decide

theorem setWidth_config (word : BitVec 32) :
    (word.extractLsb' 0 13).setWidth 32 = word &&& 0x1fff#32 := by
  apply BitVec.eq_of_getLsbD_eq
  intro i hi
  rw [BitVec.getLsbD_and, getLsbD_mask i hi]
  simp [hi, Bool.and_comm]

/-- A word written to `reg_mprj_io_k` sets the configuration of pad `k` and nothing else. -/
theorem AccessRun.write_regMprjIo (h : AccessRun s es) (hheld : ∀ e ∈ es, e.Held)
    (hadr : s.bus.adr = regMprjIo pad) (hsel : s.bus.sel = 0b1111#4) (hwe : s.bus.we = true)
    (hspi : trace step spiEdges s (.wbClk :: es) = []) :
    (run step s (.wbClk :: es)).regs =
      { s.regs with
        gpioConfigure :=
          Function.update s.regs.gpioConfigure pad (s.bus.dat.extractLsb' 0 13) } := by
  obtain ⟨x₀, x₁, x₂, x₃, hedges, h₀, h₁, h₂, h₃⟩ := h.four_edges hheld
  obtain ⟨ha₀, ha₁, ha₂, ha₃⟩ := spiaddr_regMprjIo pad
  obtain ⟨hlow, hhigh⟩ := writeRow_gpioConfigure pad
  have hporb := h.always_outOfReset.mono fun _ ht ↦ ht.2
  have hstrobe : ∀ lane, laneWrite s.bus lane = true := by
    intro lane
    rw [laneWrite, hsel, hwe, Bool.and_true]
    revert lane
    decide
  have hunmapped : writeRow 0x00#8 = .unmapped := rfl
  calc
    (run step s (.wbClk :: es)).regs
    _ = [x₀, x₁, x₂, x₃].foldl RegisterEdge.apply s.regs := by
      rw [run_regs hporb, registerEdges_eq_backDoorEdges hspi, hedges]
    _ = { s.regs with
          gpioConfigure := Function.update s.regs.gpioConfigure pad
            (setPart (setPart (s.regs.gpioConfigure pad) 0 (s.bus.dat.extractLsb' 0 8)) 8
              ((s.bus.dat.extractLsb' 8 8).extractLsb' 0 5)) } := by
      simp only [List.foldl_cons, List.foldl_nil, h₀.apply_of_strobed (hstrobe 0),
        h₁.apply_of_strobed (hstrobe 1), h₂.apply_of_strobed (hstrobe 2),
        h₃.apply_of_strobed (hstrobe 3), laneAddr, hadr, ha₀, ha₁, ha₂, ha₃, hlow, hhigh,
        hunmapped, Row.write, Function.update_self, Function.update_idem]
      rfl
    _ = _ := by rw [setPart_low_high]

/-- A word read makes no strobed edge. -/
theorem AccessRun.not_strobed_of_read (h : AccessRun s es) (hheld : ∀ e ∈ es, e.Held)
    (hwe : s.bus.we = false) :
    ∀ x ∈ trace step backDoorEdges s (.wbClk :: es), x.cwstb = false := by
  obtain ⟨x₀, x₁, x₂, x₃, hedges, h₀, h₁, h₂, h₃⟩ := h.four_edges hheld
  have hstrobe : ∀ lane, laneWrite s.bus lane = false := by simp [laneWrite, hwe]
  rw [hedges]
  simp [h₀.cwstb, h₁.cwstb, h₂.cwstb, h₃.cwstb, hstrobe]

theorem fdata_zero (s : Housekeeping) : s.fdata 0x00#8 = 0x00#8 := rfl

/-- While only lanes without strobe are clocked, the bytes read from a pad are those it had at the
start. -/
theorem before_of_not_strobed (pad : Fin mprjIoPads) (hrst : Always step OutOfReset s es)
    (hstrobe : ∀ x ∈ trace step registerEdges s es, x.cwstb = false) :
    ∀ x ∈ trace step registerEdges s es,
      (x.caddr = (Row.gpioConfigureLow pad).address →
        x.before = (s.regs.gpioConfigure pad).extractLsb' 0 8) ∧
      (x.caddr = (Row.gpioConfigureHigh pad).address →
        x.before = 0#3 ++ (s.regs.gpioConfigure pad).extractLsb' 8 5) ∧
      (x.caddr = 0x00#8 → x.before = 0x00#8) := by
  rw [forall_mem_trace_iff] at hstrobe ⊢
  refine ((hrst.along.and hstrobe).with_invariant
    (I := fun t : Housekeeping ↦ t.regs.gpioConfigure = s.regs.gpioConfigure) ?_ rfl).mono
    fun t e ht x hx ↦ ?_
  · rintro t e hinv ⟨⟨-, hrst'⟩, hlow⟩
    rw [step_regs hrst'.2]
    rcases foldl_apply_of_not_strobed t.regs hlow with hregs | hregs <;> rw [hregs] <;> exact hinv
  · refine ⟨fun hlow ↦ ?_, fun hhigh ↦ ?_, fun hzero ↦ ?_⟩
    · rw [before_eq hx, hlow, fdata_gpioConfigureLow, ht.1]
    · rw [before_eq hx, hhigh, fdata_gpioConfigureHigh, ht.1]
    · rw [before_eq hx, hzero, fdata_zero]

/-- A word read of `reg_mprj_io_k` returns the configuration of pad `k`. -/
theorem AccessRun.read_regMprjIo (h : AccessRun s es) (hheld : ∀ e ∈ es, e.Held)
    (hadr : s.bus.adr = regMprjIo pad) (hwe : s.bus.we = false)
    (hspi : trace step spiEdges s (.wbClk :: es) = []) :
    (run step s (.wbClk :: es)).wbbd.datO = (s.regs.gpioConfigure pad).setWidth 32 := by
  have hstrobe := h.not_strobed_of_read hheld hwe
  rw [← registerEdges_eq_backDoorEdges hspi] at hstrobe
  have hbefore := before_of_not_strobed pad h.always_outOfReset hstrobe
  rw [registerEdges_eq_backDoorEdges hspi] at hbefore
  obtain ⟨x₀, x₁, x₂, x₃, hedges, h₀, h₁, h₂, h₃⟩ := h.four_edges hheld
  obtain ⟨ha₀, ha₁, ha₂, ha₃⟩ := spiaddr_regMprjIo pad
  simp only [hedges, List.forall_mem_cons] at hbefore
  obtain ⟨hb₀, hb₁, hb₂, hb₃, -⟩ := hbefore
  have hadr' : ∀ lane, laneAddr s.bus lane = spiaddr (regMprjIo pad + BitVec.ofNat 32 lane.val) :=
    fun lane ↦ by rw [laneAddr, hadr]
  apply eq_of_bytes
  intro byte
  match byte with
  | 0 =>
    rw [h₀.read, hb₀.1 (by rw [h₀.caddr, hadr', ha₀])]
    exact low_byte _
  | 1 =>
    rw [h₁.read, hb₁.2.1 (by rw [h₁.caddr, hadr', ha₁])]
    exact high_byte _
  | 2 =>
    rw [h₂.read, hb₂.2.2 (by rw [h₂.caddr, hadr', ha₂])]
    exact upper_byte _ (by decide)
  | 3 =>
    rw [h₃.read, hb₃.2.2 (by rw [h₃.caddr, hadr', ha₃])]
    exact upper_byte _ (by decide)

/-- Events without a register edge keep the register map. -/
theorem regs_of_no_edges (hrst : Always step OutOfReset s es)
    (hedges : trace step registerEdges s es = []) : (run step s es).regs = s.regs := by
  rw [run_regs (hrst.mono fun _ h ↦ h.2), hedges]
  rfl

/-- **Agreement of the three tables.** A strobed write reads back its implemented bits at its own
address, is invisible at every other one, and does nothing at an address the write table lacks. A
word written over Wishbone to `reg_mprj_io_k` sets the configuration of pad `k` and no other
register, is seen by the SPI as high byte then low byte, and reads back as its low 13 bits. -/
theorem register_tables_agree :
    (∀ r n A cdata spiIsActive, readsBack A = true →
      (A = 0x0b#8 → n.passThruMgmtReset = false) →
      RegisterMap.fdata (posedgeCsclk r A cdata true spiIsActive) n A =
        cdata &&& (writeRow A).implementedBits) ∧
    (∀ r n (cdata : BitVec 8) spiIsActive, cdata.getLsbD 1 = true →
      RegisterMap.fdata (posedgeCsclk r 0x13#8 cdata true spiIsActive) n 0x13#8 &&& 0xfe#8 =
        cdata &&& 0x7e#8) ∧
    (∀ r n A B cdata spiIsActive, B ≠ A →
      RegisterMap.fdata (posedgeCsclk r A cdata true spiIsActive) n B =
        RegisterMap.fdata r n B) ∧
    (∀ r A cdata spiIsActive, (readsBack A || isGpioData A || A == 0x13#8) = false →
      posedgeCsclk r A cdata true spiIsActive = r) ∧
    ∀ (pad : Fin mprjIoPads) (s : Housekeeping) (es : List Event), AccessRun s es →
      (∀ e ∈ es, e.Held) → s.bus.adr = regMprjIo pad → s.bus.sel = 0b1111#4 →
      s.bus.we = true → trace step spiEdges s (.wbClk :: es) = [] →
      let written := run step s (.wbClk :: es)
      written.regs =
          { s.regs with
            gpioConfigure :=
              Function.update s.regs.gpioConfigure pad (s.bus.dat.extractLsb' 0 13) } ∧
        written.fdata (0x1d#8 + BitVec.ofNat 8 (2 * pad)) = 0#3 ++ s.bus.dat.extractLsb' 8 5 ∧
        written.fdata (0x1e#8 + BitVec.ofNat 8 (2 * pad)) = s.bus.dat.extractLsb' 0 8 ∧
        ∀ between es', (∀ e ∈ between, e.Running) →
          trace step registerEdges written between = [] →
          AccessRun (run step written between) es' → (∀ e ∈ es', e.Held) →
          (run step written between).bus.adr = regMprjIo pad →
          (run step written between).bus.we = false →
          trace step spiEdges (run step written between) (.wbClk :: es') = [] →
            (run step (run step written between) (.wbClk :: es')).wbbd.datO =
              s.bus.dat &&& 0x1fff#32 := by
  refine ⟨fun r n A cdata spiIsActive hA hreset ↦ ?_, fun r n cdata spiIsActive henable ↦ ?_,
    fun r n A B cdata spiIsActive hne ↦ ?_, fun r A cdata spiIsActive hA ↦ ?_, ?_⟩
  · exact fdata_write_self r n cdata spiIsActive hA hreset
  · exact read_write_gpioControl r n cdata spiIsActive henable
  · exact fdata_write_of_ne r n cdata spiIsActive hne
  · rw [posedgeCsclk, if_pos rfl, writeRow_eq_unmapped A hA]
    rfl
  · intro pad s es h hheld hadr hsel hwe hspi written
    have hregs : written.regs = _ := h.write_regMprjIo hheld hadr hsel hwe hspi
    have hconfig : written.regs.gpioConfigure pad = s.bus.dat.extractLsb' 0 13 := by
      rw [hregs]
      exact Function.update_self ..
    refine ⟨hregs, ?_, ?_, ?_⟩
    · calc
        written.fdata (0x1d#8 + BitVec.ofNat 8 (2 * pad))
        _ = 0#3 ++ (written.regs.gpioConfigure pad).extractLsb' 8 5 :=
          fdata_gpioConfigureHigh written pad
        _ = 0#3 ++ s.bus.dat.extractLsb' 8 5 := by
          rw [hconfig, BitVec.extractLsb'_extractLsb'_of_le (by omega)]
    · calc
        written.fdata (0x1e#8 + BitVec.ofNat 8 (2 * pad))
        _ = (written.regs.gpioConfigure pad).extractLsb' 0 8 := fdata_gpioConfigureLow written pad
        _ = s.bus.dat.extractLsb' 0 8 := by
          rw [hconfig, BitVec.extractLsb'_extractLsb'_of_le (by omega)]
    · intro between es' hrun hquiet hread hheld' hadr' hwe' hspi'
      have hwritten : written.OutOfReset := h.always_outOfReset.last
      calc
        (run step (run step written between) (.wbClk :: es')).wbbd.datO
        _ = ((run step written between).regs.gpioConfigure pad).setWidth 32 :=
          hread.read_regMprjIo hheld' hadr' hwe' hspi'
        _ = (s.bus.dat.extractLsb' 0 13).setWidth 32 := by
          rw [regs_of_no_edges (hwritten.always hrun) hquiet, hconfig]
        _ = s.bus.dat &&& 0x1fff#32 := setWidth_config _

/-- After the acknowledge of a write, the master turns to a read of the same word. -/
def turnaroundExample : List Event := [.wbClk, .wishbone readExample]

theorem register_tables_agree_pad_zero :
    (run step (run step (run step (released 0x8#38 writeExample) (List.replicate 9 .wbClk))
      turnaroundExample) (List.replicate 9 .wbClk)).wbbd.datO = 0x12345678#32 &&& 0x1fff#32 := by
  obtain ⟨-, -, -, -, hword⟩ := register_tables_agree
  refine (hword 0 (released 0x8#38 writeExample) (List.replicate 8 .wbClk) accessRun_writeExample
    (by decide) (by decide) (by decide) (by decide) (by decide)).2.2.2 turnaroundExample
    (List.replicate 8 .wbClk) (by decide) (by decide) ?_ (by decide) (by decide)
    (by decide) (by decide)
  exact
    { outOfReset := by decide
      idle := by decide
      request := by decide
      running := by decide
      waiting := by decide
      acked := by decide }

end CaravelSoc.Housekeeping
