import CaravelSoc.Housekeeping.AccessLaw
import CaravelSoc.Sequential.Changes

/-!
# Updates of the GPIO output word

The output data and the buffer behind its lower bytes, as a port of their own.
Each strobed byte goes to the data or to the buffer, according to whether the
SPI is active at that strobe; the fourth byte commits the buffer when it is not.
A word written over Wishbone reaches the output in one step exactly when these
four choices leave a single strobe to change it.
-/

open Sequential

namespace CaravelSoc.Housekeeping

open BackDoor RegisterMap

/-- `mgmt_gpio_data[31:0]` and `mgmt_gpio_data_buf`. -/
structure OutputPort where
  data : BitVec 32
  buf : BitVec 24
  deriving DecidableEq, Repr

namespace OutputPort

def ofRegisters (r : RegisterMap.Registers) : OutputPort where
  data := r.mgmtGpioData.extractLsb' 0 32
  buf := r.mgmtGpioDataBuf

/-- One strobed byte: straight to the data, or to the buffer, which the upper byte commits. -/
def writeByte (port : OutputPort) (byte : Fin 4) (cdata : BitVec 8) (spiIsActive : Bool) :
    OutputPort :=
  if spiIsActive then { port with data := setPart port.data (8 * byte) cdata }
  else if byte = 3 then { port with data := cdata ++ port.buf }
  else { port with buf := setPart port.buf (8 * byte) cdata }

/-- One edge of the register clock, as the port sees it. -/
def clock (port : OutputPort) (x : RegisterEdge) : OutputPort :=
  if x.cwstb then
    match writeRow x.caddr with
    | .gpioDataByte byte => port.writeByte byte x.cdata x.spiIsActive
    | _ => port
  else port

/-- The register block refines the port. -/
theorem ofRegisters_apply (r : RegisterMap.Registers) (x : RegisterEdge) :
    ofRegisters (x.apply r) = (ofRegisters r).clock x := by
  unfold RegisterEdge.apply posedgeCsclk clock
  split
  · cases writeRow x.caddr with
    | gpioDataByte byte =>
      simp only [ofRegisters, writeByte]
      match byte, x.spiIsActive with
      | 0, true | 1, true | 2, true | 3, true =>
        simp [Row.write, extractLsb'_zero_setPart]
      | 0, false | 1, false | 2, false => simp [Row.write]
      | 3, false => simp [Row.write, extractLsb'_setPart_self]
    | gpioDataTop =>
      simp only [ofRegisters, Row.write, OutputPort.mk.injEq, and_true]
      exact extractLsb'_setPart_of_disjoint _ _ _ _ (by omega)
    | _ => rfl
  · rfl

/-! ### Bytes of the port -/

variable (port : OutputPort) (cdata : BitVec 8) (spiIsActive : Bool)

theorem byte_data_of_ne_three {byte : Fin 4} (hbyte : byte ≠ 3) (byte' : Fin 4) :
    (port.writeByte byte cdata spiIsActive).data.extractLsb' (8 * byte') 8 =
      if spiIsActive = true ∧ byte' = byte then cdata
      else port.data.extractLsb' (8 * byte') 8 := by
  cases spiIsActive with
  | true =>
    simp only [writeByte, if_true, true_and, Fin.ext_iff]
    exact byte_setPart _ _ _ _ (by omega)
  | false => simp [writeByte, hbyte]

theorem byte_buf_of_ne_three {byte : Fin 4} (hbyte : byte ≠ 3) (byte' : Fin 4) :
    (port.writeByte byte cdata spiIsActive).buf.extractLsb' (8 * byte') 8 =
      if spiIsActive = false ∧ byte' = byte then cdata
      else port.buf.extractLsb' (8 * byte') 8 := by
  cases spiIsActive with
  | true => simp [writeByte]
  | false =>
    simp only [writeByte, hbyte, Bool.false_eq_true, if_false, true_and, Fin.ext_iff]
    exact byte_setPart _ _ _ _ (by omega)

theorem byte_append (byte : Fin 4) (upper : BitVec 8) (lower : BitVec 24) :
    (upper ++ lower : BitVec 32).extractLsb' (8 * byte) 8 =
      if byte = 3 then upper else lower.extractLsb' (8 * byte) 8 := by
  apply BitVec.eq_of_getLsbD_eq
  intro i hi
  rw [BitVec.getLsbD_extractLsb', BitVec.getLsbD_append]
  by_cases hbyte : byte = 3
  · subst hbyte
    simp [hi]
  · have hlt : 8 * byte.val + i < 24 := by omega
    simp [hbyte, hi, hlt]

theorem byte_data_three (byte' : Fin 4) :
    (port.writeByte 3 cdata spiIsActive).data.extractLsb' (8 * byte') 8 =
      if byte' = 3 then cdata
      else if spiIsActive then port.data.extractLsb' (8 * byte') 8
      else port.buf.extractLsb' (8 * byte') 8 := by
  cases spiIsActive with
  | true =>
    simp only [writeByte, if_true, Fin.ext_iff]
    exact byte_setPart _ 3 _ _ (by omega)
  | false =>
    simp only [writeByte, Bool.false_eq_true, if_false, if_true]
    exact byte_append _ _ _

/-- A lower byte changes the data when it goes straight there and differs. -/
theorem data_eq_writeByte_iff {byte : Fin 4} (hbyte : byte ≠ 3) :
    port.data = (port.writeByte byte cdata spiIsActive).data ↔
      (spiIsActive = true → port.data.extractLsb' (8 * byte) 8 = cdata) := by
  constructor
  · intro h hactive
    rw [h, byte_data_of_ne_three _ _ _ hbyte, if_pos ⟨hactive, rfl⟩]
  · intro h
    apply eq_of_bytes
    intro byte'
    rw [byte_data_of_ne_three _ _ _ hbyte]
    split
    · next hwritten => rw [hwritten.2, h hwritten.1]
    · rfl

end OutputPort

/-- The four bytes of `word` leave a single strobe to change the output. A byte written while the
SPI is active changes it at its own strobe; one written to the buffer changes it at the fourth,
provided the SPI is not active then. -/
def CommitsOnce (active : Fin 4 → Bool) (old : BitVec 32) (buf : BitVec 24) (word : BitVec 32) :
    Prop :=
  (active 3 = false → ∀ byte, byte ≠ 3 → active byte = true →
      buf.extractLsb' (8 * byte) 8 = word.extractLsb' (8 * byte) 8) ∧
    (active 3 = true → ∀ byte, byte ≠ 3 → active byte = false →
      old.extractLsb' (8 * byte) 8 = word.extractLsb' (8 * byte) 8) ∧
    ∃ strobe, ∀ byte, (if active byte then byte else 3) ≠ strobe →
      old.extractLsb' (8 * byte) 8 = word.extractLsb' (8 * byte) 8

namespace OutputPort

/-- The strobes of the listed bytes of a word. -/
def writeBytes (port : OutputPort) (word : BitVec 32) (active : Fin 4 → Bool)
    (bytes : List (Fin 4)) : OutputPort :=
  bytes.foldl (fun port byte ↦
    port.writeByte byte (word.extractLsb' (8 * byte) 8) (active byte)) port

variable (port : OutputPort) (word : BitVec 32) (active : Fin 4 → Bool)

/-- A register byte set by the strobe of its own lane, if `chosen`, and kept by the other lower
strobes holds that lane as soon as it was strobed. -/
theorem byte_writeBytes (field : OutputPort → BitVec 8) (chosen : Prop) [Decidable chosen]
    (byte : Fin 4) {bytes : List (Fin 4)} (hbytes : 3 ∉ bytes)
    (hstep : ∀ (port : OutputPort) (first : Fin 4), first ≠ 3 →
      field (port.writeByte first (word.extractLsb' (8 * first) 8) (active first)) =
        if chosen ∧ byte = first then word.extractLsb' (8 * byte) 8 else field port) :
    field (port.writeBytes word active bytes) =
      if byte ∈ bytes ∧ chosen then word.extractLsb' (8 * byte) 8 else field port := by
  induction bytes generalizing port with
  | nil => simp [writeBytes]
  | cons first rest ih =>
    rw [List.mem_cons, not_or] at hbytes
    calc
      field (port.writeBytes word active (first :: rest))
      _ = if byte ∈ rest ∧ chosen then word.extractLsb' (8 * byte) 8
          else field (port.writeByte first (word.extractLsb' (8 * first) 8) (active first)) :=
        ih _ hbytes.2
      _ = if byte ∈ rest ∧ chosen then word.extractLsb' (8 * byte) 8
          else if chosen ∧ byte = first then word.extractLsb' (8 * byte) 8 else field port := by
        rw [hstep port first (Ne.symm hbytes.1)]
      _ = if byte ∈ first :: rest ∧ chosen then word.extractLsb' (8 * byte) 8
          else field port := by
        simp only [List.mem_cons]
        split_ifs <;> tauto

/-- Before the fourth strobe, the data holds the active bytes written so far. -/
theorem byte_data_writeBytes {bytes : List (Fin 4)} (hbytes : 3 ∉ bytes) (byte : Fin 4) :
    (port.writeBytes word active bytes).data.extractLsb' (8 * byte) 8 =
      if byte ∈ bytes ∧ active byte = true then word.extractLsb' (8 * byte) 8
      else port.data.extractLsb' (8 * byte) 8 := by
  refine byte_writeBytes port word active (fun port ↦ port.data.extractLsb' (8 * byte) 8)
    (active byte = true) byte hbytes fun port first hfirst ↦ ?_
  rw [byte_data_of_ne_three _ _ _ hfirst]
  by_cases hbyte : byte = first
  · rw [hbyte]
  · simp [hbyte]

/-- Before the fourth strobe, the buffer holds the other bytes written so far. -/
theorem byte_buf_writeBytes {bytes : List (Fin 4)} (hbytes : 3 ∉ bytes) (byte : Fin 4) :
    (port.writeBytes word active bytes).buf.extractLsb' (8 * byte) 8 =
      if byte ∈ bytes ∧ active byte = false then word.extractLsb' (8 * byte) 8
      else port.buf.extractLsb' (8 * byte) 8 := by
  refine byte_writeBytes port word active (fun port ↦ port.buf.extractLsb' (8 * byte) 8)
    (active byte = false) byte hbytes fun port first hfirst ↦ ?_
  rw [byte_buf_of_ne_three _ _ _ hfirst]
  by_cases hbyte : byte = first
  · rw [hbyte]
  · simp [hbyte]

theorem writeBytes_concat (bytes : List (Fin 4)) (byte : Fin 4) :
    port.writeBytes word active (bytes ++ [byte]) =
      (port.writeBytes word active bytes).writeByte byte (word.extractLsb' (8 * byte) 8)
        (active byte) :=
  List.foldl_concat ..

/-- The strobe of a lower byte that was not written yet. -/
theorem data_eq_writeBytes_concat_iff {bytes : List (Fin 4)} {byte : Fin 4} (hbytes : 3 ∉ bytes)
    (hbyte : byte ≠ 3) (hnew : byte ∉ bytes) :
    (port.writeBytes word active bytes).data =
        (port.writeBytes word active (bytes ++ [byte])).data ↔
      (active byte = true →
        port.data.extractLsb' (8 * byte) 8 = word.extractLsb' (8 * byte) 8) := by
  have hkept : (port.writeBytes word active bytes).data.extractLsb' (8 * byte) 8 =
      port.data.extractLsb' (8 * byte) 8 := by
    rw [byte_data_writeBytes _ _ _ hbytes, if_neg fun h ↦ hnew h.1]
  rw [writeBytes_concat, data_eq_writeByte_iff _ _ _ hbyte, hkept]

/-- The data after the fourth strobe, byte by byte. -/
theorem byte_data_writeBytes_all (byte : Fin 4) :
    (port.writeBytes word active [0, 1, 2, 3]).data.extractLsb' (8 * byte) 8 =
      if byte ≠ 3 ∧ active 3 = true ∧ active byte = false then
        port.data.extractLsb' (8 * byte) 8
      else if byte ≠ 3 ∧ active 3 = false ∧ active byte = true then
        port.buf.extractLsb' (8 * byte) 8
      else word.extractLsb' (8 * byte) 8 := by
  have hlast : port.writeBytes word active [0, 1, 2, 3] =
      (port.writeBytes word active [0, 1, 2]).writeByte 3 (word.extractLsb' (8 * (3 : Fin 4)) 8)
        (active 3) := rfl
  rw [hlast, byte_data_three, byte_data_writeBytes _ _ _ (by decide),
    byte_buf_writeBytes _ _ _ (by decide)]
  have hmem : byte ∈ ([0, 1, 2] : List (Fin 4)) ↔ byte ≠ 3 := by
    revert byte
    decide
  by_cases hbyte : byte = 3
  · subst hbyte
    simp
  · cases active 3 <;> cases active byte <;> simp [hbyte, hmem]

/-- The data ends up with the word unless a byte was lost to the wrong side. -/
theorem data_writeBytes_all_iff :
    (port.writeBytes word active [0, 1, 2, 3]).data = word ↔
      (active 3 = false → ∀ byte, byte ≠ 3 → active byte = true →
        port.buf.extractLsb' (8 * byte) 8 = word.extractLsb' (8 * byte) 8) ∧
      (active 3 = true → ∀ byte, byte ≠ 3 → active byte = false →
        port.data.extractLsb' (8 * byte) 8 = word.extractLsb' (8 * byte) 8) := by
  have hbytes := byte_data_writeBytes_all port word active
  constructor
  · intro h
    rw [h] at hbytes
    refine ⟨fun hthree byte hbyte hactive ↦ ?_, fun hthree byte hbyte hactive ↦ ?_⟩
    · simpa [hbyte, hthree, hactive] using (hbytes byte).symm
    · simpa [hbyte, hthree, hactive] using (hbytes byte).symm
  · rintro ⟨hbuf, hold⟩
    apply eq_of_bytes
    intro byte
    rw [hbytes]
    split
    · next h => exact hold h.2.1 byte h.1 h.2.2
    · split
      · next h => exact hbuf h.2.1 byte h.1 h.2.2
      · rfl

/-- The fourth strobe of a word that ends up right. -/
theorem data_eq_writeBytes_all_iff
    (h : (port.writeBytes word active [0, 1, 2, 3]).data = word) :
    (port.writeBytes word active [0, 1, 2]).data =
        (port.writeBytes word active [0, 1, 2, 3]).data ↔
      ∀ byte, (if active byte then byte else 3) = 3 →
        port.data.extractLsb' (8 * byte) 8 = word.extractLsb' (8 * byte) 8 := by
  have hmem : ∀ byte : Fin 4, byte ∈ ([0, 1, 2] : List (Fin 4)) ↔ byte ≠ 3 := by decide
  have hbytes := byte_data_writeBytes port word active (show 3 ∉ [0, 1, 2] by decide)
  rw [h]
  constructor
  · intro hword byte hstrobe
    rw [hword] at hbytes
    have hbyte := hbytes byte
    rw [if_neg] at hbyte
    · exact hbyte.symm
    · rintro ⟨hlow, hactive⟩
      rw [if_pos hactive] at hstrobe
      exact (hmem byte).1 hlow hstrobe
  · intro hold
    apply eq_of_bytes
    intro byte
    rw [hbytes]
    split
    · rfl
    · next hnot =>
      apply hold
      rw [hmem] at hnot
      by_cases hactive : active byte = true
      · rw [if_pos hactive]
        by_contra hne
        exact hnot ⟨hne, hactive⟩
      · rw [if_neg hactive]

/-- Of four steps at most one makes a change: all but one do not. -/
theorem length_changes_le_one_iff (w : Fin 5 → BitVec 32) :
    (changes (w 0) [w 1, w 2, w 3, w 4]).length ≤ 1 ↔
      ∃ strobe : Fin 4, ∀ other ≠ strobe, w other.castSucc = w other.succ := by
  have hsteps : ∀ other : Fin 4, w other.castSucc = w other.succ ↔
      match other with
      | 0 => w 0 = w 1
      | 1 => w 1 = w 2
      | 2 => w 2 = w 3
      | 3 => w 3 = w 4 := by
    intro other
    match other with
    | 0 | 1 | 2 | 3 => rfl
  have hlength : ∀ a b : BitVec 32, (if a = b then [] else [(a, b)]).length =
      if a = b then 0 else 1 := fun a b ↦ by split <;> rfl
  simp only [hsteps, changes, List.length_append, List.length_nil, hlength]
  clear hsteps
  generalize w 0 = a, w 1 = b, w 2 = c, w 3 = d, w 4 = e
  simp only [Fin.exists_fin_succ, Fin.forall_fin_succ]
  split_ifs <;> simp_all

/-- The abstract law of the port: a word moves the data in one step exactly when it commits once. -/
theorem singleChange_writeBytes_iff :
    SingleChange port.data word
        [(port.writeBytes word active [0]).data, (port.writeBytes word active [0, 1]).data,
          (port.writeBytes word active [0, 1, 2]).data,
          (port.writeBytes word active [0, 1, 2, 3]).data] ↔
      CommitsOnce active port.data port.buf word := by
  let w : Fin 5 → BitVec 32 := fun n ↦
    (port.writeBytes word active (([0, 1, 2, 3] : List (Fin 4)).take n)).data
  have hlower : ∀ (bytes : List (Fin 4)) {byte : Fin 4}, 3 ∉ bytes → byte ≠ 3 → byte ∉ bytes →
      ((port.writeBytes word active bytes).data =
          (port.writeBytes word active (bytes ++ [byte])).data ↔
        ∀ byte', (if active byte' then byte' else 3) = byte →
          port.data.extractLsb' (8 * byte') 8 = word.extractLsb' (8 * byte') 8) := by
    intro bytes byte hbytes hbyte hnew
    rw [data_eq_writeBytes_concat_iff _ _ _ hbytes hbyte hnew]
    constructor
    · intro h byte' hstrobe
      cases hactive : active byte' with
      | true =>
        obtain rfl : byte' = byte := by simpa [hactive] using hstrobe
        exact h hactive
      | false => exact absurd (by simpa [hactive] using hstrobe) (Ne.symm hbyte)
    · intro h hactive
      exact h byte (if_pos hactive)
  have hsteps : w 4 = word → ∀ strobe : Fin 4, w strobe.castSucc = w strobe.succ ↔
      ∀ byte, (if active byte then byte else 3) = strobe →
        port.data.extractLsb' (8 * byte) 8 = word.extractLsb' (8 * byte) 8 := by
    intro hword strobe
    match strobe with
    | 0 => exact hlower [] (by decide) (by decide) (by decide)
    | 1 => exact hlower [0] (by decide) (by decide) (by decide)
    | 2 => exact hlower [0, 1] (by decide) (by decide) (by decide)
    | 3 => exact data_eq_writeBytes_all_iff port word active hword
  have hlength := length_changes_le_one_iff w
  rw [singleChange_iff, CommitsOnce, ← and_assoc, ← data_writeBytes_all_iff]
  refine and_congr_right fun hword ↦ ?_
  refine Iff.trans hlength (exists_congr fun strobe ↦ ?_)
  constructor
  · intro h byte hne
    exact (hsteps hword _).1 (h _ hne) byte rfl
  · intro h other hne
    exact (hsteps hword other).2 fun byte hbyte ↦ h byte (hbyte ▸ hne)

end OutputPort

/-! ## The port in a run -/

/-- `mgmt_gpio_data[31:0]`. -/
def outputData (s : Housekeeping) : BitVec 32 := s.regs.mgmtGpioData.extractLsb' 0 32

/-- `reg_mprj_datal`. -/
def regMprjDatal : BitVec 32 := 0x2600000c#32

/-- `spi_is_active` at the strobe of each byte of an access. -/
def activeStrobes (s : Housekeeping) (es : List Event) (byte : Fin 4) : Bool :=
  ((trace step backDoorEdges s (.wbClk :: es)).map RegisterEdge.spiIsActive).getD byte false

theorem writeRow_regMprjDatal : ∀ byte : Fin 4,
    writeRow (spiaddr (regMprjDatal + BitVec.ofNat 32 byte)) = .gpioDataByte byte := by
  decide

variable {s : Housekeeping} {es : List Event}

/-- The output changes at strobed register edges only. -/
theorem changes_outputData (hrst : Always step OutOfReset s es)
    (hspi : ∀ x ∈ trace step spiEdges s es, x.cwstb = false) :
    changes (outputData s) (trace step (fun t e ↦ [outputData (t.step e)]) s es) =
      changes (outputData s) ((afterEach OutputPort.clock (OutputPort.ofRegisters s.regs)
        (trace step backDoorEdges s es)).map OutputPort.data) := by
  calc
    changes (outputData s) (trace step (fun t e ↦ [outputData (t.step e)]) s es)
    _ = changes (outputData s) ((afterEach OutputPort.clock (OutputPort.ofRegisters s.regs)
        (trace step registerEdges s es)).map OutputPort.data) := by
      refine changes_run OutputPort.data (fun t : Housekeeping ↦ OutputPort.ofRegisters t.regs)
        OutputPort.clock registerEdges (fun t e ht ↦ ?_) hrst.along
      have hregs := step_regs ht.2.2
      rcases registerEdges_cases t e with hedges | ⟨x, hedges⟩
      · rw [hedges] at hregs
        exact .inl ⟨hedges, congrArg OutputPort.ofRegisters hregs⟩
      · rw [hedges] at hregs
        refine .inr ⟨x, hedges, ?_⟩
        rw [hregs]
        exact OutputPort.ofRegisters_apply t.regs x
    _ = changes (outputData s) ((afterEach OutputPort.clock (OutputPort.ofRegisters s.regs)
        (trace step backDoorEdges s es)).map OutputPort.data) := by
      rw [trace_backDoorEdges]
      refine changes_filter OutputPort.data (fun x hx hfront port ↦ ?_)
        (OutputPort.ofRegisters s.regs)
      have hlow : x.cwstb = false := by
        apply hspi
        rw [trace_spiEdges]
        exact List.mem_filter.2 ⟨hx, by simp [hfront]⟩
      simp [OutputPort.clock, hlow]

theorem OutputPort.clock_of_lane {datO : BitVec 32} {bus : Bus} {byte : Fin 4} {x : RegisterEdge}
    (hlane : IsLane datO (byte, bus) x) (hadr : bus.adr = regMprjDatal)
    (hstrobe : laneWrite bus byte = true) (port : OutputPort) :
    port.clock x = port.writeByte byte (bus.dat.extractLsb' (8 * byte) 8) x.spiIsActive := by
  rw [clock, if_pos (hlane.cwstb.trans hstrobe), hlane.caddr, laneAddr, hadr,
    writeRow_regMprjDatal, hlane.cdata hstrobe]
  rfl

/-- **Updates of the output word.** A word written to `reg_mprj_datal` moves the output from its
old value to the word in one step, and is there at the acknowledge, exactly when its four strobes
commit once. -/
theorem output_update_iff (h : AccessRun s es) (hheld : ∀ e ∈ es, e.Held)
    (hadr : s.bus.adr = regMprjDatal) (hsel : s.bus.sel = 0b1111#4) (hwe : s.bus.we = true)
    (hspi : ∀ x ∈ trace step spiEdges s (.wbClk :: es), x.cwstb = false) :
    (SingleChange (outputData s) s.bus.dat
          (trace step (fun t e ↦ [outputData (t.step e)]) s (.wbClk :: es)) ∧
        outputData (run step s (.wbClk :: es)) = s.bus.dat) ↔
      CommitsOnce (activeStrobes s es) (outputData s) s.regs.mgmtGpioDataBuf s.bus.dat := by
  have hlast := getLastD_trace_values step outputData s (.wbClk :: es)
  have hend : SingleChange (outputData s) s.bus.dat
      (trace step (fun t e ↦ [outputData (t.step e)]) s (.wbClk :: es)) →
        outputData (run step s (.wbClk :: es)) = s.bus.dat := fun hsingle ↦
    hlast.symm.trans ((singleChange_iff _ _ _).1 hsingle).1
  rw [and_iff_left_of_imp hend]
  obtain ⟨x₀, x₁, x₂, x₃, hedges, h₀, h₁, h₂, h₃⟩ := h.four_edges hheld
  have hstrobe : ∀ byte, laneWrite s.bus byte = true := by
    intro byte
    rw [laneWrite, hsel, hwe, Bool.and_true]
    revert byte
    decide
  have hactive : activeStrobes s es 0 = x₀.spiIsActive ∧ activeStrobes s es 1 = x₁.spiIsActive ∧
      activeStrobes s es 2 = x₂.spiIsActive ∧ activeStrobes s es 3 = x₃.spiIsActive := by
    simp [activeStrobes, hedges]
  have hport := OutputPort.singleChange_writeBytes_iff (OutputPort.ofRegisters s.regs) s.bus.dat
    (activeStrobes s es)
  rw [SingleChange, changes_outputData h.always_outOfReset hspi, hedges]
  simp only [afterEach, List.map_cons, List.map_nil,
    OutputPort.clock_of_lane h₀ hadr (hstrobe 0), OutputPort.clock_of_lane h₁ hadr (hstrobe 1),
    OutputPort.clock_of_lane h₂ hadr (hstrobe 2), OutputPort.clock_of_lane h₃ hadr (hstrobe 3)]
  simp only [OutputPort.writeBytes, List.foldl_cons, List.foldl_nil, hactive] at hport
  exact hport

/-- A word for the output. -/
def outputExample : Bus where
  adr := regMprjDatal
  dat := 0x12345678#32
  sel := 0b1111#4
  we := true
  cyc := true
  stb := true

/-- The access with the level of CSB given by bit 3 of the pads. -/
theorem accessRun_outputExample (mgmtGpioIn : BitVec 38)
    (hpads : mgmtGpioIn = 0x8#38 ∨ mgmtGpioIn = 0x0#38) :
    AccessRun (released mgmtGpioIn outputExample) (List.replicate 8 .wbClk) := by
  rcases hpads with rfl | rfl
  all_goals
    exact
      { outOfReset := by decide
        idle := by decide
        request := by decide
        running := by decide
        waiting := by decide
        acked := by decide }

theorem output_update_iff_csb_high :
    SingleChange (outputData (released 0x8#38 outputExample)) 0x12345678#32
        (trace step (fun t e ↦ [outputData (t.step e)]) (released 0x8#38 outputExample)
          (.wbClk :: List.replicate 8 .wbClk)) ∧
      outputData (run step (released 0x8#38 outputExample) (.wbClk :: List.replicate 8 .wbClk)) =
        0x12345678#32 := by
  refine (output_update_iff (accessRun_outputExample 0x8#38 (.inl rfl)) (by decide) rfl rfl rfl
    (by decide)).2 ⟨?_, ?_, 3, ?_⟩
  all_goals decide

/-- With CSB low the word comes in byte by byte. -/
theorem output_update_not_atomic :
    ¬∀ s es, AccessRun s es → (∀ e ∈ es, e.Held) → s.bus.adr = regMprjDatal →
      s.bus.sel = 0b1111#4 → s.bus.we = true →
      (∀ x ∈ trace step spiEdges s (.wbClk :: es), x.cwstb = false) →
        SingleChange (outputData s) s.bus.dat
            (trace step (fun t e ↦ [outputData (t.step e)]) s (.wbClk :: es)) ∧
          outputData (run step s (.wbClk :: es)) = s.bus.dat := by
  intro h
  have hlow := (h _ _ (accessRun_outputExample 0x0#38 (.inr rfl)) (by decide) rfl rfl rfl
    (by decide)).1
  revert hlow
  decide

end CaravelSoc.Housekeeping
