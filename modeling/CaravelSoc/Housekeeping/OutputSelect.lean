import CaravelSoc.Housekeeping.OutputUpdate

/-!
# Byte selects on the GPIO output word

A Wishbone write of the output word strobes the selected bytes only. A lower byte
strobed while the SPI is not active waits in the buffer, and the fourth byte
brings the whole buffer along, selected in this access or not. So the buffer and
the data after an access are settled, byte by byte, by the selects and by the side
each strobed byte goes to. What the buffer holds of a byte that is not selected is
a matter of the writes before: a byte that still waits for the upper one, or the
byte shown, unless a write with the SPI active has bypassed the buffer.
-/

open Sequential

namespace CaravelSoc.Housekeeping

open BackDoor RegisterMap

namespace OutputPort

variable (port : OutputPort) (word : BitVec 32) (active selected : Fin 4 → Bool)

/-- The four edges of an access, each strobed if its byte is selected. -/
theorem foldl_clock_eq {datO : BitVec 32} {bus : Bus} {x₀ x₁ x₂ x₃ : RegisterEdge}
    (h₀ : IsLane datO (0, bus) x₀) (h₁ : IsLane datO (1, bus) x₁) (h₂ : IsLane datO (2, bus) x₂)
    (h₃ : IsLane datO (3, bus) x₃) (hadr : bus.adr = regMprjDatal)
    (hactive : ∀ byte : Fin 4, active byte =
      ([x₀, x₁, x₂, x₃].map RegisterEdge.spiIsActive).getD byte false) :
    [x₀, x₁, x₂, x₃].foldl clock port =
      port.writeBytes bus.dat active ([0, 1, 2, 3].filter (laneWrite bus)) := by
  have hedge : ∀ (byte : Fin 4) (x : RegisterEdge) (port : OutputPort),
      IsLane datO (byte, bus) x → active byte = x.spiIsActive →
        port.clock x = port.writeBytes bus.dat active ([byte].filter (laneWrite bus)) := by
    intro byte x port hlane hside
    cases hstrobe : laneWrite bus byte with
    | true =>
      rw [clock_of_lane hlane hadr hstrobe, ← hside, List.filter_cons_of_pos hstrobe]
      rfl
    | false =>
      rw [List.filter_cons_of_neg (by simp [hstrobe]), clock, hlane.cwstb, hstrobe]
      rfl
  have happend : ∀ (port : OutputPort) (bytes bytes' : List (Fin 4)),
      port.writeBytes bus.dat active (bytes ++ bytes') =
        (port.writeBytes bus.dat active bytes).writeBytes bus.dat active bytes' :=
    fun _ _ _ ↦ List.foldl_append
  have hsplit : ([0, 1, 2, 3] : List (Fin 4)).filter (laneWrite bus) =
      [0].filter (laneWrite bus) ++ [1].filter (laneWrite bus) ++ [2].filter (laneWrite bus) ++
        [3].filter (laneWrite bus) := by
    simp only [← List.filter_append]
    rfl
  rw [hsplit, happend, happend, happend]
  simp only [List.foldl_cons, List.foldl_nil]
  rw [hedge 0 x₀ _ h₀ (hactive 0), hedge 1 x₁ _ h₁ (hactive 1), hedge 2 x₂ _ h₂ (hactive 2),
    hedge 3 x₃ _ h₃ (hactive 3)]

theorem mem_lower_iff (byte : Fin 4) :
    byte ∈ ([0, 1, 2] : List (Fin 4)).filter selected ↔ byte ≠ 3 ∧ selected byte = true := by
  have hlower : ∀ byte : Fin 4, byte ∈ ([0, 1, 2] : List (Fin 4)) ↔ byte ≠ 3 := by decide
  rw [List.mem_filter, hlower]

theorem not_mem_lower : 3 ∉ ([0, 1, 2] : List (Fin 4)).filter selected := by
  simp

/-- The selected bytes with the fourth one last. -/
theorem filter_eq_lower_append : ([0, 1, 2, 3] : List (Fin 4)).filter selected =
    [0, 1, 2].filter selected ++ if selected 3 then [3] else [] := by
  have hsplit : ([0, 1, 2, 3] : List (Fin 4)) = [0, 1, 2] ++ [3] := rfl
  rw [hsplit, List.filter_append, List.filter_singleton]
  cases selected 3 <;> rfl

/-- The upper byte leaves the buffer as it is. -/
theorem buf_writeByte_three (cdata : BitVec 8) (spiIsActive : Bool) :
    (port.writeByte 3 cdata spiIsActive).buf = port.buf := by
  cases spiIsActive <;> rfl

/-- The data after the selected bytes. -/
theorem byte_data_writeBytes_filter (byte : Fin 4) :
    (port.writeBytes word active ([0, 1, 2, 3].filter selected)).data.extractLsb' (8 * byte) 8 =
      if byte = 3 then
        if selected 3 then word.extractLsb' (8 * byte) 8 else port.data.extractLsb' (8 * byte) 8
      else if selected 3 = true ∧ active 3 = false then
        if selected byte = true ∧ active byte = false then word.extractLsb' (8 * byte) 8
        else port.buf.extractLsb' (8 * byte) 8
      else
        if selected byte = true ∧ active byte = true then word.extractLsb' (8 * byte) 8
        else port.data.extractLsb' (8 * byte) 8 := by
  have hdata := byte_data_writeBytes port word active (not_mem_lower selected) byte
  have hbuf := byte_buf_writeBytes port word active (not_mem_lower selected) byte
  simp only [mem_lower_iff] at hdata hbuf
  rw [filter_eq_lower_append]
  cases hthree : selected 3 with
  | false =>
    rw [if_neg Bool.false_ne_true, List.append_nil, hdata]
    by_cases hbyte : byte = 3 <;> simp [hbyte]
  | true =>
    rw [if_pos rfl, writeBytes_concat, byte_data_three, hdata, hbuf]
    by_cases hbyte : byte = 3
    · rw [if_pos hbyte, if_pos hbyte, if_pos rfl, hbyte]
    · cases active 3 <;> simp [hbyte]

/-- The buffer after the selected bytes. -/
theorem byte_buf_writeBytes_filter {byte : Fin 4} (hbyte : byte ≠ 3) :
    (port.writeBytes word active ([0, 1, 2, 3].filter selected)).buf.extractLsb' (8 * byte) 8 =
      if selected byte = true ∧ active byte = false then word.extractLsb' (8 * byte) 8
      else port.buf.extractLsb' (8 * byte) 8 := by
  have hbuf := byte_buf_writeBytes port word active (not_mem_lower selected) byte
  simp only [mem_lower_iff] at hbuf
  rw [filter_eq_lower_append]
  cases selected 3 with
  | false =>
    rw [if_neg Bool.false_ne_true, List.append_nil, hbuf]
    simp [hbyte]
  | true =>
    rw [if_pos rfl, writeBytes_concat, buf_writeByte_three, hbuf]
    simp [hbyte]

end OutputPort

/-! ## What the buffer holds -/

/-- The buffered byte is the one shown, or waits for the upper byte, or is one that a write with the
SPI active has bypassed. -/
inductive BufferedByte
  | shown
  | waiting (byte : BitVec 8)
  | bypassed
  deriving DecidableEq, Repr

namespace BufferedByte

/-- What one edge of the register clock makes of the three lower bytes. -/
def clock (history : Fin 4 → BufferedByte) (x : RegisterEdge) : Fin 4 → BufferedByte :=
  if x.cwstb then
    match writeRow x.caddr with
    | .gpioDataByte byte =>
      if byte = 3 then if x.spiIsActive then history else fun _ ↦ shown
      else Function.update history byte (if x.spiIsActive then bypassed else waiting x.cdata)
    | _ => history
  else history

/-- The buffer holds what the history of the lower bytes says. -/
def Tells (history : Fin 4 → BufferedByte) (port : OutputPort) : Prop :=
  ∀ byte : Fin 4, byte ≠ 3 →
    match history byte with
    | shown => port.buf.extractLsb' (8 * byte) 8 = port.data.extractLsb' (8 * byte) 8
    | waiting waits => port.buf.extractLsb' (8 * byte) 8 = waits
    | bypassed => True

variable {history : Fin 4 → BufferedByte} {port : OutputPort} {x : RegisterEdge}

theorem Tells.writeByte_three (h : Tells history port) (cdata : BitVec 8) (spiIsActive : Bool) :
    Tells (if spiIsActive then history else fun _ ↦ shown)
      (port.writeByte 3 cdata spiIsActive) := by
  intro byte hbyte
  rw [OutputPort.buf_writeByte_three, OutputPort.byte_data_three, if_neg hbyte]
  cases spiIsActive with
  | true => exact h byte hbyte
  | false => rfl

theorem Tells.writeByte_of_ne_three (h : Tells history port) {written : Fin 4}
    (hwritten : written ≠ 3) (cdata : BitVec 8) (spiIsActive : Bool) :
    Tells (Function.update history written (if spiIsActive then bypassed else waiting cdata))
      (port.writeByte written cdata spiIsActive) := by
  intro byte hbyte
  rw [OutputPort.byte_buf_of_ne_three _ _ _ hwritten,
    OutputPort.byte_data_of_ne_three _ _ _ hwritten]
  by_cases heq : byte = written
  · subst heq
    rw [Function.update_self]
    cases spiIsActive <;> simp
  · rw [Function.update_of_ne heq]
    simpa [heq] using h byte hbyte

/-- The step lemma: every edge keeps the history true. -/
theorem Tells.clock (h : Tells history port) : Tells (clock history x) (port.clock x) := by
  unfold BufferedByte.clock OutputPort.clock
  split
  · cases writeRow x.caddr with
    | gpioDataByte byte =>
      by_cases hbyte : byte = 3
      · subst hbyte
        exact h.writeByte_three _ _
      · simp only [if_neg hbyte]
        exact h.writeByte_of_ne_three hbyte _ _
    | _ => exact h
  · exact h

theorem Tells.foldl (h : Tells history port) (edges : List RegisterEdge) :
    Tells (edges.foldl BufferedByte.clock history) (edges.foldl OutputPort.clock port) := by
  induction edges generalizing history port with
  | nil => exact h
  | cons x rest ih => exact ih h.clock

end BufferedByte

/-- The housekeeping with the history of the lower bytes since the register block was reset. -/
structure Recorded where
  current : Housekeeping
  history : Fin 4 → BufferedByte

namespace Recorded

def step (r : Recorded) (e : Event) : Recorded where
  current := r.current.step e
  history :=
    if (r.current.step e).porb then (r.current.registerEdges e).foldl BufferedByte.clock r.history
    else fun _ ↦ .shown

def powerOn (mgmtGpioIn : BitVec 38) (bus : Bus) (status : Status) (datO : BitVec 32) :
    Recorded where
  current := Housekeeping.powerOn mgmtGpioIn bus status datO
  history := fun _ ↦ .shown

/-- The recording takes nothing from the housekeeping. -/
theorem current_run (r : Recorded) (es : List Event) :
    (run step r es).current = run Housekeeping.step r.current es := by
  induction es generalizing r with
  | nil => rfl
  | cons e rest ih => exact ih _

/-- What is recorded is true of the registers. -/
def Faithful (r : Recorded) : Prop :=
  BufferedByte.Tells r.history (OutputPort.ofRegisters r.current.regs)

theorem Faithful.step {r : Recorded} (h : r.Faithful) (e : Event) : (r.step e).Faithful := by
  unfold Faithful Recorded.step
  cases hporb : (r.current.step e).porb with
  | true =>
    rw [if_pos rfl, step_regs hporb]
    have hfold : ∀ (edges : List RegisterEdge) (registers : RegisterMap.Registers),
        OutputPort.ofRegisters (edges.foldl RegisterEdge.apply registers) =
          edges.foldl OutputPort.clock (OutputPort.ofRegisters registers) := by
      intro edges
      induction edges with
      | nil => exact fun _ ↦ rfl
      | cons x rest ih =>
        intro registers
        rw [List.foldl_cons, ih, OutputPort.ofRegisters_apply, List.foldl_cons]
    rw [hfold]
    exact h.foldl _
  | false =>
    have hregs : (r.current.step e).regs = RegisterMap.resetRegisters := by
      change nextRegs r.current (r.current.drive e) = _
      have hporb' : (r.current.drive e).porb = false := hporb
      simp [nextRegs, hporb']
    rw [if_neg Bool.false_ne_true, hregs]
    exact fun _ _ ↦ by simp [OutputPort.ofRegisters, RegisterMap.resetRegisters]

theorem faithful_powerOn {mgmtGpioIn : BitVec 38} {bus : Bus} {status : Status}
    {datO : BitVec 32} : (powerOn mgmtGpioIn bus status datO).Faithful :=
  fun _ _ ↦ by simp [powerOn, OutputPort.ofRegisters, Housekeeping.powerOn,
    RegisterMap.resetRegisters]

theorem faithful_run {r : Recorded} (h : r.Faithful) (es : List Event) :
    (run step r es).Faithful :=
  invariant_run (I := Faithful) (P := fun _ _ ↦ True) (fun _ e ht _ ↦ ht.step e) h
    (along_of_forall fun _ _ ↦ trivial)

end Recorded

variable {s : Housekeeping} {es : List Event}

/-- An edge that writes a byte of the output word. -/
def WritesOutput (x : RegisterEdge) : Prop :=
  x.cwstb = true ∧ ∃ byte, writeRow x.caddr = .gpioDataByte byte

instance : DecidablePred WritesOutput := fun _ ↦ inferInstanceAs (Decidable (_ ∧ _))

theorem clock_of_not_writesOutput {x : RegisterEdge} (hx : ¬WritesOutput x) (port : OutputPort) :
    port.clock x = port := by
  unfold OutputPort.clock
  split
  · next hstrobe =>
    cases hrow : writeRow x.caddr with
    | gpioDataByte byte => exact absurd ⟨hstrobe, byte, hrow⟩ hx
    | _ => rfl
  · rfl

/-- Without SPI writes of the word, the port after a run is what the back door made of it. -/
theorem ofRegisters_run (hrst : Always step OutOfReset s es)
    (hspi : ∀ x ∈ trace step spiEdges s es, ¬WritesOutput x) :
    OutputPort.ofRegisters (run step s es).regs =
      (trace step backDoorEdges s es).foldl OutputPort.clock (OutputPort.ofRegisters s.regs) := by
  have hfold : ∀ (edges : List RegisterEdge) (r : RegisterMap.Registers),
      (∀ x ∈ edges, x.backDoor = false → ¬WritesOutput x) →
        OutputPort.ofRegisters (edges.foldl RegisterEdge.apply r) =
          (edges.filter RegisterEdge.backDoor).foldl OutputPort.clock
            (OutputPort.ofRegisters r) := by
    intro edges
    induction edges with
    | nil => exact fun _ _ ↦ rfl
    | cons x rest ih =>
      intro r hside
      rw [List.forall_mem_cons] at hside
      rw [List.foldl_cons, ih _ hside.2, OutputPort.ofRegisters_apply]
      cases hfront : x.backDoor with
      | true => rw [List.filter_cons_of_pos hfront, List.foldl_cons]
      | false =>
        rw [List.filter_cons_of_neg (by simp [hfront]), clock_of_not_writesOutput (hside.1 hfront)]
  rw [run_regs (hrst.mono fun _ h ↦ h.2), trace_backDoorEdges]
  refine hfold _ _ fun x hx hfront ↦ ?_
  apply hspi
  rw [trace_spiEdges]
  exact List.mem_filter.2 ⟨hx, by simp [hfront]⟩

/-- After the acknowledge of a write of `reg_mprj_datal` with any select, from any state, the upper
byte is the one written, if selected. A write that selects the upper byte while the SPI is not
active commits each lower byte: the one written, if it is selected and went to the buffer, and
otherwise the one buffered before. Any other write changes the selected lower bytes whose strobe
found the SPI active, and no other byte. The buffer takes the remaining selected lower bytes. -/
theorem output_select_bytes (h : AccessRun s es) (hheld : ∀ e ∈ es, e.Held)
    (hadr : s.bus.adr = regMprjDatal) (hwe : s.bus.we = true)
    (hspi : ∀ x ∈ trace step spiEdges s (.wbClk :: es), ¬WritesOutput x) :
    let active := activeStrobes s es
    let selected := fun byte : Fin 4 ↦ s.bus.sel.getLsbD byte
    let after := run step s (.wbClk :: es)
    (∀ byte : Fin 4, (outputData after).extractLsb' (8 * byte) 8 =
      if byte = 3 then
        if selected 3 then s.bus.dat.extractLsb' (8 * byte) 8
        else (outputData s).extractLsb' (8 * byte) 8
      else if selected 3 = true ∧ active 3 = false then
        if selected byte = true ∧ active byte = false then s.bus.dat.extractLsb' (8 * byte) 8
        else s.regs.mgmtGpioDataBuf.extractLsb' (8 * byte) 8
      else
        if selected byte = true ∧ active byte = true then s.bus.dat.extractLsb' (8 * byte) 8
        else (outputData s).extractLsb' (8 * byte) 8) ∧
    ∀ byte : Fin 4, byte ≠ 3 → after.regs.mgmtGpioDataBuf.extractLsb' (8 * byte) 8 =
      if selected byte = true ∧ active byte = false then s.bus.dat.extractLsb' (8 * byte) 8
      else s.regs.mgmtGpioDataBuf.extractLsb' (8 * byte) 8 := by
  intro active selected after
  obtain ⟨x₀, x₁, x₂, x₃, hedges, h₀, h₁, h₂, h₃⟩ := h.four_edges hheld
  have hselected : laneWrite s.bus = selected := by
    funext byte
    rw [laneWrite, hwe, Bool.and_true]
  have hport : OutputPort.ofRegisters after.regs =
      (OutputPort.ofRegisters s.regs).writeBytes s.bus.dat active
        ([0, 1, 2, 3].filter selected) := by
    calc
      OutputPort.ofRegisters after.regs
      _ = [x₀, x₁, x₂, x₃].foldl OutputPort.clock (OutputPort.ofRegisters s.regs) := by
        rw [ofRegisters_run h.always_outOfReset hspi, hedges]
      _ = (OutputPort.ofRegisters s.regs).writeBytes s.bus.dat active
          ([0, 1, 2, 3].filter (laneWrite s.bus)) :=
        OutputPort.foldl_clock_eq _ _ h₀ h₁ h₂ h₃ hadr fun byte ↦ by
          rw [← hedges]
          rfl
      _ = (OutputPort.ofRegisters s.regs).writeBytes s.bus.dat active
          ([0, 1, 2, 3].filter selected) := by rw [hselected]
  have hdata : outputData after = ((OutputPort.ofRegisters s.regs).writeBytes s.bus.dat active
      ([0, 1, 2, 3].filter selected)).data := congrArg OutputPort.data hport
  have hbuf : after.regs.mgmtGpioDataBuf = ((OutputPort.ofRegisters s.regs).writeBytes s.bus.dat
      active ([0, 1, 2, 3].filter selected)).buf := congrArg OutputPort.buf hport
  refine ⟨fun byte ↦ ?_, fun byte hbyte ↦ ?_⟩
  · rw [hdata]
    exact OutputPort.byte_data_writeBytes_filter _ _ _ _ byte
  · rw [hbuf]
    exact OutputPort.byte_buf_writeBytes_filter _ _ _ _ hbyte

/-- **Byte selects.** In every state reached from power-on, through any writes of either side, a
write of `reg_mprj_datal` whose strobes find the SPI inactive does the following. Without the upper
byte it changes no output bit, and the selected lower bytes wait in the buffer. With the upper byte,
every selected byte is the one written; an unselected one is the byte that waited since an earlier
access without the upper byte, and keeps its value when none did and no write with the SPI active
has bypassed the buffer since. -/
theorem output_select (mgmtGpioIn : BitVec 38) (bus : Bus) (status : Status) (datO : BitVec 32)
    (before es : List Event) :
    let r := run Recorded.step (Recorded.powerOn mgmtGpioIn bus status datO) before
    let s := r.current
    let selected := fun byte : Fin 4 ↦ s.bus.sel.getLsbD byte
    let after := run step s (.wbClk :: es)
    AccessRun s es → (∀ e ∈ es, e.Held) → s.bus.adr = regMprjDatal → s.bus.we = true →
    (∀ x ∈ trace step spiEdges s (.wbClk :: es), ¬WritesOutput x) →
    (∀ byte, selected byte = true → activeStrobes s es byte = false) →
      (selected 3 = false → outputData after = outputData s) ∧
      (selected 3 = true →
        (∀ byte : Fin 4, selected byte = true →
          (outputData after).extractLsb' (8 * byte) 8 = s.bus.dat.extractLsb' (8 * byte) 8) ∧
        (∀ (byte : Fin 4) (waits : BitVec 8), selected byte = false →
          r.history byte = .waiting waits →
            (outputData after).extractLsb' (8 * byte) 8 = waits) ∧
        ∀ byte : Fin 4, selected byte = false → r.history byte = .shown →
          (outputData after).extractLsb' (8 * byte) 8 =
            (outputData s).extractLsb' (8 * byte) 8) ∧
      ∀ byte : Fin 4, byte ≠ 3 → after.regs.mgmtGpioDataBuf.extractLsb' (8 * byte) 8 =
        if selected byte then s.bus.dat.extractLsb' (8 * byte) 8
        else s.regs.mgmtGpioDataBuf.extractLsb' (8 * byte) 8 := by
  intro r s selected after h hheld hadr hwe hspi hinactive
  obtain ⟨hdata, hbuf⟩ := output_select_bytes h hheld hadr hwe hspi
  have htells : BufferedByte.Tells r.history (OutputPort.ofRegisters s.regs) :=
    Recorded.faithful_run Recorded.faithful_powerOn before
  have hlower : ∀ byte, selected byte = false → selected 3 = true → byte ≠ 3 := by
    rintro byte hbyte hthree rfl
    exact Bool.false_ne_true (hbyte.symm.trans hthree)
  have hcommitted : ∀ byte, selected byte = false → selected 3 = true →
      (outputData after).extractLsb' (8 * byte) 8 =
        s.regs.mgmtGpioDataBuf.extractLsb' (8 * byte) 8 := by
    intro byte hbyte hthree
    refine (hdata byte).trans ?_
    rw [if_neg (hlower byte hbyte hthree), if_pos ⟨hthree, hinactive 3 hthree⟩,
      if_neg fun hwritten ↦ Bool.false_ne_true (hbyte.symm.trans hwritten.1)]
  refine ⟨fun hthree ↦ eq_of_bytes fun byte ↦ ?_,
    fun hthree ↦ ⟨fun byte hbyte ↦ ?_, fun byte waits hbyte hhistory ↦ ?_,
      fun byte hbyte hhistory ↦ ?_⟩, fun byte hne ↦ ?_⟩
  · refine (hdata byte).trans ?_
    split_ifs with hupper hthree' hcommit hwritten hactive
    · exact absurd (hthree.symm.trans hthree') Bool.false_ne_true
    · rfl
    · exact absurd (hthree.symm.trans hcommit.1) Bool.false_ne_true
    · exact absurd (hthree.symm.trans hcommit.1) Bool.false_ne_true
    · exact absurd ((hinactive byte hactive.1).symm.trans hactive.2) Bool.false_ne_true
    · rfl
  · refine (hdata byte).trans ?_
    by_cases hupper : byte = 3
    · rw [if_pos hupper, if_pos hthree]
    · rw [if_neg hupper, if_pos ⟨hthree, hinactive 3 hthree⟩,
        if_pos ⟨hbyte, hinactive byte hbyte⟩]
  · have hwaits := htells byte (hlower byte hbyte hthree)
    rw [hhistory] at hwaits
    exact (hcommitted byte hbyte hthree).trans hwaits
  · have hshown := htells byte (hlower byte hbyte hthree)
    rw [hhistory] at hshown
    exact (hcommitted byte hbyte hthree).trans hshown
  · refine (hbuf byte hne).trans ?_
    by_cases hbyte : selected byte = true
    · rw [if_pos ⟨hbyte, hinactive byte hbyte⟩, if_pos hbyte]
    · rw [if_neg (fun hcommit ↦ hbyte hcommit.1), if_neg hbyte]

/-- A write of the lowest byte alone. -/
def selectExample : Bus where
  adr := regMprjDatal
  dat := 0x12345678#32
  sel := 0b0001#4
  we := true
  cyc := true
  stb := true

theorem accessRun_selectExample :
    AccessRun (released 0x8#38 selectExample) (List.replicate 8 .wbClk) where
  outOfReset := by decide
  idle := by decide
  request := by decide
  running := by decide
  waiting := by decide
  acked := by decide

/-- From power-on, a write of the lowest byte, and then one of the upper byte. -/
def waitingExample : List Event :=
  [.porb true, .wbRstn true, .wishbone selectExample] ++ List.replicate 10 .wbClk ++
    [.wishbone { selectExample with dat := 0xaa000000#32, sel := 0b1000#4 }]

/-- The upper byte brings the waiting one along and leaves the others. -/
theorem output_select_selectExample :
    let s := (run Recorded.step (Recorded.powerOn 0x8#38 default default 0#32)
      waitingExample).current
    let after := run step s (.wbClk :: List.replicate 8 .wbClk)
    (outputData after).extractLsb' 24 8 = 0xaa#8 ∧ (outputData after).extractLsb' 0 8 = 0x78#8 ∧
      (outputData after).extractLsb' 8 8 = (outputData s).extractLsb' 8 8 := by
  intro s after
  have h : AccessRun s (List.replicate 8 .wbClk) :=
    { outOfReset := by decide +kernel
      idle := by decide +kernel
      request := by decide +kernel
      running := by decide +kernel
      waiting := by decide +kernel
      acked := by decide +kernel }
  obtain ⟨hwritten, hwaiting, hshown⟩ :=
    (output_select 0x8#38 default default 0#32 waitingExample (List.replicate 8 .wbClk) h
      (by decide +kernel) (by decide +kernel) (by decide +kernel) (by decide +kernel)
      (by decide +kernel)).2.1 (by decide +kernel)
  exact ⟨(hwritten 3 (by decide +kernel)).trans (by decide +kernel),
    hwaiting 0 0x78#8 (by decide +kernel) (by decide +kernel),
    hshown 1 (by decide +kernel) (by decide +kernel)⟩

/-- A selected lower byte does not reach the output by itself. -/
theorem output_select_buffered :
    ¬∀ (s : Housekeeping) (es : List Event), AccessRun s es → (∀ e ∈ es, e.Held) →
      s.bus.adr = regMprjDatal → s.bus.we = true →
      (∀ x ∈ trace step spiEdges s (.wbClk :: es), x.cwstb = false) →
        ∀ byte : Fin 4, (outputData (run step s (.wbClk :: es))).extractLsb' (8 * byte) 8 =
          if s.bus.sel.getLsbD byte then s.bus.dat.extractLsb' (8 * byte) 8
          else (outputData s).extractLsb' (8 * byte) 8 := by
  intro h
  have hbyte := h _ _ accessRun_selectExample (by decide) rfl rfl (by decide) 0
  revert hbyte
  decide

end CaravelSoc.Housekeeping
