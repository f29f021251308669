import CaravelSoc.Housekeeping.RegisterMap
import Mathlib.Tactic.IntervalCases

/-!
# Agreement of the register tables

`Row.address` is the layout of the map in one formula for each row. The read
table and the write table are both inverse to it, so they agree on every address
and no two addresses share a row; what a strobed write leaves to be read back is
then a fact about rows.
-/

open Sequential

namespace CaravelSoc.RegisterMap

namespace Row

/-- The SPI address of a row. -/
def address : Row → BitVec 8
  | spiStatus => 0x00#8
  | mfgrIdHigh => 0x01#8
  | mfgrIdLow => 0x02#8
  | prodId => 0x03#8
  | maskRev byte => 0x07#8 - BitVec.ofNat 8 byte
  | pllEnables => 0x08#8
  | pllBypass => 0x09#8
  | irq => 0x0a#8
  | reset => 0x0b#8
  | trap => 0x0c#8
  | pllTrimByte byte => 0x0d#8 + BitVec.ofNat 8 byte
  | pllTrimTop => 0x10#8
  | pllSource => 0x11#8
  | pllDivider => 0x12#8
  | gpioControl => 0x13#8
  | powerMonitor => 0x1a#8
  | outputRedirect => 0x1b#8
  | inputRedirect => 0x1c#8
  | gpioConfigureHigh pad => 0x1d#8 + BitVec.ofNat 8 (2 * pad)
  | gpioConfigureLow pad => 0x1e#8 + BitVec.ofNat 8 (2 * pad)
  | gpioDataTop => 0x69#8
  | gpioDataByte byte => 0x6d#8 - BitVec.ofNat 8 byte
  | powerControl => 0x6e#8
  | hkspiDisable => 0x6f#8
  | unmapped => 0x00#8

/-- The bits of a row that a write stores and a read returns. -/
def implementedBits : Row → BitVec 8
  | pllEnables | pllTrimTop | inputRedirect => 0x03#8
  | pllBypass | irq | reset | hkspiDisable => 0x01#8
  | pllTrimByte _ | gpioConfigureLow _ => 0xff#8
  | pllSource => 0x3f#8
  | pllDivider | gpioConfigureHigh _ => 0x1f#8
  | gpioControl => 0x7e#8
  | outputRedirect => 0x07#8
  | powerControl => 0x0f#8
  | spiStatus | mfgrIdHigh | mfgrIdLow | prodId | maskRev _ | trap | powerMonitor | gpioDataTop
  | gpioDataByte _ | unmapped => 0x00#8

end Row

/-- The addresses whose implemented bits read back as written. -/
def readsBack (address : BitVec 8) : Bool :=
  (0x08#8 ≤ address && address ≤ 0x0b#8) || (0x0d#8 ≤ address && address ≤ 0x12#8) ||
    (0x1b#8 ≤ address && address ≤ 0x68#8) || address == 0x6e#8 || address == 0x6f#8

/-- The addresses of the output data, which the read table answers from the pad inputs. -/
def isGpioData (address : BitVec 8) : Bool := 0x69#8 ≤ address && address ≤ 0x6d#8

theorem address_fdataRow : ∀ address, fdataRow address = .unmapped ∨
    (fdataRow address).address = address := by
  decide +kernel

theorem address_writeRow : ∀ address, writeRow address = .unmapped ∨
    (writeRow address).address = address := by
  decide +kernel

theorem fdataRow_eq_writeRow : ∀ address, readsBack address = true →
    fdataRow address = writeRow address := by
  decide +kernel

theorem writeRow_eq_unmapped : ∀ address,
    (readsBack address || isGpioData address || address == 0x13#8) = false →
      writeRow address = .unmapped := by
  decide +kernel

variable (r : Registers) (n : Nets) (cdata : BitVec 8) (spiIsActive : Bool)

/-! ## What a write leaves alone -/

/-- A write of the output data changes the output data and its buffer only. -/
theorem write_gpioDataByte (byte : Fin 4) :
    ∃ data buf, (Row.gpioDataByte byte).write r cdata spiIsActive =
      { r with mgmtGpioData := data, mgmtGpioDataBuf := buf } := by
  match byte, spiIsActive with
  | 0, true | 1, true | 2, true | 3, true => exact ⟨_, _, rfl⟩
  | 0, false | 1, false | 2, false | 3, false => exact ⟨_, _, rfl⟩

/-- A part of one configuration word written, a part of another or a disjoint part read. -/
theorem extractLsb'_update_setPart {w w' : ℕ} (config : Fin mprjIoPads → BitVec 13)
    {pad pad' : Fin mprjIoPads} {lo lo' : ℕ} (v : BitVec w)
    (h : pad' ≠ pad ∨ lo' + w' ≤ lo ∨ lo + w ≤ lo') :
    (Function.update config pad (setPart (config pad) lo v) pad').extractLsb' lo' w' =
      (config pad').extractLsb' lo' w' := by
  by_cases hpad : pad' = pad
  · subst hpad
    rw [Function.update_self]
    exact extractLsb'_setPart_of_disjoint _ _ _ _ (h.resolve_left fun hne ↦ hne rfl)
  · rw [Function.update_of_ne hpad]

/-- No other row can tell that a row was written. -/
theorem read_write_of_ne {row row' : Row} (hne : row' ≠ row) :
    row'.read (row.write r cdata spiIsActive) n = row'.read r n := by
  cases row with
  | gpioDataByte byte =>
    obtain ⟨data, buf, hwrite⟩ := write_gpioDataByte r cdata spiIsActive byte
    rw [hwrite]
    cases row' <;> rfl
  | pllTrimByte byte =>
    cases row' with
    | pllTrimByte byte' =>
      have hbyte : byte'.val ≠ byte.val := fun h ↦ hne (congrArg _ (Fin.ext h))
      exact extractLsb'_setPart_of_disjoint _ _ _ _ (by omega)
    | pllTrimTop =>
      exact congrArg (0#6 ++ ·) (extractLsb'_setPart_of_disjoint _ _ _ _ (by omega))
    | _ => rfl
  | pllTrimTop =>
    cases row' with
    | pllTrimByte byte' => exact extractLsb'_setPart_of_disjoint _ _ _ _ (by omega)
    | pllTrimTop => exact absurd rfl hne
    | _ => rfl
  | gpioConfigureHigh pad =>
    cases row' with
    | gpioConfigureHigh pad' =>
      refine congrArg (0#3 ++ ·) (extractLsb'_update_setPart _ _ (.inl ?_))
      exact fun h ↦ hne (congrArg _ h)
    | gpioConfigureLow pad' => exact extractLsb'_update_setPart _ _ (.inr (.inl (by omega)))
    | _ => rfl
  | gpioConfigureLow pad =>
    cases row' with
    | gpioConfigureHigh pad' =>
      exact congrArg (0#3 ++ ·) (extractLsb'_update_setPart _ _ (.inr (.inr (by omega))))
    | gpioConfigureLow pad' =>
      exact extractLsb'_update_setPart _ _ (.inl fun h ↦ hne (congrArg _ h))
    | _ => rfl
  | _ => cases row' <;> first | rfl | exact absurd rfl hne

/-- No other address can tell that an address was written. -/
theorem fdata_write_of_ne {A B : BitVec 8} (hne : B ≠ A) :
    fdata ((writeRow A).write r cdata spiIsActive) n B = fdata r n B := by
  unfold fdata
  rcases address_writeRow A with hA | hA
  · rw [hA]
    rfl
  · rcases address_fdataRow B with hB | hB
    · rw [hB]
      rfl
    · apply read_write_of_ne
      intro hrow
      rw [hrow, hA] at hB
      exact hne hB.symm

theorem writeRow_eq_gpioControl_iff (A : BitVec 8) : writeRow A = .gpioControl ↔ A = 0x13#8 := by
  constructor
  · intro h
    rcases address_writeRow A with hA | hA
    · simp [hA] at h
    · rw [← hA, h]
      rfl
  · rintro rfl
    rfl

/-- The transfer request is written through the control row only. -/
theorem serialXfer_write (row : Row) :
    (row.write r cdata spiIsActive).serialXfer =
      if row = .gpioControl then cdata.getLsbD 0 else r.serialXfer := by
  cases row with
  | gpioDataByte byte =>
    obtain ⟨data, buf, hwrite⟩ := write_gpioDataByte r cdata spiIsActive byte
    rw [hwrite]
    simp
  | _ => rfl

/-- The enable bit of the bit-bang port is written through the control row only. -/
theorem serialBbEnable_write (row : Row) :
    (row.write r cdata spiIsActive).serialBbEnable =
      if row = .gpioControl then cdata.getLsbD 1 else r.serialBbEnable := by
  cases row with
  | gpioDataByte byte =>
    obtain ⟨data, buf, hwrite⟩ := write_gpioDataByte r cdata spiIsActive byte
    rw [hwrite]
    simp
  | _ => rfl

/-- A configuration word is written through its own two rows only. -/
theorem gpioConfigure_write_of_ne {row : Row} {pad : Fin mprjIoPads}
    (hhigh : row ≠ .gpioConfigureHigh pad) (hlow : row ≠ .gpioConfigureLow pad) :
    (row.write r cdata spiIsActive).gpioConfigure pad = r.gpioConfigure pad := by
  cases row with
  | gpioConfigureHigh pad' =>
    have hne : pad ≠ pad' := by
      rintro rfl
      exact hhigh rfl
    exact Function.update_of_ne hne _ _
  | gpioConfigureLow pad' =>
    have hne : pad ≠ pad' := by
      rintro rfl
      exact hlow rfl
    exact Function.update_of_ne hne _ _
  | gpioDataByte byte =>
    obtain ⟨data, buf, hwrite⟩ := write_gpioDataByte r cdata spiIsActive byte
    rw [hwrite]
  | _ => rfl

/-- The addresses of the configuration words. -/
def isGpioConfigure (address : BitVec 8) : Bool := 0x1d#8 ≤ address && address ≤ 0x68#8

theorem isGpioConfigure_address : ∀ pad,
    isGpioConfigure (Row.gpioConfigureHigh pad).address = true ∧
      isGpioConfigure (Row.gpioConfigureLow pad).address = true := by
  decide

theorem gpioConfigure_write_of_not {A : BitVec 8} (hA : isGpioConfigure A = false) :
    ((writeRow A).write r cdata spiIsActive).gpioConfigure = r.gpioConfigure := by
  funext pad
  obtain ⟨hhigh, hlow⟩ := isGpioConfigure_address pad
  have haddress := address_writeRow A
  apply gpioConfigure_write_of_ne
  · intro hrow
    rcases haddress with hunmapped | hself
    · simp [hunmapped] at hrow
    · rw [← hrow, hself, hA] at hhigh
      simp at hhigh
  · intro hrow
    rcases haddress with hunmapped | hself
    · simp [hunmapped] at hrow
    · rw [← hrow, hself, hA] at hlow
      simp at hlow

/-! ## What a write leaves to be read -/

/-- A byte of single bits, each kept or masked out. -/
theorem byteOf_and (d m : BitVec 8) :
    byteOf (d.getLsbD 7 && m.getLsbD 7) (d.getLsbD 6 && m.getLsbD 6) (d.getLsbD 5 && m.getLsbD 5)
      (d.getLsbD 4 && m.getLsbD 4) (d.getLsbD 3 && m.getLsbD 3) (d.getLsbD 2 && m.getLsbD 2)
      (d.getLsbD 1 && m.getLsbD 1) (d.getLsbD 0 && m.getLsbD 0) = d &&& m := by
  ext i hi
  interval_cases i <;> simp [byteOf]

theorem byteOf_one (d : BitVec 8) :
    byteOf false false false false false false false (d.getLsbD 0) = d &&& 0x01#8 := by
  simpa using byteOf_and d 0x01#8

theorem byteOf_two (d : BitVec 8) :
    byteOf false false false false false false (d.getLsbD 1) (d.getLsbD 0) = d &&& 0x03#8 := by
  simpa using byteOf_and d 0x03#8

theorem byteOf_three (d : BitVec 8) :
    byteOf false false false false false (d.getLsbD 2) (d.getLsbD 1) (d.getLsbD 0) =
      d &&& 0x07#8 := by
  simpa using byteOf_and d 0x07#8

/-- The busy flag in bit 0 is masked out. -/
theorem byteOf_six (d : BitVec 8) (busy : Bool) :
    byteOf false (d.getLsbD 6) (d.getLsbD 5) (d.getLsbD 4) (d.getLsbD 3) (d.getLsbD 2)
      (d.getLsbD 1) busy &&& 0xfe#8 = d &&& 0x7e#8 := by
  ext i hi
  interval_cases i <;> simp [byteOf]

theorem append_two (d : BitVec 8) : 0#6 ++ d.extractLsb' 0 2 = d &&& 0x03#8 :=
  zero_append_extractLsb' (k := 6) (w := 2) d

theorem append_four (d : BitVec 8) : 0#4 ++ d.extractLsb' 0 4 = d &&& 0x0f#8 :=
  zero_append_extractLsb' (k := 4) (w := 4) d

theorem append_five (d : BitVec 8) : 0#3 ++ d.extractLsb' 0 5 = d &&& 0x1f#8 :=
  zero_append_extractLsb' (k := 3) (w := 5) d

theorem append_three_three : ∀ d : BitVec 8,
    0#2 ++ d.extractLsb' 3 3 ++ d.extractLsb' 0 3 = d &&& 0x3f#8 := by
  decide

theorem and_allOnes_eight (d : BitVec 8) : d &&& 0xff#8 = d := BitVec.and_allOnes

/-- A written row reads back its implemented bits; the reset row does so outside pass-through. -/
theorem read_write_self {row : Row} (hbits : row.implementedBits ≠ 0x00#8)
    (hcontrol : row ≠ .gpioControl) (hreset : row = .reset → n.passThruMgmtReset = false) :
    row.read (row.write r cdata spiIsActive) n = cdata &&& row.implementedBits := by
  cases row with
  | pllEnables | inputRedirect => exact byteOf_two cdata
  | pllBypass | irq | hkspiDisable => exact byteOf_one cdata
  | reset =>
    calc
      Row.reset.read (Row.reset.write r cdata spiIsActive) n
      _ = byteOf false false false false false false false (cdata.getLsbD 0) := by
        simp [Row.read, Row.write, resetOut, hreset rfl]
      _ = cdata &&& 0x01#8 := byteOf_one cdata
  | pllTrimByte byte =>
    calc
      (setPart r.pllTrim (8 * byte) cdata).extractLsb' (8 * byte) 8
      _ = cdata := extractLsb'_setPart_self _ _ _ (by omega)
      _ = cdata &&& 0xff#8 := (and_allOnes_eight cdata).symm
  | pllTrimTop =>
    calc
      0#6 ++ (setPart r.pllTrim 24 (cdata.extractLsb' 0 2)).extractLsb' 24 2
      _ = 0#6 ++ cdata.extractLsb' 0 2 := by rw [extractLsb'_setPart_self _ _ _ (by omega)]
      _ = cdata &&& 0x03#8 := append_two cdata
  | pllSource => exact append_three_three cdata
  | pllDivider => exact append_five cdata
  | outputRedirect => exact byteOf_three cdata
  | gpioConfigureHigh pad =>
    simp only [Row.read, Row.write, Function.update_self]
    calc
      0#3 ++ (setPart (r.gpioConfigure pad) 8 (cdata.extractLsb' 0 5)).extractLsb' 8 5
      _ = 0#3 ++ cdata.extractLsb' 0 5 := by rw [extractLsb'_setPart_self _ _ _ (by omega)]
      _ = cdata &&& 0x1f#8 := append_five cdata
  | gpioConfigureLow pad =>
    simp only [Row.read, Row.write, Function.update_self]
    calc
      (setPart (r.gpioConfigure pad) 0 cdata).extractLsb' 0 8
      _ = cdata := extractLsb'_setPart_self _ _ _ (by omega)
      _ = cdata &&& 0xff#8 := (and_allOnes_eight cdata).symm
  | powerControl => exact append_four cdata
  | gpioControl => exact absurd rfl hcontrol
  | spiStatus | mfgrIdHigh | mfgrIdLow | prodId | maskRev | trap | powerMonitor | gpioDataTop
  | gpioDataByte | unmapped => exact absurd rfl hbits

/-- The control row reads back the serial data bits once bit-bang is enabled; bit 0 is the busy
flag. -/
theorem read_write_gpioControl (henable : cdata.getLsbD 1 = true) :
    Row.gpioControl.read (Row.gpioControl.write r cdata spiIsActive) n &&& 0xfe#8 =
      cdata &&& Row.gpioControl.implementedBits := by
  calc
    Row.gpioControl.read (Row.gpioControl.write r cdata spiIsActive) n &&& 0xfe#8
    _ = byteOf false (cdata.getLsbD 6) (cdata.getLsbD 5) (cdata.getLsbD 4) (cdata.getLsbD 3)
        (cdata.getLsbD 2) (cdata.getLsbD 1) n.serialBusy &&& 0xfe#8 := by
      simp [Row.read, Row.write, serialData1, serialData2, henable]
    _ = cdata &&& 0x7e#8 := byteOf_six cdata n.serialBusy

theorem implementedBits_ne_zero : ∀ address, readsBack address = true →
    (writeRow address).implementedBits ≠ 0x00#8 ∧ writeRow address ≠ .gpioControl ∧
      (writeRow address = .reset → address = 0x0b#8) := by
  decide +kernel

/-- A strobed write reads back masked to the implemented bits of its address. -/
theorem fdata_write_self {A : BitVec 8} (hA : readsBack A = true)
    (hreset : A = 0x0b#8 → n.passThruMgmtReset = false) :
    fdata ((writeRow A).write r cdata spiIsActive) n A =
      cdata &&& (writeRow A).implementedBits := by
  obtain ⟨hbits, hcontrol, hrow⟩ := implementedBits_ne_zero A hA
  rw [fdata, fdataRow_eq_writeRow A hA]
  exact read_write_self r n cdata spiIsActive hbits hcontrol fun h ↦ hreset (hrow h)

end CaravelSoc.RegisterMap
