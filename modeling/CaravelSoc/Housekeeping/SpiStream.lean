import CaravelSoc.Housekeeping.SharedPort

/-!
# The SPI alone

With no Wishbone access the register port belongs to the SPI. One period of CSB
low, whatever its length in bits, writes what the byte protocol asks for, and at
the rising edges of a byte to be read the output shows the readable value of its
address.
-/

open Sequential

namespace CaravelSoc.Housekeeping

open HousekeepingSpi SpiProtocol BackDoor

/-- The register writes of an event, from either side of the port. -/
def registerWrites (s : Housekeeping) (e : Event) : List (BitVec 8 × BitVec 8) :=
  (s.registerEdges e).flatMap RegisterEdge.writes

/-- The SPI is selected and no Wishbone access is in progress. -/
def SpiAlone (s : Housekeeping) : Prop := Selected s ∧ Parked s

instance : DecidablePred SpiAlone := fun _ ↦ instDecidableAnd

variable {s : Housekeeping} {e : Event} {es : List Event} {bits : List Bool}

theorem SpiAlone.portFree (h : SpiAlone s) (e : Event) : PortFree s e :=
  ⟨fun _ _ ↦ h.2.closed, fun _ _ ↦ h.2.closed⟩

theorem along_portFree (h : Always step SpiAlone s es) : Along step PortFree s es :=
  h.along.mono fun _ e ht ↦ ht.1.portFree e

/-- While the port is closed to the back door, every write is the SPI's. -/
theorem registerWrites_eq (hclosed : (s.step e).wbbd.busy = false) :
    s.registerWrites e = s.spiWrites e := by
  have hbusy : (s.drive e).wbbd.busy = false := hclosed
  simp only [registerWrites, spiWrites, spiEdges, registerEdges, hbusy]
  split <;> simp

/-! ## The ends of a period -/

/-- The SPI is in reset while CSB is high, in every state reached from power-on. -/
theorem spi_of_deselected (mgmtGpioIn : BitVec 38) (bus : Bus) (status : Status)
    (datO : BitVec 32) (before : List Event) :
    let s := run step (powerOn mgmtGpioIn bus status datO) before
    s.csbReset = true → s.spi = HousekeepingSpi.reset := by
  refine invariant_run
    (I := fun t : Housekeeping ↦ t.csbReset = true → t.spi = HousekeepingSpi.reset)
    (P := fun _ _ ↦ True) (fun t e _ _ hreset ↦ ?_) (fun _ ↦ rfl)
    (along_of_forall fun _ _ ↦ trivial)
  exact if_pos hreset

theorem sck_csbFalls : (s.drive csbFalls).sck = s.sck := by
  change (setPart s.mgmtGpioIn 3 (BitVec.ofBool false)).getLsbD 4 = s.mgmtGpioIn.getLsbD 4
  rw [getLsbD_setPart _ _ _ _ (by omega), if_neg (by omega)]

/-- The event that selects the SPI leaves it in reset. -/
theorem spi_csbFalls (hspi : s.spi = HousekeepingSpi.reset) :
    (s.step csbFalls).spi = HousekeepingSpi.reset := by
  have hnext : nextSpi s (s.drive csbFalls) = HousekeepingSpi.reset := by
    simp only [nextSpi, sck_csbFalls, drive_spi, hspi]
    cases s.sck <;> simp
  change (if csbReset _ then HousekeepingSpi.reset else nextSpi s (s.drive csbFalls)) = _
  rw [hnext, ite_self]

theorem registerWrites_csbFalls (hspi : s.spi = HousekeepingSpi.reset)
    (hclosed : (s.step csbFalls).wbbd.busy = false) : s.registerWrites csbFalls = [] := by
  have hbusy : (s.drive csbFalls).wbbd.busy = false := hclosed
  simp only [registerWrites, registerEdges]
  split
  · simp [RegisterEdge.writes, cwstb, hbusy, hspi, HousekeepingSpi.reset]
  · rfl

theorem csbPin_csbRises : (s.drive csbRises).csbPin = true := by
  change (setPart s.mgmtGpioIn 3 (BitVec.ofBool true)).getLsbD 3 = true
  rw [getLsbD_setPart _ _ _ _ (by omega), if_pos (by omega)]
  rfl

theorem csbReset_csbRises : (s.step csbRises).csbReset = true := by
  have hpin : (s.step csbRises).csbPin = true := csbPin_csbRises
  simp [csbReset, csb, hpin]

/-- Deselecting the SPI lowers the register clock. -/
theorem registerWrites_csbRises (hclosed : s.wbbd.busy = false) :
    s.registerWrites csbRises = [] := by
  have hbusy : (s.drive csbRises).wbbd.busy = false := hclosed
  have hrises : csclkRises s (s.drive csbRises) = false := by
    simp [csclkRises, csclk, hbusy, spiIsActive, csbPin_csbRises]
  simp [registerWrites, registerEdges, hrises]

theorem spiBits_csbFalls : s.spiBits csbFalls = [] := by
  simp [spiBits, sckRises, sck_csbFalls]

/-- A period begins with no bits clocked in. -/
theorem sharedPort_csbFalls (mgmtGpioIn : BitVec 38) (bus : Bus) (status : Status)
    (datO : BitVec 32) (before : List Event) :
    let s := run step (powerOn mgmtGpioIn bus status datO) before
    s.csbReset = true → SharedPort (s.step csbFalls) [] := by
  intro s hcsb
  refine sharedPort_reset (spi_csbFalls ?_) (portHeld_step ?_)
  · exact spi_of_deselected mgmtGpioIn bus status datO before hcsb
  · exact portHeld_of_reachable mgmtGpioIn bus status datO before

/-! ## Writing -/

/-- **The write stream.** Over one period of CSB low in a run without Wishbone accesses, with the
SPI enabled, the register writes are those that the complete bytes of the period ask for. -/
theorem spi_write_stream (mgmtGpioIn : BitVec 38) (bus : Bus) (status : Status)
    (datO : BitVec 32) (before es : List Event) :
    let s := run step (powerOn mgmtGpioIn bus status datO) before
    s.csbReset = true → Always step SpiAlone (s.step csbFalls) es →
      trace step registerWrites s (csbFalls :: (es ++ [csbRises])) =
        writeList (words 8 (trace step spiBits s (csbFalls :: es))) := by
  intro s hcsb halone
  have hspi : s.spi = HousekeepingSpi.reset :=
    spi_of_deselected mgmtGpioIn bus status datO before hcsb
  have hport := sharedPort_csbFalls mgmtGpioIn bus status datO before hcsb
  have hwrites := (sharedPort_run hport (halone.mono fun _ h ↦ h.1) (along_portFree halone)).2
  rw [List.nil_append, words_nil, writeList_nil, List.nil_append] at hwrites
  calc
    trace step registerWrites s (csbFalls :: (es ++ [csbRises]))
    _ = trace step registerWrites (s.step csbFalls) es := by
      rw [trace, registerWrites_csbFalls hspi halone.head.2.closed, List.nil_append, trace_append,
        trace, registerWrites_csbRises halone.last.2.closed, trace, List.append_nil,
        List.append_nil]
    _ = trace step spiWrites (s.step csbFalls) es :=
      trace_congr (halone.along.mono fun _ _ h ↦ registerWrites_eq h.2.2.closed)
    _ = writeList (words 8 (trace step spiBits (s.step csbFalls) es)) := hwrites.symm
    _ = writeList (words 8 (trace step spiBits s (csbFalls :: es))) := by
      rw [trace, spiBits_csbFalls, List.nil_append]

/-- A command for two bytes, then another one cut off within its data byte. -/
def writeStreamExample : List Event :=
  sendByte 0x90#8 ++ sendByte 0x1b#8 ++ sendByte 0x05#8 ++ sendByte 0x02#8 ++ sendByte 0x80#8 ++
    sendByte 0x11#8 ++ (sendByte 0x3f#8).take 20

set_option maxRecDepth 10000 in
theorem spi_write_stream_writeStreamExample :
    trace step registerWrites (released 0x8#38 default)
      (csbFalls :: (writeStreamExample ++ [csbRises])) = [(0x1b#8, 0x05#8), (0x1c#8, 0x02#8)] := by
  have hbytes : words 8 (trace step spiBits (released 0x8#38 default)
      (csbFalls :: writeStreamExample)) = [0x90#8, 0x1b#8, 0x05#8, 0x02#8, 0x80#8, 0x11#8] := by
    decide
  have hwrites := spi_write_stream 0x8#38 default default 0#32 [.porb true, .wbRstn true]
    writeStreamExample (by decide) (by decide)
  calc
    trace step registerWrites (released 0x8#38 default)
        (csbFalls :: (writeStreamExample ++ [csbRises]))
    _ = writeList (words 8 (trace step spiBits (released 0x8#38 default)
        (csbFalls :: writeStreamExample))) := hwrites
    _ = writeList [0x90#8, 0x1b#8, 0x05#8, 0x02#8, 0x80#8, 0x11#8] := by rw [hbytes]
    _ = [(0x1b#8, 0x05#8), (0x1c#8, 0x02#8)] := by
      simp [writeList, passThrough, fixedLength, dataWrites, writeMode, dataAddress]

/-! ## Reading -/

/-- A byte at the address `a` that is being read is on the output with its current value. -/
def ShowsReadable (s : Housekeeping) (bits : List Bool) (a : BitVec 8) : Prop :=
  ∀ cmd start i, expected bits = .data cmd start i → readMode cmd = true →
    dataAddress start i = a → (s.sck = true → partialWord 8 bits ≠ []) →
      Shows (s.fdata a) s.sck s.spi

/-- The readable value at `a` changes by writes only. -/
def Readable (a : BitVec 8) (s : Housekeeping) (e : Event) : Prop :=
  s.registerWrites e = [] → (s.step e).fdata a = s.fdata a

instance (a : BitVec 8) (s : Housekeeping) (e : Event) : Decidable (Readable a s e) :=
  inferInstanceAs (Decidable (_ → _))

section Step

variable {a : BitVec 8}

/-- Only the last bit of a byte makes a write. -/
theorem SharedPort.registerWrites_eq_nil (h : SharedPort s bits) (halone : SpiAlone s)
    (halone' : SpiAlone (s.step e))
    (hshort : s.sckRises e = true → (partialWord 8 bits).length ≠ 7) :
    s.registerWrites e = [] := by
  have hwrites := h.spiWrites_eq halone.1 halone'.1 (halone.portFree e)
  have hsame : writeList (words 8 (bits ++ s.spiBits e)) = writeList (words 8 bits) := by
    rw [spiBits]
    cases hrise : s.sckRises e with
    | true => rw [if_pos rfl, writeList_append, if_neg (hshort hrise), List.append_nil]
    | false => rw [if_neg (by decide), List.append_nil]
  rw [registerWrites_eq halone'.2.closed]
  rw [hsame] at hwrites
  exact List.self_eq_append_right.1 hwrites

theorem showsReadable_step (h : ShowsReadable s bits a) (hport : SharedPort s bits)
    (halone : SpiAlone s) (halone' : SpiAlone (s.step e)) (hreadable : Readable a s e) :
    ShowsReadable (s.step e) (bits ++ s.spiBits e) a := by
  intro cmd start i hexpected hread haddress hbegun
  cases halone.1.spiEvent halone'.1 with
  | rise hedge hlow hhigh hbits hspi hwbbd =>
    rw [hbits] at hexpected hbegun
    have hleft := hbegun hhigh
    rw [partialWord_append_bit (by omega)] at hleft
    have hshort : (partialWord 8 bits).length ≠ 7 := fun hfull ↦ hleft (if_pos (by omega))
    rw [expected_append, if_neg hshort] at hexpected
    have hkeep := hreadable (hport.registerWrites_eq_nil halone halone' fun _ ↦ hshort)
    have hshows := h cmd start i hexpected hread haddress fun hsck ↦ by simp [hlow] at hsck
    have hcount := hport.tracks.count hshows.state
    rw [hlow] at hshows
    rw [hkeep, hspi, hhigh]
    refine hshows.rise ?_ _
    rw [hcount]
    exact fun hseven ↦ hshort ((ofNat_eq_seven_iff (length_partialWord_le bits)).1 hseven)
  | fall hedge hhigh hlow hbits hspi hwbbd =>
    rw [hbits, List.append_nil] at hexpected
    rw [hlow]
    by_cases hleft : partialWord 8 bits = []
    · subst haddress
      exact hport.capture halone.1 halone'.1 (halone.portFree e) hedge hleft hexpected hread
    · have hshows := h cmd start i hexpected hread haddress fun _ ↦ hleft
      have hnorise : s.sckRises e = true → (partialWord 8 bits).length ≠ 7 := by
        simp [sckRises, hhigh]
      rw [hhigh] at hshows
      rw [hreadable (hport.registerWrites_eq_nil halone halone' hnorise), hspi]
      exact hshows.fall _
  | stay hnorise hsck hbits hspi =>
    rw [hbits, List.append_nil] at hexpected hbegun
    rw [hsck] at hbegun
    have hnone : s.sckRises e = true → (partialWord 8 bits).length ≠ 7 := by simp [hnorise]
    rw [hreadable (hport.registerWrites_eq_nil halone halone' hnone), hspi, hsck]
    exact h cmd start i hexpected hread haddress hbegun

theorem showsReadable_run (h : ShowsReadable s bits a) (hport : SharedPort s bits)
    (halone : Always step SpiAlone s es) (hreadable : Along step (Readable a) s es) :
    ShowsReadable (run step s es) (bits ++ trace step spiBits s es) a := by
  induction es generalizing s bits with
  | nil => simpa [Sequential.run, trace] using h
  | cons e rest ih =>
    have hport' := sharedPort_step hport halone.1.1 halone.2.head.1 (halone.1.portFree e)
    have hnext := showsReadable_step h hport halone.1 halone.2.head hreadable.1
    rw [trace, ← List.append_assoc]
    exact ih hnext hport' halone.2 hreadable.2

end Step

/-- **The read stream.** Over one period of CSB low in a run without Wishbone accesses, with the
SPI enabled and no pass-through command: at a rising edge of SCK the output is enabled exactly for
a bit of a data byte to be read; and if the readable value at the address of that byte has changed
by writes of the period only, the bit is the one of its current value, most significant bit
first. At the edge that writes the byte, that is the value before the write. -/
theorem spi_read_stream (mgmtGpioIn : BitVec 38) (bus : Bus) (status : Status)
    (datO : BitVec 32) (before es : List Event) (e : Event) :
    let s := run step (powerOn mgmtGpioIn bus status datO) before
    let t := run step s (csbFalls :: es)
    let bits := trace step spiBits s (csbFalls :: es)
    s.csbReset = true → Always step SpiAlone (s.step csbFalls) es → t.sckRises e = true →
    nextByte (words 8 bits) ≠ .nothing →
      (t.spi.sdoenb = false ↔
        ∃ cmd start i, nextByte (words 8 bits) = .data cmd start i ∧ readMode cmd = true) ∧
      ∀ cmd start i, nextByte (words 8 bits) = .data cmd start i → readMode cmd = true →
        Along step (Readable (dataAddress start i)) (s.step csbFalls) es →
          sdo t.spi = (t.fdata (dataAddress start i)).getMsbD (bits.length % 8) := by
  intro s t bits hcsb halone hrise hnext
  have hport := sharedPort_csbFalls mgmtGpioIn bus status datO before hcsb
  have hbits : bits = trace step spiBits (s.step csbFalls) es := by
    change trace step spiBits s (csbFalls :: es) = _
    rw [trace, spiBits_csbFalls, List.nil_append]
  have hrun := (sharedPort_run hport (halone.mono fun _ h ↦ h.1) (along_portFree halone)).1
  rw [List.nil_append, ← hbits] at hrun
  have hlow : t.sck = false := by
    simp only [sckRises, Bool.and_eq_true, Bool.not_eq_true'] at hrise
    exact hrise.1
  have htracks : Tracks t.spi false bits := hlow ▸ hrun.tracks
  refine ⟨htracks.sdoenb hnext, fun cmd start i hexpected hread hreadable ↦ ?_⟩
  have hstart : ShowsReadable (s.step csbFalls) [] (dataAddress start i) := by
    intro cmd start i hexpected
    simp [expected, nextByte] at hexpected
  have hshown := showsReadable_run hstart hport halone hreadable
  rw [List.nil_append, ← hbits] at hshown
  have hshows := hshown cmd start i hexpected hread rfl fun hhigh ↦
    absurd (hlow.symm.trans hhigh) (by decide)
  have hshows' : Shows (t.fdata (dataAddress start i)) false t.spi := hlow ▸ hshows
  calc
    sdo t.spi
    _ = (t.fdata (dataAddress start i)).getMsbD t.spi.count.toNat := hshows'.sdo
    _ = (t.fdata (dataAddress start i)).getMsbD (bits.length % 8) := by
      rw [htracks.count hshows'.state, length_partialWord, BitVec.toNat_ofNat, Nat.mod_mod]

/-- A command to read from address `0x01` on, up to the second bit of the second byte. -/
def readStreamExample : List Event :=
  sendByte 0x40#8 ++ sendByte 0x01#8 ++ sendByte 0x00#8 ++ (sendByte 0x00#8).take 3

set_option maxRecDepth 10000 in
theorem spi_read_stream_readStreamExample :
    let t := run step (released 0x8#38 default) (csbFalls :: readStreamExample)
    sdo t.spi = (t.fdata 0x02#8).getMsbD 1 := by
  have hbytes : words 8 (trace step spiBits (released 0x8#38 default)
      (csbFalls :: readStreamExample)) = [0x40#8, 0x01#8, 0x00#8] := by decide
  have hnext : nextByte (words 8 (trace step spiBits (released 0x8#38 default)
      (csbFalls :: readStreamExample))) = .data 0x40#8 0x01#8 1 := by
    rw [hbytes]
    simp [nextByte, passThrough, fixedLength]
  refine (spi_read_stream 0x8#38 default default 0#32 [.porb true, .wbRstn true] readStreamExample
    (.gpioIn 4 true) (by decide) (by decide) (by decide) ?_).2 0x40#8 0x01#8 1 hnext (by decide)
    (by decide)
  exact fun hpass ↦ absurd (hnext.symm.trans hpass) (by decide)

end CaravelSoc.Housekeeping
