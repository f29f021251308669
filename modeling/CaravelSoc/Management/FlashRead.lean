import CaravelSoc.Management.FlashTransfer

/-!
# Reads of the flash over the bus

A read command, an address and a word, or, where the last read ended, the next
word only. The flash goes on with its address as long as it is selected, so what
it shows depends on all the words read since then.
-/

open Sequential Sequential.ShiftRegister

namespace CaravelSoc.Management

open SpiFlash (Follows OneLine Standby clockIn readCommand shown shown_of_read)
open FlashBus (byteAddress wordAt)

/-! ## The three words -/

def commandWord : PhyWord := ⟨true, 3#32, 8#6, 1#4, 1#8⟩
def addressWord (adr : BitVec 30) : PhyWord := ⟨true, adr ++ 0#2, 24#6, 1#4, 1#8⟩
def dataWord : PhyWord := ⟨true, 0#32, 32#6, 1#4, 0#8⟩

theorem commandWord_onOneLine : commandWord.OnOneLine := ⟨rfl, rfl, by decide, by decide⟩

theorem addressWord_onOneLine (adr : BitVec 30) : (addressWord adr).OnOneLine :=
  ⟨rfl, rfl, (by decide : 0 < (24#6).toNat), (by decide : (24#6).toNat ≤ 32)⟩

theorem addressWord_mask (adr : BitVec 30) : (addressWord adr).mask.getLsbD 0 = true :=
  (by decide : (1#8).getLsbD 0 = true)

theorem dataWord_onOneLine : dataWord.OnOneLine := ⟨rfl, rfl, by decide, by decide⟩

/-- The bits of the command. -/
def commandBits : List Bool := msbFirst 0x03#8

/-- The command and the address, bit by bit. -/
theorem flatMap_readCommand (addr : BitVec 24) :
    (readCommand addr).flatMap msbFirst = commandBits ++ msbFirst addr := by
  have hbytes : addr.extractLsb' 16 8 ++ (addr.extractLsb' 8 8 ++ addr.extractLsb' 0 8) = addr := by
    apply BitVec.eq_of_getLsbD_eq
    intro i hi
    simp only [BitVec.getLsbD_append, BitVec.getLsbD_extractLsb']
    rcases Nat.lt_or_ge i 8 with hlow | hlow
    · simp [hlow, show ¬16 ≤ i by omega]
    · rcases Nat.lt_or_ge i 16 with hmid | hmid
      · simp [hlow.not_gt, hmid, show i - 8 < 8 by omega, show 8 + (i - 8) = i by omega]
      · simp [hmid.not_gt, show i - 16 < 8 by omega, show 16 + (i - 16) = i by omega]
  conv_rhs => rw [← hbytes, msbFirst_append, msbFirst_append]
  simp [readCommand, commandBits]

theorem PhyWord.Sends.prefix_of_mask {w : PhyWord} {sent : List Bool} (h : w.Sends sent)
    (hmask : w.mask.getLsbD 0 = true) (hlen : w.len.toNat ≤ 32) :
    sent <+: msbFirst (w.data.setWidth w.len.toNat) := by
  have hshift : (32#6 - w.len).toNat = 32 - w.len.toNat :=
    BitVec.toNat_sub_of_le (BitVec.le_def.2 hlen)
  have hword := take_msbFirst_shiftLeft w.data hlen
  rw [← hshift] at hword
  change (msbFirst w.loaded).take _ = _ at hword
  rw [h.driven hmask, ← hword]
  exact List.take_prefix_take_left h.length_le

/-- A part of the command and the address asks for the address. -/
theorem oneLine_of_prefix {memory : BitVec 24 → BitVec 8} {chip0 : SpiFlash} (hfresh : chip0.Fresh)
    {bits : List Bool} (addr : BitVec 24) (h : bits <+: commandBits ++ msbFirst addr) :
    OneLine (bits.foldl (clockIn memory) chip0) := by
  rw [← flatMap_readCommand] at h
  have hwords := words_mono (n := 8) (by decide) h
  rw [words_flatMap_msbFirst (by decide)] at hwords
  have hlength := h.length_le
  rw [length_flatMap_stream] at hlength
  change _ ≤ 8 * 4 at hlength
  exact SpiFlash.Requests.oneLine (.inl hwords) hfresh (by omega)

/-! ## Where the flash is -/

/-- `slave_sel[3]`. -/
def InRegion (adr : BitVec 30) : Prop := adr.extractLsb' 22 8 = 16#8
  deriving Decidable

theorem InRegion.bounds {adr : BitVec 30} (h : InRegion adr) :
    16 * 2 ^ 22 ≤ adr.toNat ∧ adr.toNat < 17 * 2 ^ 22 := by
  have htop := congrArg BitVec.toNat h
  rw [BitVec.extractLsb'_toNat, Nat.shiftRight_eq_div_pow] at htop
  have hadr := adr.isLt
  change _ = 16 at htop
  omega

/-- Selected, the flash took the address of the word `first` and then `count` words. -/
structure Positioned (chip0 : SpiFlash) (first : BitVec 30) (count : ℕ) (base : List Bool) :
    Prop where
  fresh : chip0.Fresh
  command : readCommand (byteAddress first) <+: words 8 base
  length : base.length = 32 + 32 * count
  lower : 16 * 2 ^ 22 ≤ first.toNat
  upper : first.toNat + count ≤ 17 * 2 ^ 22

namespace Positioned

variable {memory : BitVec 24 → BitVec 8} {chip0 : SpiFlash} {first : BitVec 30} {count : ℕ}
  {base sent : List Bool}

theorem oneLine (h : Positioned chip0 first count base) (hsent : sent.length ≤ 32) :
    OneLine ((base ++ sent).foldl (clockIn memory) chip0) := by
  have hwords := h.command.trans (words_mono (by decide) (List.prefix_append base sent))
  have hlength := h.length
  have hlower := h.lower
  have hupper := h.upper
  refine SpiFlash.Requests.oneLine (.inr hwords) h.fresh ?_
  rw [List.length_append]
  omega

theorem next (h : Positioned chip0 first count base) (hsent : sent.length = 32)
    (hregion : InRegion (first + BitVec.ofNat 30 count)) :
    Positioned chip0 first (count + 1) (base ++ sent) := by
  have hbounds := hregion.bounds
  have hlower := h.lower
  have hupper := h.upper
  rw [BitVec.toNat_add, BitVec.toNat_ofNat] at hbounds
  refine ⟨h.fresh, h.command.trans (words_mono (by decide) (List.prefix_append base sent)), ?_,
    h.lower, by omega⟩
  rw [List.length_append, h.length, hsent, Nat.mul_succ, Nat.add_assoc]

theorem byteAddress_add (first : BitVec 30) (count : ℕ) :
    byteAddress (first + BitVec.ofNat 30 count) =
      byteAddress first + BitVec.ofNat 24 (4 * count) := by
  have hshift : ∀ adr : BitVec 30, (byteAddress adr).toNat = adr.toNat * 4 % 2 ^ 24 := by
    intro adr
    rw [byteAddress, BitVec.toNat_setWidth, BitVec.toNat_append, Nat.shiftLeft_eq,
      show (0#2).toNat = 0 from rfl, Nat.or_zero]
  rw [← BitVec.toNat_inj, BitVec.toNat_add, hshift, hshift, BitVec.toNat_add, BitVec.toNat_ofNat,
    BitVec.toNat_ofNat]
  omega

end Positioned

/-- A word of the flash, its first byte on top. -/
def flashWord (memory : BitVec 24 → BitVec 8) (adr : BitVec 30) : BitVec 32 :=
  memory (byteAddress adr) ++ (memory (byteAddress adr + 1#24) ++
    (memory (byteAddress adr + 2#24) ++ memory (byteAddress adr + 3#24)))

theorem getMsbD_flashWord (memory : BitVec 24 → BitVec 8) (adr : BitVec 30) (m : ℕ) (hm : m < 32) :
    (flashWord memory adr).getMsbD m =
      (memory (byteAddress adr + BitVec.ofNat 24 (m / 8))).getMsbD (m % 8) := by
  rw [flashWord, BitVec.getMsbD_append, BitVec.getMsbD_append, BitVec.getMsbD_append]
  rcases Nat.lt_or_ge m 8 with h0 | h0
  · rw [if_neg (by omega), Nat.div_eq_of_lt h0, Nat.mod_eq_of_lt h0, BitVec.add_zero]
  · rw [if_pos h0]
    rcases Nat.lt_or_ge m 16 with h1 | h1
    · rw [if_neg (by omega), show m / 8 = 1 by omega, show m % 8 = m - 8 by omega]
    · rw [if_pos (by omega)]
      rcases Nat.lt_or_ge m 24 with h2 | h2
      · rw [if_neg (by omega), show m / 8 = 2 by omega, show m % 8 = m - 8 - 8 by omega]
      · rw [if_pos (by omega), show m / 8 = 3 by omega, show m % 8 = m - 8 - 8 - 8 by omega]

/-- What is sampled while a word goes out. -/
theorem Positioned.samples_eq {memory : BitVec 24 → BitVec 8} {chip0 : SpiFlash}
    {first : BitVec 30} {count : ℕ} {base sent : List Bool}
    (h : Positioned chip0 first count base) (hsent : sent.length = 32) :
    samples memory chip0 base sent =
      msbFirst (flashWord memory (first + BitVec.ofNat 30 count)) := by
  apply List.ext_getElem (by rw [length_samples, hsent, length_msbFirst])
  intro m hm hm'
  rw [length_msbFirst] at hm'
  have hlower := h.lower
  have hupper := h.upper
  have hlength : (base ++ sent.take m).length = 8 * (4 * count + 4) + m := by
    rw [List.length_append, h.length, List.length_take]
    omega
  have hcommand := h.command.trans
    (words_mono (by decide) (List.prefix_append base (sent.take m)))
  rw [getElem_msbFirst, getMsbD_flashWord _ _ _ hm', Positioned.byteAddress_add, BitVec.add_assoc,
    ← BitVec.ofNat_add]
  simp only [samples, List.getElem_map, List.getElem_range]
  rw [shown_of_read h.fresh hcommand (by omega), hlength, Nat.mul_add_mod,
    Nat.mul_add_div (by decide), show 4 * count + 4 + m / 8 - 4 = 4 * count + m / 8 by omega]

/-! ## Waiting for a read -/

/-- The registers that a read of `adr` keeps while the flash is selected. -/
structure Held (adr : BitVec 30) (core : LiteSpi) : Prop where
  count : core.count = 0#4
  grant : core.grant = false
  burstAdr : core.burstAdr = adr

/-- The read of `adr` is acknowledged in `n` clocks. The flash is about to be selected, or one of
the three words is under way. -/
inductive Awaits (config : LiteSpiConfig) (memory : BitVec 24 → BitVec 8) (adr : BitVec 30) :
    ℕ → LiteSpi → SpiFlash → Prop
  | select {core : LiteSpi} {chip : SpiFlash} (state : core.mmapState = .command)
      (idle : core.phyState = .idle) (quiet : Quiet core) (grant : core.grant = false)
      (pos : 0 < core.count.toNat) (le : core.count.toNat ≤ 11) (standby : chip.Standby)
      (low : chip.clk = false) (burstAdr : core.count.toNat < 11 → core.burstAdr = adr) :
      Awaits config memory adr (core.count.toNat + 64 * config.bitClocks + 8) core chip
  | command {chip0 chip : SpiFlash} {m : ℕ} {core : LiteSpi}
      (state : core.mmapState = if m = 0 then .commandSent else .command)
      (leg : Leg config memory chip0 [] commandWord m core chip) (fresh : chip0.Fresh)
      (held : Held adr core) :
      Awaits config memory adr (m + 56 * config.bitClocks + 6) core chip
  | address {chip0 chip : SpiFlash} {m : ℕ} {core : LiteSpi}
      (state : core.mmapState = if m = 0 then .addressSent else .address)
      (leg : Leg config memory chip0 commandBits (addressWord adr) m core chip)
      (fresh : chip0.Fresh) (held : Held adr core) :
      Awaits config memory adr (m + 32 * config.bitClocks + 3) core chip
  | data {chip0 chip : SpiFlash} {first : BitVec 30} {count : ℕ} {base : List Bool} {m : ℕ}
      {core : LiteSpi} (state : core.mmapState = if m = 0 then .dataSent else .data)
      (leg : Leg config memory chip0 base dataWord m core chip)
      (positioned : Positioned chip0 first count base)
      (adr_eq : adr = first + BitVec.ofNat 30 count) (held : Held adr core) :
      Awaits config memory adr m core chip

/-- No read waits. The flash is deselected, or selected where a further read may go on. -/
structure Resting (memory : BitVec 24 → BitVec 8) (core : LiteSpi) (chip : SpiFlash) : Prop where
  state : core.mmapState = .idle
  idle : core.phyState = .idle
  quiet : Quiet core
  grant : core.grant = false
  line : (core.count = 11#4 ∧ core.burstCs = false ∧ chip.Standby ∧ chip.clk = false) ∨
    core.count = 0#4 ∧ ∃ chip0 base, Follows memory chip0 base chip ∧
      OneLine (base.foldl (clockIn memory) chip0) ∧
      (core.burstCs = true → ∃ first count, Positioned chip0 first count base ∧
        core.burstAdr = first + BitVec.ofNat 30 count)

/-- After the reset, with the flash deselected. -/
theorem Resting.reset {memory : BitVec 24 → BitVec 8} {chip : SpiFlash} (standby : chip.Standby)
    (low : chip.clk = false) : Resting memory .reset chip :=
  ⟨rfl, rfl, ⟨rfl, rfl, rfl, rfl, rfl⟩, rfl, .inl ⟨rfl, rfl, standby, low⟩⟩

/-- What a clock brings while the read of `adr` is on the bus. -/
structure Reads (adr : BitVec 30) (chip : SpiFlash) (x : LiteSpiInputs) : Prop where
  busAdr : x.busAdr = adr
  busRead : LiteSpi.busRead x = true
  masterCs : x.masterCs = false
  flashIo1Di : x.flashIo1Di = chip.io1

section Access

variable {config : LiteSpiConfig} {memory : BitVec 24 → BitVec 8} {adr : BitVec 30} {n m : ℕ}
  {core : LiteSpi} {chip : SpiFlash} {x : LiteSpiInputs}

theorem crossbarCs_of_busy (hgrant : core.grant = false) (hbusy : core.mmapState ≠ .idle) :
    core.crossbarCs x = true := by
  rw [LiteSpi.crossbarCs, hgrant, if_neg (by decide), LiteSpi.mmapCs]
  split
  · contradiction
  · rfl

theorem grant_clockEdge (hgrant : core.grant = false) (hmaster : x.masterCs = false) :
    (core.clockEdge config x).grant = false := by
  simp [LiteSpi.clockEdge, hgrant, hmaster]

theorem Held.step (h : Held adr core) (hreads : Reads adr chip x) (hbusy : core.mmapState ≠ .idle)
    (hack : core.mmapState = .dataSent → core.mmapSinkValid = false) :
    Held adr (core.clockEdge config x) := by
  refine ⟨?_, grant_clockEdge h.grant hreads.masterCs, ?_⟩
  · have hcs := crossbarCs_of_busy (x := x) h.grant hbusy
    simp [LiteSpi.clockEdge, hcs, LiteSpi.phyDone, h.count]
  · have hadr := h.burstAdr
    have hbus := hreads.busAdr
    cases hstate : core.mmapState with
    | dataSent => simp [LiteSpi.clockEdge, hstate, hadr, hack hstate]
    | _ => simp [LiteSpi.clockEdge, hstate, hadr, hbus]

/-- A word that is not answered yet: the port goes on from `out` to `sent` when it is taken. -/
theorem offered_step (floating : Bool) (out sent : MmapState) {chip0 : SpiFlash}
    {base : List Bool} {w : PhyWord} (hstate : core.mmapState = out)
    (hleg : Leg config memory chip0 base w (m + 1) core chip)
    (hnext : core.mmapNext config x = if core.mmapSourceReady config then sent else out)
    (hout : out ≠ .idle) (hone : w.OnOneLine) (hw : core.txMux config x = w) (h : Held adr core)
    (hreads : Reads adr chip x)
    (hline : ∀ bits, w.Sends bits → OneLine ((base ++ bits).foldl (clockIn memory) chip0)) :
    core.mmapSinkValid = false ∧
      (core.clockEdge config x).mmapState = (if m = 0 then sent else out) ∧
      Held adr (core.clockEdge config x) ∧
      Leg config memory chip0 base w m (core.clockEdge config x)
        (chip.step memory (FlashBus.pins (core.clockEdge config x) floating)) := by
  have hvalid : core.mmapSinkValid = false := by
    rw [LiteSpi.mmapSinkValid, hleg.sourceValid_eq, decide_eq_false (Nat.succ_ne_zero m),
      Bool.and_false]
  have hheld : Held adr (core.clockEdge config x) :=
    h.step hreads (by rwa [hstate]) fun _ ↦ hvalid
  refine ⟨hvalid, ?_, hheld, ?_⟩
  · change core.mmapNext config x = _
    rw [hnext, LiteSpi.mmapSourceReady, h.grant, hleg.sinkReady_eq hone.len_pos]
    simp
  · exact hleg.step floating hw hone hreads.flashIo1Di h.count hheld.count hline

/-- An answer that is taken. -/
theorem answered_step (floating : Bool) {chip0 : SpiFlash} {base : List Bool} {w : PhyWord}
    (hstate : core.mmapSinkReady = true) (hleg : Leg config memory chip0 base w 0 core chip)
    (hbusy : core.mmapState ≠ .idle) (h : Held adr core)
    (hline : ∀ bits, w.Sends bits → OneLine ((base ++ bits).foldl (clockIn memory) chip0)) :
    core.mmapSinkValid = true ∧ (core.clockEdge config x).count = 0#4 ∧
      ∃ old sent, w.Sends sent ∧ sent.length = w.len.toNat ∧
        core.srIn = (samples memory chip0 base sent).foldl BitVec.shiftConcat old ∧
        (core.clockEdge config x).phyState = .idle ∧ Quiet (core.clockEdge config x) ∧
        Follows memory chip0 (base ++ sent)
          (chip.step memory (FlashBus.pins (core.clockEdge config x) floating)) := by
  have hcount : (core.clockEdge config x).count = 0#4 := by
    have hcs := crossbarCs_of_busy (x := x) h.grant hbusy
    simp [LiteSpi.clockEdge, hcs, LiteSpi.phyDone, h.count]
  have hready : core.sourceReady x = true := by
    rw [LiteSpi.sourceReady, h.grant, if_neg (by decide), hstate]
  refine ⟨?_, hcount, hleg.answered floating hready hcount hline⟩
  rw [LiteSpi.mmapSinkValid, hleg.sourceValid_eq, h.grant]
  rfl

theorem txMux_eq (hgrant : core.grant = false) :
    core.txMux config x = core.mmapSource config x := by
  rw [LiteSpi.txMux, hgrant, if_neg (by decide)]

theorem busAck_of_ne (hstate : core.mmapState ≠ .dataSent) : core.busAck = false := by
  rw [LiteSpi.busAck, beq_eq_false_iff_ne.2 hstate, Bool.false_and]

/-- The flash is about to be selected. -/
theorem select_step (floating : Bool) (state : core.mmapState = .command)
    (idle : core.phyState = .idle) (quiet : Quiet core) (grant : core.grant = false)
    (pos : 0 < core.count.toNat) (le : core.count.toNat ≤ 11) (standby : chip.Standby)
    (low : chip.clk = false)
    (hreads : Reads adr chip x) :
    Awaits config memory adr (core.count.toNat + 64 * config.bitClocks + 7)
      (core.clockEdge config x)
      (chip.step memory (FlashBus.pins (core.clockEdge config x) floating)) := by
  have hdone : core.phyDone = false := by
    rw [LiteSpi.phyDone, beq_eq_false_iff_ne, Ne, ← BitVec.toNat_inj]
    exact pos.ne'
  have hcs := crossbarCs_of_busy (x := x) grant (by rw [state]; decide)
  have hcount : (core.clockEdge config x).count.toNat = core.count.toNat - 1 := by
    simp only [LiteSpi.clockEdge, hcs, hdone, Bool.not_false, if_true]
    rw [BitVec.toNat_sub_of_le (BitVec.le_def.2 (show (1#4).toNat ≤ _ from pos))]
    rfl
  have hidle : (core.clockEdge config x).phyState = .idle := by
    change core.phyNext config x = _
    rw [LiteSpi.phyNext, idle, LiteSpi.load, hdone, Bool.and_false, Bool.false_and]
    rfl
  have hstate : (core.clockEdge config x).mmapState = .command := by
    change core.mmapNext config x = _
    rw [LiteSpi.mmapNext, state, LiteSpi.mmapSourceReady, LiteSpi.sinkReady, idle]
    simp
  have hquiet : Quiet (core.clockEdge config x) := quiet.step (by rw [idle]; decide)
  have hgrant : (core.clockEdge config x).grant = false := grant_clockEdge grant hreads.masterCs
  have hadr : (core.clockEdge config x).burstAdr = adr := by
    simp [LiteSpi.clockEdge, state, hreads.busAdr]
  rcases Nat.lt_or_ge 1 core.count.toNat with hmore | hlast
  · have hclosed : (FlashBus.pins (core.clockEdge config x) floating).csb = true := by
      rw [FlashBus.pins, LiteSpi.flashCsN, LiteSpi.phyDone, Bool.not_eq_true', beq_eq_false_iff_ne,
        Ne, ← BitVec.toNat_inj, hcount]
      change core.count.toNat - 1 ≠ 0
      omega
    have hlow := congrArg Prod.snd (SpiFlash.levels_step memory chip
      (FlashBus.pins (core.clockEdge config x) floating))
    have hsel : Awaits config memory adr _ (core.clockEdge config x)
        (chip.step memory (FlashBus.pins (core.clockEdge config x) floating)) :=
      .select hstate hidle hquiet hgrant (by omega) (by omega) (standby.step hclosed)
        (hlow.trans hquiet.flashClk) fun _ ↦ hadr
    rwa [hcount, show core.count.toNat - 1 + 64 * config.bitClocks + 8 =
      core.count.toNat + 64 * config.bitClocks + 7 by omega] at hsel
  · have hzero : (core.clockEdge config x).count = 0#4 := by
      rw [← BitVec.toNat_inj, hcount]
      change core.count.toNat - 1 = 0
      omega
    have hopen : (FlashBus.pins (core.clockEdge config x) floating).csb = false := by
      simp [FlashBus.pins, LiteSpi.flashCsN, LiteSpi.phyDone, hzero]
    have hfollows := standby.select memory low hopen hquiet.flashClk
    have hfirst : core.count.toNat = 1 := by omega
    have hleg : Leg config memory chip.core [] commandWord (8 * config.bitClocks + 2) _ _ :=
      .load hidle hquiet hfollows
    have hcommand := Awaits.command (by rw [hstate, if_neg (by omega)]) hleg standby.fresh
      ⟨hzero, hgrant, hadr⟩
    rwa [show 8 * config.bitClocks + 2 + 56 * config.bitClocks + 6 =
      core.count.toNat + 64 * config.bitClocks + 7 by omega] at hcommand

theorem oneLine_command (memory : BitVec 24 → BitVec 8) {chip0 : SpiFlash} (hfresh : chip0.Fresh) :
    ∀ bits, commandWord.Sends bits → OneLine (([] ++ bits).foldl (clockIn memory) chip0) :=
  fun _ hbits ↦ oneLine_of_prefix hfresh 0#24
    ((hbits.prefix_of_mask rfl (by decide)).trans (List.prefix_append _ _))

theorem oneLine_address (memory : BitVec 24 → BitVec 8) {chip0 : SpiFlash}
    (hfresh : chip0.Fresh) (adr : BitVec 30) :
    ∀ bits, (addressWord adr).Sends bits →
      OneLine ((commandBits ++ bits).foldl (clockIn memory) chip0) :=
  fun _ hbits ↦ oneLine_of_prefix hfresh (byteAddress adr)
    ((List.prefix_append_right_inj _).2
      (hbits.prefix_of_mask (addressWord_mask adr) (addressWord_onOneLine adr).len_le))

theorem oneLine_data {chip0 : SpiFlash} {first : BitVec 30} {count : ℕ} {base : List Bool}
    (h : Positioned chip0 first count base) :
    ∀ bits, dataWord.Sends bits → OneLine ((base ++ bits).foldl (clockIn memory) chip0) :=
  fun _ hbits ↦ h.oneLine hbits.length_le

/-- **One clock of a read.** -/
theorem Awaits.step (h : Awaits config memory adr (n + 1) core chip) (floating : Bool)
    (hdummy : config.spiDummyBits = 0#8) (hregion : InRegion adr) (hreads : Reads adr chip x) :
    core.busAck = false ∧
      Awaits config memory adr n (core.clockEdge config x)
        (chip.step memory (FlashBus.pins (core.clockEdge config x) floating)) := by
  generalize hn : n + 1 = n' at h
  cases h with
  | select state idle quiet grant pos le standby low =>
    obtain rfl : core.count.toNat + 64 * config.bitClocks + 7 = n := by omega
    exact ⟨busAck_of_ne (by rw [state]; decide),
      select_step floating state idle quiet grant pos le standby low hreads⟩
  | @command chip0 _ m _ state leg fresh held =>
    have hline := oneLine_command memory fresh
    cases m with
    | succ m =>
      rw [if_neg (Nat.succ_ne_zero m)] at state
      obtain ⟨-, hstate, hheld, hleg⟩ := offered_step floating .command .commandSent
        state leg (by simp [LiteSpi.mmapNext, state]) (by decide) commandWord_onOneLine
        (by rw [txMux_eq held.grant, LiteSpi.mmapSource, state]; rfl) held hreads hline
      have hnext := Awaits.command hstate hleg fresh hheld
      rw [show m + 56 * config.bitClocks + 6 = n by omega] at hnext
      exact ⟨busAck_of_ne (by rw [state]; decide), hnext⟩
    | zero =>
      rw [if_pos rfl] at state
      obtain ⟨hvalid, hcount, -, sent, hsends, hlength, -, hidle, hquiet, hfollows⟩ :=
        answered_step (x := x) floating (by simp [LiteSpi.mmapSinkReady, state]) leg
          (by rw [state]; decide) held hline
      have hsent : [] ++ sent = commandBits :=
        (hsends.prefix_of_mask rfl (by decide)).eq_of_length
          (by rw [hlength, length_msbFirst])
      rw [hsent] at hfollows
      have hstate : (core.clockEdge config x).mmapState = .address := by
        simp [LiteSpi.clockEdge, LiteSpi.mmapNext, state, hvalid]
      have hheld : Held adr (core.clockEdge config x) := held.step hreads (by rw [state]; decide)
        fun hdata ↦ absurd (state.symm.trans hdata) (by decide)
      have hnew : Leg config memory chip0 commandBits (addressWord adr)
          (24 * config.bitClocks + 2) _ _ := .load hidle hquiet hfollows
      have hnext := Awaits.address (by rw [hstate, if_neg (by omega)]) hnew fresh hheld
      rw [show 24 * config.bitClocks + 2 + 32 * config.bitClocks + 3 = n by omega] at hnext
      exact ⟨busAck_of_ne (by rw [state]; decide), hnext⟩
  | @address chip0 _ m _ state leg fresh held =>
    have hline := oneLine_address memory fresh adr
    cases m with
    | succ m =>
      rw [if_neg (Nat.succ_ne_zero m)] at state
      obtain ⟨-, hstate, hheld, hleg⟩ := offered_step floating .address .addressSent
        state leg (by simp [LiteSpi.mmapNext, state]) (by decide) (addressWord_onOneLine adr)
        (by rw [txMux_eq held.grant, LiteSpi.mmapSource, state, hreads.busAdr]; rfl) held hreads
        hline
      have hnext := Awaits.address hstate hleg fresh hheld
      rw [show m + 32 * config.bitClocks + 3 = n by omega] at hnext
      exact ⟨busAck_of_ne (by rw [state]; decide), hnext⟩
    | zero =>
      rw [if_pos rfl] at state
      obtain ⟨hvalid, hcount, -, sent, hsends, hlength, -, hidle, hquiet, hfollows⟩ :=
        answered_step (x := x) floating (by simp [LiteSpi.mmapSinkReady, state]) leg
          (by rw [state]; decide) held hline
      have hsent : sent = msbFirst (byteAddress adr) :=
        (hsends.prefix_of_mask (addressWord_mask adr)
          (addressWord_onOneLine adr).len_le).eq_of_length
          (by rw [hlength, length_msbFirst])
      have hpositioned : Positioned chip0 adr 0 (commandBits ++ sent) := by
        obtain ⟨hlower, hupper⟩ := hregion.bounds
        refine ⟨fresh, ?_, ?_, hlower, by omega⟩
        · rw [hsent, ← flatMap_readCommand, words_flatMap_msbFirst (by decide)]
        · rw [List.length_append, hlength]
          rfl
      have hstate : (core.clockEdge config x).mmapState = .data := by
        simp [LiteSpi.clockEdge, LiteSpi.mmapNext, state, hvalid, hdummy]
      have hheld : Held adr (core.clockEdge config x) := held.step hreads (by rw [state]; decide)
        fun hdata ↦ absurd (state.symm.trans hdata) (by decide)
      have hnew : Leg config memory chip0 (commandBits ++ sent) dataWord
          (32 * config.bitClocks + 2) _ _ := .load hidle hquiet hfollows
      have hnext := Awaits.data (by rw [hstate, if_neg (by omega)]) hnew hpositioned
        (BitVec.add_zero adr).symm hheld
      rw [show 32 * config.bitClocks + 2 = n by omega] at hnext
      exact ⟨busAck_of_ne (by rw [state]; decide), hnext⟩
  | @data chip0 _ first count base m _ state leg positioned adr_eq held =>
    obtain rfl : n + 1 = n' := hn
    rw [if_neg (Nat.succ_ne_zero n)] at state
    obtain ⟨-, hstate, hheld, hleg⟩ := offered_step floating .data .dataSent
      state leg (by simp [LiteSpi.mmapNext, state]) (by decide) dataWord_onOneLine
      (by rw [txMux_eq held.grant, LiteSpi.mmapSource, state]; rfl) held hreads
      (oneLine_data positioned)
    exact ⟨busAck_of_ne (by rw [state]; decide), .data hstate hleg positioned adr_eq hheld⟩

theorem bytes_of_append (b0 b1 b2 b3 : BitVec 8) :
    (b0 ++ (b1 ++ (b2 ++ b3))).extractLsb' 0 8 = b3 ∧
      (b0 ++ (b1 ++ (b2 ++ b3))).extractLsb' 8 8 = b2 ∧
      (b0 ++ (b1 ++ (b2 ++ b3))).extractLsb' 16 8 = b1 ∧
      (b0 ++ (b1 ++ (b2 ++ b3))).extractLsb' 24 8 = b0 := by
  refine ⟨?_, ?_, ?_, BitVec.extractLsb'_append_eq_left⟩
  · rw [BitVec.extractLsb'_append_eq_of_add_le (by decide),
      BitVec.extractLsb'_append_eq_of_add_le (by decide)]
    exact BitVec.extractLsb'_append_eq_right
  · rw [BitVec.extractLsb'_append_eq_of_add_le (by decide),
      BitVec.extractLsb'_append_eq_of_add_le (by decide)]
    exact BitVec.extractLsb'_append_eq_left
  · rw [BitVec.extractLsb'_append_eq_of_add_le (by decide)]
    exact BitVec.extractLsb'_append_eq_left

/-- The bytes of a word in the order of the bus. -/
theorem bytes_flashWord (memory : BitVec 24 → BitVec 8) (adr : BitVec 30) :
    (flashWord memory adr).extractLsb' 0 8 ++ (flashWord memory adr).extractLsb' 8 8 ++
        (flashWord memory adr).extractLsb' 16 8 ++ (flashWord memory adr).extractLsb' 24 8 =
      wordAt memory adr := by
  obtain ⟨h0, h1, h2, h3⟩ := bytes_of_append (memory (byteAddress adr))
    (memory (byteAddress adr + 1#24)) (memory (byteAddress adr + 2#24))
    (memory (byteAddress adr + 3#24))
  rw [flashWord, h0, h1, h2, h3, wordAt]

/-- **The acknowledge.** -/
theorem Awaits.ack (h : Awaits config memory adr 0 core chip) (floating : Bool)
    (hregion : InRegion adr) (hreads : Reads adr chip x) :
    core.busAck = true ∧ core.busDatR = wordAt memory adr ∧
      Resting memory (core.clockEdge config x)
        (chip.step memory (FlashBus.pins (core.clockEdge config x) floating)) := by
  generalize hn : 0 = n' at h
  cases h with
  | select => omega
  | command => omega
  | address => omega
  | @data chip0 _ first count base m _ state leg positioned adr_eq held =>
    subst hn
    rw [if_pos rfl] at state
    obtain ⟨hvalid, hcount, old, sent, -, hlength, hsrIn, hidle, hquiet, hfollows⟩ :=
      answered_step (x := x) floating (by simp [LiteSpi.mmapSinkReady, state]) leg
        (by rw [state]; decide) held (oneLine_data positioned)
    rw [positioned.samples_eq hlength, ← adr_eq, foldl_shiftConcat_eq_ofBits old (by simp),
      ofBits_msbFirst] at hsrIn
    have hnext := positioned.next hlength (adr_eq ▸ hregion)
    refine ⟨by rw [LiteSpi.busAck, state, hvalid]; rfl, ?_, ?_⟩
    · rw [LiteSpi.busDatR, state, hsrIn]
      exact bytes_flashWord memory adr
    · refine ⟨by simp [LiteSpi.clockEdge, LiteSpi.mmapNext, state, hvalid], hidle, hquiet,
        grant_clockEdge held.grant hreads.masterCs, .inr ⟨hcount, chip0, base ++ sent, hfollows,
          oneLine_data positioned sent ⟨by rw [hlength], fun hmask ↦ by cases hmask⟩,
          fun _ ↦ ⟨first, count + 1, hnext, ?_⟩⟩⟩
      simp only [LiteSpi.clockEdge, state, hvalid, if_true]
      rw [held.burstAdr, adr_eq, BitVec.add_assoc, ← BitVec.ofNat_add]

/-- What a clock brings while no read is on the bus. -/
structure Free (x : LiteSpiInputs) : Prop where
  busRead : LiteSpi.busRead x = false
  masterCs : x.masterCs = false

section Rest

variable (h : Resting memory core chip)
include h

theorem Resting.phyNext (config : LiteSpiConfig) (x : LiteSpiInputs) :
    (core.clockEdge config x).phyState = .idle := by
  change core.phyNext config x = _
  rw [LiteSpi.phyNext, h.idle, LiteSpi.load, txMux_eq h.grant, LiteSpi.mmapSource, h.state]
  simp [PhyWord.none]

/-- The chip select goes high, or stays there. -/
theorem Resting.deselect (config : LiteSpiConfig) (floating : Bool)
    (hcs : core.crossbarCs x = false) :
    (core.clockEdge config x).count = 11#4 ∧
      (chip.step memory (FlashBus.pins (core.clockEdge config x) floating)).Standby ∧
      (chip.step memory (FlashBus.pins (core.clockEdge config x) floating)).clk = false := by
  have hcount : (core.clockEdge config x).count = 11#4 := by simp [LiteSpi.clockEdge, hcs]
  have hclosed : (FlashBus.pins (core.clockEdge config x) floating).csb = true := by
    rw [FlashBus.pins, LiteSpi.flashCsN, LiteSpi.phyDone, hcount]
    rfl
  have hlow := congrArg Prod.snd (SpiFlash.levels_step memory chip
    (FlashBus.pins (core.clockEdge config x) floating))
  refine ⟨hcount, ?_, hlow.trans h.quiet.clk⟩
  rcases h.line with ⟨-, -, hstandby, -⟩ | ⟨-, chip0, base, hfollows, hline, -⟩
  · exact hstandby.step hclosed
  · exact hfollows.deselect hline hclosed

/-- A clock without a read. -/
theorem Resting.rest (config : LiteSpiConfig) (floating : Bool) (hfree : Free x) :
    core.busAck = false ∧
      Resting memory (core.clockEdge config x)
        (chip.step memory (FlashBus.pins (core.clockEdge config x) floating)) := by
  have hquiet : Quiet (core.clockEdge config x) := h.quiet.step (by rw [h.idle]; decide)
  have hstate : (core.clockEdge config x).mmapState = .idle := by
    simp [LiteSpi.clockEdge, LiteSpi.mmapNext, h.state, hfree.busRead]
  have hburst : (core.clockEdge config x).burstCs = (core.burstCs && core.mmapCount != 0#9) := by
    simp [LiteSpi.clockEdge, h.state]
  have hcs : core.crossbarCs x = core.burstCs := by
    rw [LiteSpi.crossbarCs, h.grant, if_neg (by decide), LiteSpi.mmapCs, h.state]
    simp [hfree.busRead]
  refine ⟨busAck_of_ne (by rw [h.state]; decide), hstate, h.phyNext config x, hquiet,
    grant_clockEdge h.grant hfree.masterCs, ?_⟩
  cases hopen : core.burstCs with
  | false =>
    obtain ⟨hcount, hstandby, hlow⟩ :=
      h.deselect config floating (hcs.trans hopen)
    rw [hopen, Bool.false_and] at hburst
    exact .inl ⟨hcount, hburst, hstandby, hlow⟩
  | true =>
    rcases h.line with ⟨-, hclosed, -⟩ | ⟨hcount, chip0, base, hfollows, hline, hposition⟩
    · rw [hopen] at hclosed
      cases hclosed
    · have hcount' : (core.clockEdge config x).count = 0#4 := by
        simp [LiteSpi.clockEdge, hcs, hopen, LiteSpi.phyDone, hcount]
      have hfollows' := h.quiet.follows_step floating hfollows hcount' hline
      refine .inr ⟨hcount', chip0, base, hfollows', hline, fun _ ↦ ?_⟩
      obtain ⟨first, count, hpositioned, hadr⟩ := hposition hopen
      refine ⟨first, count, hpositioned, ?_⟩
      simp only [LiteSpi.clockEdge, h.state]
      exact hadr

/-- The first clock of a read. -/
theorem Resting.accept (config : LiteSpiConfig) (floating : Bool) (hreads : Reads adr chip x) :
    core.busAck = false ∧ ∃ n ≤ 64 * config.bitClocks + 19,
      Awaits config memory adr n (core.clockEdge config x)
        (chip.step memory (FlashBus.pins (core.clockEdge config x) floating)) := by
  have hquiet : Quiet (core.clockEdge config x) := h.quiet.step (by rw [h.idle]; decide)
  have hgrant : (core.clockEdge config x).grant = false := grant_clockEdge h.grant hreads.masterCs
  have hidle := h.phyNext config x
  refine ⟨busAck_of_ne (by rw [h.state]; decide), ?_⟩
  cases hhit : core.burstHit x with
  | false =>
    have hstate : (core.clockEdge config x).mmapState = .command := by
      simp [LiteSpi.clockEdge, LiteSpi.mmapNext, h.state, hreads.busRead, hhit]
    have hcs : core.crossbarCs x = false := by
      rw [LiteSpi.crossbarCs, h.grant, if_neg (by decide), LiteSpi.mmapCs, h.state]
      simp [hreads.busRead, hhit]
    obtain ⟨hcount, hstandby, hlow⟩ := h.deselect config floating hcs
    have hnat : (core.clockEdge config x).count.toNat = 11 := by rw [hcount]; rfl
    exact ⟨_, by omega, .select hstate hidle hquiet hgrant (by omega) (by omega) hstandby hlow
      fun hlt ↦ by omega⟩
  | true =>
    rw [LiteSpi.burstHit, Bool.and_eq_true, beq_iff_eq, hreads.busAdr] at hhit
    obtain ⟨hopen, hadr⟩ := hhit
    have hhit' : core.burstHit x = true := by
      rw [LiteSpi.burstHit, hopen, hreads.busAdr, hadr]
      simp
    have hstate : (core.clockEdge config x).mmapState = .data := by
      simp [LiteSpi.clockEdge, LiteSpi.mmapNext, h.state, hreads.busRead, hhit']
    rcases h.line with ⟨-, hclosed, -⟩ | ⟨hcount, chip0, base, hfollows, hline, hposition⟩
    · rw [hopen] at hclosed
      cases hclosed
    · have hcs : core.crossbarCs x = true := by
        rw [LiteSpi.crossbarCs, h.grant, if_neg (by decide), LiteSpi.mmapCs, h.state]
        simp [hhit', hopen]
      have hcount' : (core.clockEdge config x).count = 0#4 := by
        simp [LiteSpi.clockEdge, hcs, LiteSpi.phyDone, hcount]
      obtain ⟨first, count, hpositioned, hfirst⟩ := hposition hopen
      refine ⟨32 * config.bitClocks + 2, by omega, .data (by rw [hstate, if_neg (by omega)])
        (.load hidle hquiet (h.quiet.follows_step floating hfollows hcount' hline)) hpositioned
        (hadr.trans hfirst) ⟨hcount', hgrant, ?_⟩⟩
      simp only [LiteSpi.clockEdge, h.state]
      exact hadr.symm

end Rest

end Access

end CaravelSoc.Management
