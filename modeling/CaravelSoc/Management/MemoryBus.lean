import CaravelSoc.Management.FlashRead
import CaravelSoc.Management.Interconnect

/-!
# The memories of the management core

The two memories of the management core and the flash stand behind its bus. Three
masters use them at the same time, accesses of other slaves come between, and a
memory takes a write clocks before the write is acknowledged. Seen from the masters
there is one array of words.
-/

open Sequential

namespace CaravelSoc.Management

open FlashBus (wordAt)

/-! ## The memories of flip-flops -/

/-- `RAM256` and `RAM128` with the acknowledge of their port. -/
structure DffRam (n : ℕ) where
  ack : Bool
  do0 : BitVec 32
  ram : BitVec n → BitVec 32

/-- The byte at the places `8 * k` and up of a word that is written. -/
def writtenByte (old new : BitVec 32) (we : BitVec 4) (k : ℕ) : BitVec 8 :=
  if we.getLsbD k then new.extractLsb' (8 * k) 8 else old.extractLsb' (8 * k) 8

def writeBytes (old new : BitVec 32) (we : BitVec 4) : BitVec 32 :=
  writtenByte old new we 3 ++ (writtenByte old new we 2 ++
    (writtenByte old new we 1 ++ writtenByte old new we 0))

namespace DffRam

variable {n : ℕ}

/-- `dff_en`. -/
def en (cyc : Bool) (bus : Wishbone) : Bool := bus.stb && cyc

/-- `dff_we`. -/
def weOf (cyc : Bool) (bus : Wishbone) : BitVec 4 :=
  if bus.we && bus.stb && cyc then bus.sel else 0#4

/-- One clock. -/
def clockEdge (s : DffRam n) (cyc : Bool) (bus : Wishbone) : DffRam n where
  ack := en cyc bus && !s.ack
  do0 := if en cyc bus then s.ram (bus.adr.setWidth n) else 0#32
  ram :=
    if en cyc bus then
      Function.update s.ram (bus.adr.setWidth n)
        (writeBytes (s.ram (bus.adr.setWidth n)) bus.datW (weOf cyc bus))
    else s.ram

end DffRam

/-- A write leaves in each place of a byte the byte that was written there. -/
theorem extractLsb'_writeBytes (old new : BitVec 32) (we : BitVec 4) (k : ℕ) (hk : k < 4) :
    (writeBytes old new we).extractLsb' (8 * k) 8 = writtenByte old new we k := by
  obtain ⟨h0, h1, h2, h3⟩ := bytes_of_append (writtenByte old new we 3) (writtenByte old new we 2)
    (writtenByte old new we 1) (writtenByte old new we 0)
  obtain rfl | rfl | rfl | rfl : k = 0 ∨ k = 1 ∨ k = 2 ∨ k = 3 := by omega
  · exact h0
  · exact h1
  · exact h2
  · exact h3

/-- A write made twice. -/
theorem writeBytes_writeBytes (old new : BitVec 32) (we : BitVec 4) :
    writeBytes (writeBytes old new we) new we = writeBytes old new we := by
  have hbyte : ∀ k < 4,
      writtenByte (writeBytes old new we) new we k = writtenByte old new we k := by
    intro k hk
    rw [writtenByte, extractLsb'_writeBytes old new we k hk, writtenByte]
    split <;> rfl
  rw [writeBytes.eq_def (writeBytes old new we), hbyte 3 (by decide), hbyte 2 (by decide),
    hbyte 1 (by decide), hbyte 0 (by decide)]
  rfl

theorem writeBytes_zero (old new : BitVec 32) : writeBytes old new 0#4 = old := by
  have hbyte : ∀ k, writtenByte old new 0#4 k = old.extractLsb' (8 * k) 8 := by
    intro k
    rw [writtenByte, BitVec.getLsbD_zero, if_neg (by decide)]
  rw [writeBytes, hbyte, hbyte, hbyte, hbyte,
    BitVec.extractLsb'_append_extractLsb'_eq_extractLsb' (by decide),
    BitVec.extractLsb'_append_extractLsb'_eq_extractLsb' (by decide),
    BitVec.extractLsb'_append_extractLsb'_eq_extractLsb' (by decide)]
  exact BitVec.extractLsb'_eq_self

/-! ## The array of words -/

/-- What the masters see. -/
abbrev Words := BitVec 30 → BitVec 32

/-- The words of the two memories. -/
def Writable (adr : BitVec 30) : Prop := slaveSel adr .dff = true ∨ slaveSel adr .dff2 = true
  deriving Decidable

/-- The words of the two memories and of the flash. -/
def Readable (adr : BitVec 30) : Prop := Writable adr ∨ slaveSel adr .litespimmap = true
  deriving Decidable

namespace Words

variable (words : Words) (r : Request)

/-- What a request does to the words. -/
def write : Words :=
  if r.we = true ∧ Writable r.adr then
    Function.update words r.adr (writeBytes (words r.adr) r.datW r.sel)
  else words

/-- What an access of a master does to the words. -/
def perform (access : Master × Request × BitVec 32) : Words := words.write access.2.1

/-- A read of a memory brings the word. -/
def Answers (access : Master × Request × BitVec 32) : Prop :=
  access.2.1.we = false → Readable access.2.1.adr → access.2.2 = words access.2.1.adr

variable {words r}

theorem write_of_ne {adr : BitVec 30} (h : adr ≠ r.adr) : words.write r adr = words adr := by
  rw [write]
  split
  · exact Function.update_of_ne h _ _
  · rfl

theorem write_self (h : Writable r.adr) :
    words.write r r.adr =
      writeBytes (words r.adr) r.datW (if r.we then r.sel else 0#4) := by
  rw [write]
  cases hwe : r.we with
  | true => rw [if_pos ⟨rfl, h⟩, Function.update_self, if_pos rfl]
  | false => rw [if_neg (by simp), if_neg (by decide), writeBytes_zero]

theorem write_write : (words.write r).write r = words.write r := by
  funext adr
  by_cases hadr : adr = r.adr
  · subst hadr
    by_cases hregion : Writable r.adr
    · rw [write_self hregion, write_self hregion, writeBytes_writeBytes]
    · rw [write, if_neg fun h ↦ hregion h.2]
  · rw [write_of_ne hadr]

end Words

/-! ## What a slave promises -/

/-- A slave at rest holds the words. One that took a request answers it behind some clocks. -/
structure Promise where
  rests : Words → Prop
  due : Words → Request → ℕ → Prop

/-- The requests that a memory answers. -/
def takes : Slave → Request → Bool
  | .dff, r => slaveSel r.adr .dff
  | .dff2, r => slaveSel r.adr .dff2
  | .litespimmap, r => slaveSel r.adr .litespimmap && !r.we
  | .vexriscvDebug, _ | .mprj, _ | .hk, _ | .csr, _ => false

/-- The promise of a slave while the request `busy` is taken and the counter is at `count`. -/
def Promise.Kept (p : Promise) (slave : Slave) (words : Words) (busy : Option Request)
    (count : ℕ) : Prop :=
  match busy.filter (takes slave) with
  | none => p.rests words
  | some r => ∃ k < count, p.due words r k

/-- What a slave does in a clock. -/
structure Contract (slave : Slave) (before after : Promise) (reply : Reply)
    (request : Option Request) : Prop where
  rest : ∀ words, before.rests words → reply.ack = true →
    ∃ r ∈ request, slaveSel r.adr slave = true
  pass : ∀ words, before.rests words → (∀ r ∈ request, takes slave r = false) →
    after.rests words ∧ ∀ r ∈ request, after.rests (words.write r)
  take : ∀ words, ∀ r ∈ request, takes slave r = true → before.rests words →
    reply.ack = false ∧ ∃ k < 999999, after.due words r k
  wait : ∀ words, ∀ r ∈ request, ∀ k, takes slave r = true → before.due words r (k + 1) →
    reply.ack = false ∧ after.due words r k
  answer : ∀ words, ∀ r ∈ request, takes slave r = true → before.due words r 0 →
    reply.ack = true ∧ after.rests (words.write r) ∧ (r.we = false → reply.datR = words r.adr)

/-- Nothing is promised. -/
def Promise.empty : Promise where
  rests _ := True
  due _ _ _ := False

theorem Promise.empty_contract {slave : Slave} {reply : Reply} {request : Option Request}
    (htakes : ∀ r, takes slave r = false)
    (hselected : reply.ack = true → ∃ r ∈ request, slaveSel r.adr slave = true) :
    Contract slave .empty .empty reply request := by
  refine ⟨fun _ _ ↦ hselected, fun _ _ _ ↦ ⟨trivial, fun _ _ ↦ trivial⟩, ?_, ?_, ?_⟩
  · rintro _ r - h
    exact absurd (h.symm.trans (htakes r)) (by decide)
  · rintro _ r - _ h
    exact absurd (h.symm.trans (htakes r)) (by decide)
  · rintro _ r - h
    exact absurd (h.symm.trans (htakes r)) (by decide)

/-- The request on the bus. -/
def Wishbone.request (bus : Wishbone) : Option Request :=
  if bus.cyc then some bus.toRequest else none

theorem Wishbone.eq_of_request {bus : Wishbone} {r : Request} (hstb : bus.stb = bus.cyc)
    (h : r ∈ bus.request) : bus = ⟨r, true, true⟩ := by
  obtain ⟨r', cyc, stb⟩ := bus
  rw [Wishbone.request, Option.mem_def] at h
  cases cyc with
  | false => cases h
  | true =>
    cases hstb
    cases h
    rfl

/-- Every word that can be read is taken by a memory. -/
theorem exists_takes {r : Request} (hwe : r.we = false) (h : Readable r.adr) :
    ∃ slave, takes slave r = true := by
  rcases h with (hdff | hdff2) | hflash
  · exact ⟨.dff, hdff⟩
  · exact ⟨.dff2, hdff2⟩
  · exact ⟨.litespimmap, by rw [takes, hflash, hwe]; rfl⟩

theorem takes_selected {slave : Slave} {r : Request} (h : takes slave r = true) :
    slaveSel r.adr slave = true := by
  cases slave with
  | dff => exact h
  | dff2 => exact h
  | litespimmap => exact (Bool.and_eq_true _ _ ▸ h).1
  | _ => cases h

/-! ## The two memories -/

/-- The region of a memory: as many words as it has, and its words are those. -/
structure IsRegion (n : ℕ) (slave : Slave) : Prop where
  takes : ∀ r, takes slave r = slaveSel r.adr slave
  writable : ∀ adr, slaveSel adr slave = true → Writable adr
  size : slave.region.2 = 2 ^ n
  aligned : 2 ^ n ∣ slave.region.1

theorem dff_isRegion : IsRegion 8 .dff := ⟨fun _ ↦ rfl, fun _ h ↦ .inl h, rfl, by decide⟩

theorem dff2_isRegion : IsRegion 7 .dff2 := ⟨fun _ ↦ rfl, fun _ h ↦ .inr h, rfl, by decide⟩

/-- In its region an address is its low bits. -/
theorem IsRegion.setWidth_inj {n : ℕ} {slave : Slave} (h : IsRegion n slave) {adr adr' : BitVec 30}
    (hadr : slaveSel adr slave = true) (hadr' : slaveSel adr' slave = true)
    (hlow : adr.setWidth n = adr'.setWidth n) : adr = adr' := by
  rw [slaveSel_iff, h.size] at hadr hadr'
  obtain ⟨base, hbase⟩ := h.aligned
  rw [hbase] at hadr hadr'
  have hmod := congrArg BitVec.toNat hlow
  rw [BitVec.toNat_setWidth, BitVec.toNat_setWidth] at hmod
  have hdiv : ∀ a : ℕ, 2 ^ n * base ≤ a ∧ a < 2 ^ n * base + 2 ^ n → a / 2 ^ n = base := by
    rintro a ⟨hlower, hupper⟩
    rw [Nat.div_eq_iff (Nat.two_pow_pos n), ← Nat.mul_comm (2 ^ n)]
    have hpos := Nat.two_pow_pos n
    omega
  rw [← BitVec.toNat_inj, ← Nat.div_add_mod adr.toNat (2 ^ n), hdiv _ hadr, hmod,
    ← hdiv _ hadr', Nat.div_add_mod]

namespace DffRam

variable {n : ℕ} {slave : Slave} {words : Words} {r : Request} {s : DffRam n} {bus : Wishbone}

/-- The memory holds the words of its region. -/
def Holds (s : DffRam n) (slave : Slave) (words : Words) : Prop :=
  ∀ adr, slaveSel adr slave = true → s.ram (adr.setWidth n) = words adr

def promise (s : DffRam n) (slave : Slave) : Promise where
  rests words := s.ack = false ∧ s.Holds slave words
  due words r k := k = 0 ∧ s.ack = true ∧ s.Holds slave (words.write r) ∧
    (r.we = false → s.do0 = words r.adr)

theorem Holds.write_of_not_sel (h : s.Holds slave words) (hsel : slaveSel r.adr slave = false) :
    s.Holds slave (words.write r) := by
  intro adr hadr
  rw [h adr hadr, Words.write_of_ne]
  rintro rfl
  exact absurd (hadr.symm.trans hsel) (by decide)

/-- A clock in which the memory takes the request. -/
theorem Holds.clockEdge (h : s.Holds slave words) (hregion : IsRegion n slave)
    (hsel : slaveSel r.adr slave = true) :
    (s.clockEdge true ⟨r, true, true⟩).Holds slave (words.write r) := by
  intro adr hadr
  change Function.update s.ram (r.adr.setWidth n)
    (writeBytes (s.ram (r.adr.setWidth n)) r.datW (weOf true ⟨r, true, true⟩))
    (adr.setWidth n) = _
  by_cases hsame : adr = r.adr
  · subst hsame
    rw [Function.update_self, Words.write_self (hregion.writable _ hsel), h _ hsel, weOf,
      Bool.and_true, Bool.and_true]
  · rw [Function.update_of_ne fun hlow ↦ hsame (hregion.setWidth_inj hadr hsel hlow),
      Words.write_of_ne hsame, h adr hadr]

theorem clockEdge_of_not_en (s : DffRam n) {cyc : Bool} (h : en cyc bus = false) :
    (s.clockEdge cyc bus).ack = false ∧ (s.clockEdge cyc bus).ram = s.ram := by
  simp [DffRam.clockEdge, h]

/-- **The two memories as slaves.** -/
theorem contract (hregion : IsRegion n slave) (s : DffRam n) (hstb : bus.stb = bus.cyc) :
    Contract slave (s.promise slave)
      ((s.clockEdge (bus.cyc && slaveSel bus.adr slave) bus).promise slave) ⟨s.ack, s.do0⟩
      bus.request := by
  constructor
  · rintro words ⟨hack, -⟩ hacked
    exact absurd (hacked.symm.trans hack) (by decide)
  · rintro words ⟨-, hholds⟩ hnot
    have hen : en (bus.cyc && slaveSel bus.adr slave) bus = false := by
      cases hcyc : bus.cyc with
      | false => rw [en, Bool.false_and, Bool.and_false]
      | true =>
        have hr : bus.toRequest ∈ bus.request := by rw [Wishbone.request, hcyc]; rfl
        have hsel := hnot _ hr
        rw [hregion.takes] at hsel
        rw [en, hsel, Bool.and_false, Bool.and_false]
    obtain ⟨hack, hram⟩ := s.clockEdge_of_not_en hen
    have hsame : (s.clockEdge (bus.cyc && slaveSel bus.adr slave) bus).Holds slave words := by
      rw [Holds, hram]
      exact hholds
    refine ⟨⟨hack, hsame⟩, fun r hr ↦ ⟨hack, hsame.write_of_not_sel ?_⟩⟩
    rw [← hregion.takes]
    exact hnot r hr
  · rintro words r hr htakes ⟨hack, hholds⟩
    obtain rfl := Wishbone.eq_of_request hstb hr
    rw [hregion.takes] at htakes
    refine ⟨hack, 0, by decide, rfl, ?_⟩
    rw [htakes]
    refine ⟨?_, hholds.clockEdge hregion htakes, fun _ ↦ hholds _ htakes⟩
    simp [DffRam.clockEdge, en, hack]
  · rintro words r - k - ⟨hk, -⟩
    cases hk
  · rintro words r hr htakes ⟨-, hack, hholds, hdata⟩
    obtain rfl := Wishbone.eq_of_request hstb hr
    rw [hregion.takes] at htakes
    rw [htakes]
    refine ⟨hack, ⟨?_, ?_⟩, hdata⟩
    · simp [DffRam.clockEdge, en, hack]
    · have hagain := hholds.clockEdge hregion htakes
      rwa [Words.write_write] at hagain

end DffRam

/-! ## The flash -/

section Flash

variable {memory : BitVec 24 → BitVec 8} {words : Words} {bus : Wishbone}

/-- The flash holds the words of its region. -/
def FlashHolds (memory : BitVec 24 → BitVec 8) (words : Words) : Prop :=
  ∀ adr, slaveSel adr .litespimmap = true → wordAt memory adr = words adr

def flashPromise (config : LiteSpiConfig) (memory : BitVec 24 → BitVec 8) (spi : LiteSpi)
    (chip : SpiFlash) : Promise where
  rests words := Resting memory spi chip ∧ FlashHolds memory words
  due words r k := Awaits config memory r.adr k spi chip ∧ FlashHolds memory words

/-- No request writes the flash. -/
theorem FlashHolds.write (h : FlashHolds memory words) (r : Request) :
    FlashHolds memory (words.write r) := by
  intro adr hadr
  rw [h adr hadr, Words.write]
  split
  · next hwrite =>
    rw [Function.update_of_ne]
    rintro rfl
    rcases hwrite.2 with hdff | hdff2
    · cases slaveSel_unique hadr hdff
    · cases slaveSel_unique hadr hdff2
  · rfl

theorem inRegion_of_slaveSel {adr : BitVec 30} (h : slaveSel adr .litespimmap = true) :
    InRegion adr :=
  beq_iff_eq.1 h

theorem bitClocks_le (config : LiteSpiConfig) : config.bitClocks ≤ 512 := by
  have hdiv := config.spiClkDivisor.isLt
  rw [LiteSpiConfig.bitClocks, LiteSpiConfig.div]
  omega

/-- The bus at the flash controller; its other port is idle. -/
def spiInputs (bus : Wishbone) (chip : SpiFlash) : LiteSpiInputs where
  busAdr := bus.adr
  busCyc := bus.cyc && slaveSel bus.adr .litespimmap
  busStb := bus.stb
  busWe := bus.we
  masterCs := false
  masterSink := .none
  masterSourceReady := false
  flashIo1Di := chip.io1

theorem reads_of_takes {r : Request} (hstb : bus.stb = bus.cyc) (hr : r ∈ bus.request)
    (h : takes .litespimmap r = true) (chip : SpiFlash) :
    Reads r.adr chip (spiInputs bus chip) := by
  obtain rfl := Wishbone.eq_of_request hstb hr
  refine ⟨rfl, ?_, rfl, rfl⟩
  rw [takes, Bool.and_eq_true] at h
  simp [LiteSpi.busRead, spiInputs, h]

theorem free_of_not_takes (hstb : bus.stb = bus.cyc)
    (h : ∀ r ∈ bus.request, takes .litespimmap r = false) (chip : SpiFlash) :
    Free (spiInputs bus chip) := by
  refine ⟨?_, rfl⟩
  cases hcyc : bus.cyc with
  | false => simp [LiteSpi.busRead, spiInputs, hcyc]
  | true =>
    have hnot := h bus.toRequest (by rw [Wishbone.request, hcyc]; rfl)
    rw [takes] at hnot
    simpa [LiteSpi.busRead, spiInputs, hcyc, hstb] using hnot

/-- **The flash as a slave.** -/
theorem flash_contract {config : LiteSpiConfig} (hdummy : config.spiDummyBits = 0#8)
    (spi : LiteSpi) (chip : SpiFlash) (floating : Bool) (hstb : bus.stb = bus.cyc) :
    Contract .litespimmap (flashPromise config memory spi chip)
      (flashPromise config memory (spi.clockEdge config (spiInputs bus chip))
        (chip.step memory
          (FlashBus.pins (spi.clockEdge config (spiInputs bus chip)) floating)))
      ⟨spi.busAck, spi.busDatR⟩ bus.request := by
  constructor
  · rintro words ⟨hrests, -⟩ hacked
    have hack : spi.busAck = false := busAck_of_ne (by rw [hrests.state]; decide)
    exact absurd (hacked.symm.trans hack) (by decide)
  · rintro words ⟨hrests, hholds⟩ hnot
    obtain ⟨-, hnext⟩ := hrests.rest config floating (free_of_not_takes hstb hnot chip)
    exact ⟨⟨hnext, hholds⟩, fun r _ ↦ ⟨hnext, hholds.write r⟩⟩
  · rintro words r hr htakes ⟨hrests, hholds⟩
    obtain ⟨hack, k, hk, hnext⟩ :=
      hrests.accept config floating (reads_of_takes hstb hr htakes chip)
    have hclocks := bitClocks_le config
    exact ⟨hack, k, by omega, hnext, hholds⟩
  · rintro words r hr k htakes ⟨hawaits, hholds⟩
    obtain ⟨hack, hnext⟩ := hawaits.step floating hdummy
      (inRegion_of_slaveSel (takes_selected htakes)) (reads_of_takes hstb hr htakes chip)
    exact ⟨hack, hnext, hholds⟩
  · rintro words r hr htakes ⟨hawaits, hholds⟩
    have hsel := takes_selected htakes
    obtain ⟨hack, hdata, hnext⟩ := hawaits.ack floating (inRegion_of_slaveSel hsel)
      (reads_of_takes hstb hr htakes chip)
    exact ⟨hack, ⟨hnext, hholds.write r⟩, fun _ ↦ hdata.trans (hholds _ hsel)⟩

end Flash

/-! ## Bus and memories -/

/-- The bus with the memories behind it. -/
structure MemoryBus where
  core : ManagementBus
  dff : DffRam 8
  dff2 : DffRam 7
  spi : LiteSpi
  chip : SpiFlash

namespace MemoryBus

/-- What a clock brings: the masters, the other slaves, and the level of `io0` while nobody drives
it. -/
structure Event where
  request : Master → Bool
  lines : Master → Request
  outside : Slave → Reply
  floating : Bool

def replies (s : MemoryBus) (e : Event) : Slave → Reply
  | .dff => ⟨s.dff.ack, s.dff.do0⟩
  | .dff2 => ⟨s.dff2.ack, s.dff2.do0⟩
  | .litespimmap => ⟨s.spi.busAck, s.spi.busDatR⟩
  | .vexriscvDebug => e.outside .vexriscvDebug
  | .mprj => e.outside .mprj
  | .hk => e.outside .hk
  | .csr => e.outside .csr

def busEvent (s : MemoryBus) (e : Event) : ManagementBus.Event where
  request := e.request
  lines := e.lines
  replies := s.replies e

/-- The lines that all slaves see. -/
def bus (s : MemoryBus) (e : Event) : Wishbone := s.core.bus.shared (s.core.masters (s.busEvent e))

/-- The `cyc` of a slave. -/
def slaveCyc (s : MemoryBus) (e : Event) (slave : Slave) : Bool :=
  s.core.bus.slaveCyc (s.core.masters (s.busEvent e)) slave

/-- One clock. -/
def step (config : LiteSpiConfig) (memory : BitVec 24 → BitVec 8) (s : MemoryBus) (e : Event) :
    MemoryBus where
  core := s.core.step (s.busEvent e)
  dff := s.dff.clockEdge (s.slaveCyc e .dff) (s.bus e)
  dff2 := s.dff2.clockEdge (s.slaveCyc e .dff2) (s.bus e)
  spi := s.spi.clockEdge config (spiInputs (s.bus e) s.chip)
  chip := s.chip.step memory
    (FlashBus.pins (s.spi.clockEdge config (spiInputs (s.bus e) s.chip)) e.floating)

/-- The access that ends. -/
def completed (s : MemoryBus) (e : Event) : List (Master × Request × BitVec 32) :=
  s.core.completed (s.busEvent e)

/-- The other slaves acknowledge only while they are selected. -/
def OnlySelected (s : MemoryBus) (e : Event) : Prop :=
  ∀ slave, (e.outside slave).ack = true → s.slaveCyc e slave = true

/-- The promises of the slaves; the others promise nothing. -/
def promise (config : LiteSpiConfig) (memory : BitVec 24 → BitVec 8) (s : MemoryBus) :
    Slave → Promise
  | .dff => s.dff.promise .dff
  | .dff2 => s.dff2.promise .dff2
  | .litespimmap => flashPromise config memory s.spi s.chip
  | .vexriscvDebug | .mprj | .hk | .csr => .empty

/-- The bus is at `busy`, or free, and the slaves keep their promises. -/
structure Tracks (config : LiteSpiConfig) (memory : BitVec 24 → BitVec 8) (s : MemoryBus)
    (words : Words) (busy : Option Request) : Prop extends s.core.Busy busy where
  kept : ∀ slave, (s.promise config memory slave).Kept slave words busy s.core.bus.count.toNat

section Step

variable {config : LiteSpiConfig} {memory : BitVec 24 → BitVec 8} {s : MemoryBus} {e : Event}
  {words : Words} {busy : Option Request}

theorem bus_stb (s : MemoryBus) (e : Event) : (s.bus e).stb = (s.bus e).cyc :=
  ManagementBus.stb_eq _ _ _

theorem contract (hdummy : config.spiDummyBits = 0#8) (hselected : s.OnlySelected e)
    (slave : Slave) :
    Contract slave (s.promise config memory slave)
      ((s.step config memory e).promise config memory slave) (s.replies e slave)
      (s.bus e).request := by
  have houtside : ∀ slave, (e.outside slave).ack = true →
      ∃ r ∈ (s.bus e).request, slaveSel r.adr slave = true := by
    intro slave hack
    have hsel := hselected slave hack
    rw [slaveCyc, Interconnect.slaveCyc, Bool.and_eq_true] at hsel
    refine ⟨(s.bus e).toRequest, ?_, hsel.2⟩
    rw [Wishbone.request, bus, hsel.1]
    rfl
  cases slave with
  | dff => exact DffRam.contract dff_isRegion s.dff (bus_stb s e)
  | dff2 => exact DffRam.contract dff2_isRegion s.dff2 (bus_stb s e)
  | litespimmap => exact flash_contract hdummy s.spi s.chip e.floating (bus_stb s e)
  | vexriscvDebug => exact Promise.empty_contract (fun _ ↦ rfl) (houtside _)
  | mprj => exact Promise.empty_contract (fun _ ↦ rfl) (houtside _)
  | hk => exact Promise.empty_contract (fun _ ↦ rfl) (houtside _)
  | csr => exact Promise.empty_contract (fun _ ↦ rfl) (houtside _)

/-- While an access is under way it is on the bus. -/
theorem Tracks.request (h : Tracks config memory s words busy) {r : Request} (hr : r ∈ busy)
    (e : Event) : (s.bus e).request = some r := by
  rw [bus, h.toBusy.shared hr]
  rfl

/-- Only a slave that is selected acknowledges. -/
theorem Tracks.selected (h : Tracks config memory s words busy) (hdummy : config.spiDummyBits = 0#8)
    (hselected : s.OnlySelected e) {slave : Slave} (hack : (s.replies e slave).ack = true) :
    ∃ r ∈ (s.bus e).request, slaveSel r.adr slave = true := by
  have hkept := h.kept slave
  rw [Promise.Kept] at hkept
  split at hkept
  · exact (contract hdummy hselected slave).rest words hkept hack
  · next r hr =>
    obtain ⟨hbusy, htakes⟩ := Option.filter_eq_some_iff.1 hr
    exact ⟨r, h.request hbusy e, takes_selected htakes⟩

/-- A request that a memory takes waits on, or it ends with the word. -/
theorem Tracks.taken (h : Tracks config memory s words busy) (hdummy : config.spiDummyBits = 0#8)
    (hselected : s.OnlySelected e) {r : Request} (hr : (s.bus e).request = some r) {slave : Slave}
    (htakes : takes slave r = true) :
    s.core.bus.sharedAck (s.replies e) = false ∧
        (∃ k < s.core.bus.count.toNat - 1,
          ((s.step config memory e).promise config memory slave).due words r k) ∨
      s.core.bus.sharedAck (s.replies e) = true ∧
        ((s.step config memory e).promise config memory slave).rests (words.write r) ∧
        (r.we = false → s.core.bus.sharedDatR (s.replies e) = words r.adr) := by
  have hcontract : Contract slave (s.promise config memory slave) _ _ _ :=
    contract hdummy hselected slave
  have hdone : s.core.bus.count.toNat ≠ 0 → s.core.bus.done = false := by
    intro hcount
    rw [Interconnect.done, beq_eq_false_iff_ne, Ne, ← BitVec.toNat_inj]
    exact hcount
  have hwaits : s.core.bus.count.toNat ≠ 0 → (s.replies e slave).ack = false →
      s.core.bus.sharedAck (s.replies e) = false := by
    intro hcount hack
    rw [Interconnect.sharedAck, hdone hcount, Bool.or_false, List.any_eq_false]
    rintro slave' - hack'
    obtain ⟨r', hr', hsel⟩ := h.selected hdummy hselected hack'
    obtain rfl : r = r' := Option.some.inj (hr.symm.trans hr')
    obtain rfl := slaveSel_unique hsel (takes_selected htakes)
    exact absurd (hack'.symm.trans hack) (by decide)
  have hkept := h.kept slave
  cases hbusy : busy with
  | none =>
    rw [hbusy] at hkept
    have hcount := h.count hbusy
    obtain ⟨hack, k, hk, hdue⟩ := hcontract.take words r hr htakes hkept
    exact .inl ⟨hwaits (by omega) hack, k, by omega, hdue⟩
  | some r' =>
    obtain rfl : r = r' := Option.some.inj (hr.symm.trans (h.request hbusy e))
    rw [hbusy, Promise.Kept, Option.filter_some, if_pos htakes] at hkept
    obtain ⟨k, hk, hdue⟩ := hkept
    cases k with
    | zero =>
      obtain ⟨hack, hrests, hdata⟩ := hcontract.answer words r hr htakes hdue
      refine .inr ⟨?_, hrests, fun hwe ↦ ?_⟩
      · rw [Interconnect.sharedAck, Bool.or_eq_true, List.any_eq_true]
        exact .inl ⟨slave, by cases slave <;> decide, hack⟩
      · rw [← hdata hwe]
        exact Interconnect.sharedDatR_of_slaveSel (hdone (by omega)) (h.slaveSelR r hbusy)
          (takes_selected htakes)
    | succ k =>
      obtain ⟨hack, hnext⟩ := hcontract.wait words r hr k htakes hdue
      exact .inl ⟨hwaits (by omega) hack, k, by omega, hnext⟩

/-- A slave that does not take the request goes on resting. -/
theorem Tracks.passed (h : Tracks config memory s words busy) (hdummy : config.spiDummyBits = 0#8)
    (hselected : s.OnlySelected e) (slave : Slave)
    (htakes : ∀ r ∈ (s.bus e).request, takes slave r = false) :
    ((s.step config memory e).promise config memory slave).rests words ∧
      ∀ r ∈ (s.bus e).request,
        ((s.step config memory e).promise config memory slave).rests (words.write r) := by
  refine (contract hdummy hselected slave).pass words ?_ htakes
  have hkept := h.kept slave
  rw [Promise.Kept, Option.filter_eq_none_iff.2] at hkept
  · exact hkept
  · intro r hr htake
    exact absurd (htake.symm.trans (htakes r (h.request hr e))) (by decide)

/-- A clock without a request. -/
theorem Tracks.step_free (h : Tracks config memory s words busy)
    (hdummy : config.spiDummyBits = 0#8) (hselected : s.OnlySelected e)
    (hcyc : (s.bus e).cyc = false) : Tracks config memory (s.step config memory e) words none := by
  have hbusy := s.core.busy_step (s.busEvent e)
  rw [ManagementBus.nextBusy_of_free hcyc] at hbusy
  have hnone : (s.bus e).request = none := by rw [Wishbone.request, hcyc]; rfl
  exact ⟨hbusy, fun slave ↦ (h.passed hdummy hselected slave (by simp [hnone])).1⟩

/-- The clock of an acknowledge. -/
theorem Tracks.step_acked (h : Tracks config memory s words busy)
    (hdummy : config.spiDummyBits = 0#8) (hselected : s.OnlySelected e) {r : Request}
    (hr : (s.bus e).request = some r) (hack : s.core.bus.sharedAck (s.replies e) = true) :
    (r.we = false → Readable r.adr → s.core.bus.sharedDatR (s.replies e) = words r.adr) ∧
      Tracks config memory (s.step config memory e) (words.write r) none := by
  have hbusy := s.core.busy_step (s.busEvent e)
  rw [ManagementBus.nextBusy_of_acked hack] at hbusy
  have htaken : ∀ slave, takes slave r = true →
      ((s.step config memory e).promise config memory slave).rests (words.write r) ∧
        (r.we = false → s.core.bus.sharedDatR (s.replies e) = words r.adr) := by
    intro slave htakes
    rcases h.taken hdummy hselected hr htakes with ⟨hnot, -⟩ | ⟨-, hends⟩
    · exact absurd (hack.symm.trans hnot) (by decide)
    · exact hends
  refine ⟨fun hwe hreadable ↦ ?_, hbusy, fun slave ↦ ?_⟩
  · obtain ⟨slave, htakes⟩ := exists_takes hwe hreadable
    exact (htaken slave htakes).2 hwe
  · change ((s.step config memory e).promise config memory slave).rests (words.write r)
    cases htakes : takes slave r with
    | true => exact (htaken slave htakes).1
    | false => exact (h.passed hdummy hselected slave (by simpa [hr] using htakes)).2 r hr

/-- A clock of waiting. -/
theorem Tracks.step_waiting (h : Tracks config memory s words busy)
    (hdummy : config.spiDummyBits = 0#8) (hselected : s.OnlySelected e)
    (hcyc : (s.bus e).cyc = true) (hack : s.core.bus.sharedAck (s.replies e) = false) :
    Tracks config memory (s.step config memory e) words (some (s.bus e).toRequest) := by
  have hbusy := s.core.busy_step (s.busEvent e)
  rw [ManagementBus.nextBusy_of_waiting hcyc hack] at hbusy
  have hcount : (s.step config memory e).core.bus.count.toNat = s.core.bus.count.toNat - 1 :=
    (ManagementBus.count_step s.core (s.busEvent e)).trans (if_pos ⟨hcyc, hack⟩)
  have hr : (s.bus e).request = some (s.bus e).toRequest := by
    rw [Wishbone.request, hcyc]
    rfl
  refine ⟨hbusy, fun slave ↦ ?_⟩
  rw [Promise.Kept, hcount, Option.filter_some]
  cases htakes : takes slave (s.bus e).toRequest with
  | false => exact (h.passed hdummy hselected slave (by simpa [hr] using htakes)).1
  | true =>
    rcases h.taken hdummy hselected hr htakes with ⟨-, hdue⟩ | ⟨hyes, -⟩
    · exact hdue
    · exact absurd (hyes.symm.trans hack) (by decide)

/-- **One clock of bus and memories.** -/
theorem Tracks.step (h : Tracks config memory s words busy) (hdummy : config.spiDummyBits = 0#8)
    (hselected : s.OnlySelected e) :
    Along Words.perform Words.Answers words (s.completed e) ∧
      ∃ busy', Tracks config memory (s.step config memory e)
        (run Words.perform words (s.completed e)) busy' := by
  have hcompleted : s.completed e =
      if (s.bus e).cyc && s.core.bus.sharedAck (s.replies e) then
        [(s.core.bus.grant, (s.bus e).toRequest, s.core.bus.sharedDatR (s.replies e))]
      else [] := rfl
  cases hcyc : (s.bus e).cyc with
  | false =>
    rw [hcompleted, hcyc, if_neg (by simp)]
    exact ⟨trivial, none, h.step_free hdummy hselected hcyc⟩
  | true =>
    cases hack : s.core.bus.sharedAck (s.replies e) with
    | true =>
      have hr : (s.bus e).request = some (s.bus e).toRequest := by
        rw [Wishbone.request, hcyc]
        rfl
      obtain ⟨hdata, hnext⟩ := h.step_acked hdummy hselected hr hack
      rw [hcompleted, hcyc, hack, if_pos (by decide)]
      exact ⟨⟨hdata, trivial⟩, none, hnext⟩
    | false =>
      rw [hcompleted, hcyc, hack, if_neg (by decide)]
      exact ⟨trivial, _, h.step_waiting hdummy hselected hcyc hack⟩

theorem Tracks.run (h : Tracks config memory s words busy) (hdummy : config.spiDummyBits = 0#8)
    {events : List Event} (hselected : Along (MemoryBus.step config memory) OnlySelected s events) :
    Along Words.perform Words.Answers words
      (trace (MemoryBus.step config memory) completed s events) := by
  refine (along_trace (R := fun s words ↦ ∃ busy, Tracks config memory s words busy) ?_
    ⟨busy, h⟩ hselected).1
  rintro s words e ⟨busy, htracks⟩ hsel
  exact htracks.step hdummy hsel

end Step

/-! ## From the reset on -/

/-- After the reset, with any words in the memories and the flash deselected. -/
structure IsReset (s : MemoryBus) : Prop where
  core : s.core = .reset
  dff : s.dff.ack = false
  dff2 : s.dff2.ack = false
  spi : s.spi = .reset
  standby : s.chip.Standby
  low : s.chip.clk = false

/-- The words of the memories, each in its region. -/
def contents (memory : BitVec 24 → BitVec 8) (s : MemoryBus) : Words := fun adr ↦
  if slaveSel adr .dff then s.dff.ram (adr.setWidth 8)
  else if slaveSel adr .dff2 then s.dff2.ram (adr.setWidth 7)
  else wordAt memory adr

theorem IsReset.tracks {s : MemoryBus} (h : s.IsReset) (config : LiteSpiConfig)
    (memory : BitVec 24 → BitVec 8) : Tracks config memory s (s.contents memory) none := by
  have hdff : s.dff.Holds .dff (s.contents memory) := by
    intro adr hadr
    rw [contents, if_pos hadr]
  have hdff2 : s.dff2.Holds .dff2 (s.contents memory) := by
    intro adr hadr
    rw [contents, if_neg, if_pos hadr]
    exact fun hsel ↦ by cases slaveSel_unique hsel hadr
  have hflash : FlashHolds memory (s.contents memory) := by
    intro adr hadr
    rw [contents, if_neg, if_neg]
    · exact fun hsel ↦ by cases slaveSel_unique hsel hadr
    · exact fun hsel ↦ by cases slaveSel_unique hsel hadr
  refine ⟨⟨fun _ ↦ by rw [h.core]; rfl, by simp, by simp⟩, fun slave ↦ ?_⟩
  change (s.promise config memory slave).rests _
  cases slave with
  | dff => exact ⟨h.dff, hdff⟩
  | dff2 => exact ⟨h.dff2, hdff2⟩
  | litespimmap =>
    change Resting memory s.spi s.chip ∧ _
    rw [h.spi]
    exact ⟨.reset h.standby h.low, hflash⟩
  | _ => trivial

/-- Empty memories, and the data bus that writes word 3 before the instruction bus reads it. -/
def atReset : MemoryBus where
  core := .reset
  dff := ⟨false, 0#32, fun _ ↦ 0#32⟩
  dff2 := ⟨false, 0#32, fun _ ↦ 0#32⟩
  spi := .reset
  chip := .deselected

def writeThenRead : List Event :=
  let write : Request := ⟨3#30, 0x12345678#32, 0b0011#4, true⟩
  let read : Request := ⟨3#30, 0#32, 0b1111#4, false⟩
  let lines : Master → Request := fun master ↦ if master = .dbus then write else read
  let clock (request : Master → Bool) : Event := ⟨request, lines, fun _ ↦ ⟨false, 0#32⟩, false⟩
  [clock fun master ↦ master == .dbus, clock fun _ ↦ false, clock fun master ↦ master == .ibus,
    clock fun _ ↦ false, clock fun _ ↦ false, clock fun _ ↦ false]

example :
    trace (step .reset SpiFlash.lowBytes) completed atReset writeThenRead =
      [(.dbus, ⟨3#30, 0x12345678#32, 0b0011#4, true⟩, 0#32),
        (.ibus, ⟨3#30, 0#32, 0b1111#4, false⟩, 0x5678#32)] := by
  decide

end MemoryBus

end CaravelSoc.Management
