import CaravelSoc.Management.Interconnect
import Mathlib.Data.List.FinRange

/-!
# The control and status registers

The last slave of the bus is a bridge to twenty banks of registers. An access takes
two clocks. In the first the bridge shows the address to all banks; the register there
takes the value that is written, and its bank keeps the value that is read. In the
second the bridge acknowledges with what all the banks have kept.
-/

namespace CaravelSoc.Management

/-- The registers of an input that may interrupt. -/
inductive GpioinRegister
  | input
  | mode
  | edge
  | evStatus
  | evPending
  | evEnable
  deriving DecidableEq, Repr

/-- The registers, bank by bank. -/
inductive CsrRegister
  | reset
  | scratch
  | busErrors
  | debugMode
  | debugOeb
  | mmapDummyBits
  | masterCs
  | masterPhyconfig
  | masterRxtx
  | masterStatus
  | clkDivisor
  | gpioMode1
  | gpioMode0
  | gpioIen
  | gpioOe
  | gpioIn
  | gpioOut
  | laIen (word : Fin 4)
  | laOe (word : Fin 4)
  | laIn (word : Fin 4)
  | laOut (word : Fin 4)
  | mprjWbIena
  | spiEnabled
  | spiControl
  | spiStatus
  | spiMosi
  | spiMiso
  | spiCs
  | spiLoopback
  | spiClkDivider
  | timerLoad
  | timerReload
  | timerEn
  | timerUpdateValue
  | timerValue
  | timerEvStatus
  | timerEvPending
  | timerEvEnable
  | uartRxtx
  | uartTxfull
  | uartRxempty
  | uartEvStatus
  | uartEvPending
  | uartEvEnable
  | uartTxempty
  | uartRxfull
  | uartEnabled
  | gpioin (n : Fin 6) (register : GpioinRegister)
  | userIrqEna
  deriving DecidableEq, Repr

namespace GpioinRegister

def all : List GpioinRegister := [.input, .mode, .edge, .evStatus, .evPending, .evEnable]

def index : GpioinRegister → BitVec 9
  | .input => 0#9
  | .mode => 1#9
  | .edge => 2#9
  | .evStatus => 3#9
  | .evPending => 4#9
  | .evEnable => 5#9

end GpioinRegister

namespace CsrRegister

/-- The bank, in bits 9 to 13 of the address. -/
def bank : CsrRegister → Fin 20
  | .reset | .scratch | .busErrors => 0
  | .debugMode => 1
  | .debugOeb => 2
  | .mmapDummyBits | .masterCs | .masterPhyconfig | .masterRxtx | .masterStatus => 3
  | .clkDivisor => 4
  | .gpioMode1 | .gpioMode0 | .gpioIen | .gpioOe | .gpioIn | .gpioOut => 5
  | .laIen _ | .laOe _ | .laIn _ | .laOut _ => 6
  | .mprjWbIena => 7
  | .spiEnabled => 8
  | .spiControl | .spiStatus | .spiMosi | .spiMiso | .spiCs | .spiLoopback | .spiClkDivider => 9
  | .timerLoad | .timerReload | .timerEn | .timerUpdateValue | .timerValue | .timerEvStatus
  | .timerEvPending | .timerEvEnable => 10
  | .uartRxtx | .uartTxfull | .uartRxempty | .uartEvStatus | .uartEvPending | .uartEvEnable
  | .uartTxempty | .uartRxfull => 11
  | .uartEnabled => 12
  | .gpioin n _ => ⟨13 + n, by omega⟩
  | .userIrqEna => 19

/-- The place in the bank, in bits 0 to 8. The highest of four words comes first. -/
def index : CsrRegister → BitVec 9
  | .reset => 0#9
  | .scratch => 1#9
  | .busErrors => 2#9
  | .debugMode => 0#9
  | .debugOeb => 0#9
  | .mmapDummyBits => 0#9
  | .masterCs => 1#9
  | .masterPhyconfig => 2#9
  | .masterRxtx => 3#9
  | .masterStatus => 4#9
  | .clkDivisor => 0#9
  | .gpioMode1 => 0#9
  | .gpioMode0 => 1#9
  | .gpioIen => 2#9
  | .gpioOe => 3#9
  | .gpioIn => 4#9
  | .gpioOut => 5#9
  | .laIen word => BitVec.ofNat 9 (3 - word)
  | .laOe word => BitVec.ofNat 9 (7 - word)
  | .laIn word => BitVec.ofNat 9 (11 - word)
  | .laOut word => BitVec.ofNat 9 (15 - word)
  | .mprjWbIena => 0#9
  | .spiEnabled => 0#9
  | .spiControl => 0#9
  | .spiStatus => 1#9
  | .spiMosi => 2#9
  | .spiMiso => 3#9
  | .spiCs => 4#9
  | .spiLoopback => 5#9
  | .spiClkDivider => 6#9
  | .timerLoad => 0#9
  | .timerReload => 1#9
  | .timerEn => 2#9
  | .timerUpdateValue => 3#9
  | .timerValue => 4#9
  | .timerEvStatus => 5#9
  | .timerEvPending => 6#9
  | .timerEvEnable => 7#9
  | .uartRxtx => 0#9
  | .uartTxfull => 1#9
  | .uartRxempty => 2#9
  | .uartEvStatus => 3#9
  | .uartEvPending => 4#9
  | .uartEvEnable => 5#9
  | .uartTxempty => 6#9
  | .uartRxfull => 7#9
  | .uartEnabled => 0#9
  | .gpioin _ register => register.index
  | .userIrqEna => 0#9

/-- How many bits of a write are stored; none where nothing is. -/
def storageWidth : CsrRegister → ℕ
  | .reset => 2
  | .scratch => 32
  | .busErrors => 0
  | .debugMode | .debugOeb => 1
  | .mmapDummyBits => 8
  | .masterCs => 1
  | .masterPhyconfig => 24
  | .masterRxtx | .masterStatus => 0
  | .clkDivisor => 8
  | .gpioMode1 | .gpioMode0 | .gpioIen | .gpioOe | .gpioOut => 1
  | .gpioIn => 0
  | .laIen _ | .laOe _ | .laOut _ => 32
  | .laIn _ => 0
  | .mprjWbIena | .spiEnabled => 1
  | .spiControl => 16
  | .spiMosi => 8
  | .spiCs => 17
  | .spiLoopback => 1
  | .spiClkDivider => 16
  | .spiStatus | .spiMiso => 0
  | .timerLoad | .timerReload => 32
  | .timerEn | .timerUpdateValue | .timerEvPending | .timerEvEnable => 1
  | .timerValue | .timerEvStatus => 0
  | .uartEvPending | .uartEvEnable => 2
  | .uartRxtx | .uartTxfull | .uartRxempty | .uartEvStatus | .uartTxempty | .uartRxfull => 0
  | .uartEnabled => 1
  | .gpioin _ .mode | .gpioin _ .edge | .gpioin _ .evPending | .gpioin _ .evEnable => 1
  | .gpioin _ .input | .gpioin _ .evStatus => 0
  | .userIrqEna => 3

/-- How many bits of a status are read; none where the storage is read back. -/
def statusWidth : CsrRegister → ℕ
  | .busErrors => 32
  | .masterRxtx => 32
  | .masterStatus => 2
  | .gpioIn => 1
  | .laIn _ => 32
  | .spiStatus => 1
  | .spiMiso => 8
  | .timerValue => 32
  | .timerEvStatus | .timerEvPending => 1
  | .uartRxtx => 8
  | .uartTxfull | .uartRxempty | .uartTxempty | .uartRxfull => 1
  | .uartEvStatus | .uartEvPending => 2
  | .gpioin _ .input | .gpioin _ .evStatus | .gpioin _ .evPending => 1
  | _ => 0

/-- The address of a register among the words of the slave. -/
def address (r : CsrRegister) : BitVec 14 := BitVec.ofNat 5 r.bank ++ r.index

def all : List CsrRegister :=
  List.flatten
    [[reset, scratch, busErrors, debugMode, debugOeb, mmapDummyBits, masterCs, masterPhyconfig,
        masterRxtx, masterStatus, clkDivisor, gpioMode1, gpioMode0, gpioIen, gpioOe, gpioIn,
        gpioOut],
      (List.finRange 4).map laIen, (List.finRange 4).map laOe, (List.finRange 4).map laIn,
      (List.finRange 4).map laOut,
      [mprjWbIena, spiEnabled, spiControl, spiStatus, spiMosi, spiMiso, spiCs, spiLoopback,
        spiClkDivider, timerLoad, timerReload, timerEn, timerUpdateValue, timerValue,
        timerEvStatus, timerEvPending, timerEvEnable, uartRxtx, uartTxfull, uartRxempty,
        uartEvStatus, uartEvPending, uartEvEnable, uartTxempty, uartRxfull, uartEnabled],
      (List.finRange 6).flatMap (fun n ↦ GpioinRegister.all.map (gpioin n)),
      [userIrqEna]]

/-- The register at an address. -/
def decode (adr : BitVec 14) : Option CsrRegister := all.find? (fun r ↦ r.address == adr)

theorem mem_all (r : CsrRegister) : r ∈ all := by
  have hwords : ∀ word : Fin 4,
      .laIen word ∈ all ∧ .laOe word ∈ all ∧ .laIn word ∈ all ∧ .laOut word ∈ all := by decide
  have hgpioin : ∀ n : Fin 6, ∀ register ∈ GpioinRegister.all, .gpioin n register ∈ all := by
    decide
  cases r with
  | gpioin n register => exact hgpioin n register (by cases register <;> decide)
  | laIen word => exact (hwords word).1
  | laOe word => exact (hwords word).2.1
  | laIn word => exact (hwords word).2.2.1
  | laOut word => exact (hwords word).2.2.2
  | _ => decide

/-- Every register is found at its address. -/
theorem decode_address (r : CsrRegister) : decode r.address = some r := by
  have hall : ∀ r ∈ all, decode r.address = some r := by decide +kernel
  exact hall r (mem_all r)

/-- The address of a register on the bus, a word of `CSR_BASE` and up. -/
def busAddress (r : CsrRegister) : BitVec 30 := 61440#16 ++ r.address

theorem slaveSel_busAddress (r : CsrRegister) : slaveSel r.busAddress .csr = true := by
  rw [slaveSel, busAddress, BitVec.extractLsb'_append_eq_left, beq_self_eq_true]

@[simp]
theorem setWidth_busAddress (r : CsrRegister) : r.busAddress.setWidth 14 = r.address :=
  BitVec.setWidth_append_eq_right

end CsrRegister

/-- The storages of the registers. -/
abbrev Registers := (r : CsrRegister) → BitVec r.storageWidth

/-- The statuses that the registers show. -/
abbrev CsrStatus := (r : CsrRegister) → BitVec r.statusWidth

/-- The bridge and the banks; `datR` is what a bank has kept. -/
structure Csr where
  state : Bool
  datR : Fin 20 → BitVec 32
  storage : Registers

namespace Csr

/-- The storages after a reset. -/
def resetStorage : Registers := fun r ↦
  match r with
  | .scratch => 305419896#32
  | .clkDivisor => 1#8
  | .spiCs => 1#17
  | .spiClkDivider => 100#16
  | r => 0#r.storageWidth

def reset : Csr where
  state := false
  datR := fun _ ↦ 0#32
  storage := resetStorage

variable (s : Csr) (cyc : Bool) (bus : Wishbone) (status : CsrStatus)

/-- What a read of a register brings. -/
def value (r : CsrRegister) : BitVec 32 :=
  if r.statusWidth = 0 then (s.storage r).setWidth 32 else (status r).setWidth 32

/-- An access is shown to the banks. -/
def taken : Bool := !s.state && cyc && bus.stb

/-- `mgmtsoc_adr`. -/
def adr : BitVec 14 := if s.taken cyc bus then bus.adr.setWidth 14 else 0#14

/-- `mgmtsoc_we`. -/
def we : Bool := s.taken cyc bus && bus.we && bus.sel != 0#4

/-- `mgmtsoc_dat_w`. -/
def datW : BitVec 32 := if !s.state then bus.datW else 0#32

/-- One clock. -/
def clockEdge : Csr where
  state := s.taken cyc bus
  datR bank :=
    match CsrRegister.decode (s.adr cyc bus) with
    | some r => if r.bank = bank then s.value status r else 0#32
    | none => 0#32
  storage r :=
    if s.we cyc bus && CsrRegister.decode (s.adr cyc bus) == some r then
      (s.datW bus).setWidth r.storageWidth
    else s.storage r

def busAck : Bool := s.state

/-- All the banks together. -/
def busDatR : BitVec 32 :=
  if s.state then (List.finRange 20).foldl (fun data bank ↦ data ||| s.datR bank) 0#32 else 0#32

end Csr

/-! ## What an access does -/

/-- An access of a register. -/
inductive CsrAccess
  | read (r : CsrRegister) (data : BitVec 32)
  | write (r : CsrRegister) (data : BitVec r.storageWidth)

/-- The access of a request, with what it brings. A write that selects no byte is a read. -/
def CsrAccess.of (request : Request) (datR : BitVec 32) : Option CsrAccess :=
  (CsrRegister.decode (request.adr.setWidth 14)).map fun r ↦
    if request.we && request.sel != 0#4 then .write r (request.datW.setWidth r.storageWidth)
    else .read r datR

/-- What an access leaves. -/
def Registers.perform (registers : Registers) : CsrAccess → Registers
  | .read _ _ => registers
  | .write r data => Function.update registers r data

/-- What a read must bring: what is stored, where no status is shown. -/
def Registers.Answers (registers : Registers) : CsrAccess → Prop
  | .read r data => r.statusWidth = 0 → data = (registers r).setWidth 32
  | .write _ _ => True

/-- A read leaves the storages as they are. -/
theorem CsrAccess.elim_of_read {request : Request} (h : request.we = false) (datR : BitVec 32)
    (registers : Registers) :
    (CsrAccess.of request datR).elim registers registers.perform = registers := by
  rw [CsrAccess.of, h]
  cases CsrRegister.decode (request.adr.setWidth 14) <;> rfl

/-- A write of a word leaves it in the storage of its register. -/
theorem CsrAccess.elim_of_write (r : CsrRegister) (value datR : BitVec 32)
    (registers : Registers) :
    (CsrAccess.of ⟨r.busAddress, value, 15#4, true⟩ datR).elim registers registers.perform =
      Function.update registers r (value.setWidth r.storageWidth) := by
  rw [CsrAccess.of, CsrRegister.setWidth_busAddress, CsrRegister.decode_address]
  rfl

namespace Csr

variable (s : Csr) (cyc : Bool) (bus : Wishbone) (status : CsrStatus)

/-- What the banks are asked for. -/
def shown : BitVec 32 :=
  match CsrRegister.decode (bus.adr.setWidth 14) with
  | some r => s.value status r
  | none => 0#32

/-- The access that the banks perform. -/
def performed : Option CsrAccess :=
  if s.taken cyc bus then CsrAccess.of bus.toRequest (s.shown bus status) else none

/-- Values of which one at most is not zero. -/
theorem foldl_or_eq {ι : Type*} [DecidableEq ι] (f : ι → BitVec 32) (i : ι)
    (h : ∀ j, j ≠ i → f j = 0#32) (l : List ι) (data : BitVec 32) :
    l.foldl (fun data j ↦ data ||| f j) data = if i ∈ l then data ||| f i else data := by
  induction l generalizing data with
  | nil => rfl
  | cons j l ih =>
    rw [List.foldl_cons, ih]
    by_cases hj : j = i
    · subst hj
      rw [if_pos List.mem_cons_self, BitVec.or_assoc, BitVec.or_self]
      exact ite_self _
    · rw [h j hj, BitVec.or_zero]
      simp only [List.mem_cons, Ne.symm hj, false_or]

variable {s cyc bus}

theorem adr_of_taken (h : s.taken cyc bus = true) : s.adr cyc bus = bus.adr.setWidth 14 := by
  rw [adr, if_pos h]

theorem state_of_taken (h : s.taken cyc bus = true) : s.state = false := by
  rw [taken, Bool.and_eq_true, Bool.and_eq_true, Bool.not_eq_true'] at h
  exact h.1.1

/-- Behind the clock of an access the bridge brings what was asked for. -/
theorem busDatR_clockEdge (h : s.taken cyc bus = true) :
    (s.clockEdge cyc bus status).busDatR = s.shown bus status := by
  have hstate : (s.clockEdge cyc bus status).state = true := h
  rw [busDatR, if_pos hstate]
  simp only [clockEdge, adr_of_taken h, shown]
  cases CsrRegister.decode (bus.adr.setWidth 14) with
  | none => rw [foldl_or_eq _ 0 (fun _ _ ↦ rfl), if_pos (List.mem_finRange _)]; rfl
  | some r =>
    rw [foldl_or_eq _ r.bank (fun bank hne ↦ if_neg (Ne.symm hne)), if_pos (List.mem_finRange _),
      BitVec.zero_or, if_pos rfl]

/-- The storages change by the access that is performed. -/
theorem storage_clockEdge :
    (s.clockEdge cyc bus status).storage =
      (s.performed cyc bus status).elim s.storage s.storage.perform := by
  funext r
  cases h : s.taken cyc bus with
  | false =>
    rw [performed, h]
    simp [clockEdge, we, h]
  | true =>
    rw [performed, if_pos h, CsrAccess.of]
    simp only [clockEdge, we, h, adr_of_taken h, datW, state_of_taken h, Bool.true_and]
    cases CsrRegister.decode (bus.adr.setWidth 14) with
    | none => simp
    | some r' =>
      cases hwe : bus.we && bus.sel != 0#4 with
      | false => simp [Registers.perform]
      | true =>
        by_cases hr : r = r'
        · subst hr
          simp [Registers.perform]
        · simp [Registers.perform, Function.update_of_ne hr, Ne.symm hr]

end Csr

end CaravelSoc.Management
