import CaravelSoc.Management.CsrBus
import CaravelSoc.User.SeqGcd

/-!
# The test of the divisor unit

`gcd_la.c` on the chip. The processor writes two operands to the logic analyzer, lets
the user project load them, takes its probes back and reads the result until it is the
expected one. The registers of the logic analyzer are reached over the bus, which other
masters use as well; the probes go straight to the user project, and its outputs come
back through two registers.
-/

open Sequential

namespace CaravelSoc.Firmware

open Management

/-! ## The program -/

/-- The words of a register of the logic analyzer are numbered. -/
instance wordsNeZero : NeZero 4 := ⟨by decide⟩

def csrLaIenAddr : BitVec 32 := 0xF0003000#32
def csrLaOeAddr : BitVec 32 := 0xF0003010#32
def csrLaInAddr : BitVec 32 := 0xF0003020#32
def csrLaOutAddr : BitVec 32 := 0xF0003030#32

/-- `reg_la0_data` to `reg_la3_data`. -/
def regLaData (n : Fin 4) : BitVec 32 := csrLaOutAddr + BitVec.ofNat 32 (4 * (3 - n))

/-- `reg_la0_data_in` to `reg_la3_data_in`. -/
def regLaDataIn (n : Fin 4) : BitVec 32 := csrLaInAddr + BitVec.ofNat 32 (4 * (3 - n))

/-- `reg_la0_oenb` to `reg_la3_oenb`. -/
def regLaOenb (n : Fin 4) : BitVec 32 := csrLaOeAddr + BitVec.ofNat 32 (4 * (3 - n))

/-- `reg_la0_iena` to `reg_la3_iena`. -/
def regLaIena (n : Fin 4) : BitVec 32 := csrLaIenAddr + BitVec.ofNat 32 (4 * (3 - n))

def regMprjDatal : BitVec 32 := 0x2600000C#32

/-- What the program does with a device: it writes a register, or it reads one until it finds what
it expects. -/
inductive DeviceAccess
  | write (adr value : BitVec 32)
  | poll (adr expect : BitVec 32)
  deriving DecidableEq, Repr

/-- One row of `a`, `b` and `expect`. -/
structure TestVector where
  a : BitVec 32
  b : BitVec 32
  expect : BitVec 32
  deriving DecidableEq, Repr

/-- The body of the loop over the rows. -/
def TestVector.body (v : TestVector) : List DeviceAccess :=
  [.write (regLaData 0) v.a,
    .write (regLaData 1) v.b,
    .write (regLaIena 0) 0xFFFFFFFF#32,
    .write (regLaOenb 0) 0xFFFFFFFF#32,
    .write (regLaIena 1) 0xFFFFFFFF#32,
    .write (regLaOenb 1) 0xFFFFFFFF#32,
    .write (regLaIena 2) 0#32,
    .write (regLaOenb 2) 0#32,
    .write (regLaIena 3) 0#32,
    .write (regLaOenb 3) 0#32,
    .write regMprjDatal 0xAB400000#32,
    .write (regLaIena 0) 0#32,
    .write (regLaOenb 0) 0#32,
    .write (regLaIena 1) 0#32,
    .write (regLaOenb 1) 0#32,
    .poll (regLaDataIn 0) v.expect,
    .write regMprjDatal 0xAB410000#32,
    .write regMprjDatal 0xAB510000#32]

def program (vectors : List TestVector) : List DeviceAccess := vectors.flatMap TestVector.body

/-- The rows of the test. -/
def vectors : List TestVector :=
  [⟨10312050#32, 29460792#32, 138#32⟩,
    ⟨1993627629#32, 1177417612#32, 7#32⟩,
    ⟨2097015289#32, 3812041926#32, 1#32⟩,
    ⟨1924134885#32, 3151131255#32, 135#32⟩,
    ⟨992211318#32, 512609597#32, 1#32⟩]

/-- The words of the bus that an address of the processor lies in. -/
def wordAdr (adr : BitVec 32) : BitVec 30 := adr.extractLsb' 2 30

/-- The requests of an access: the processor writes and reads whole words. -/
def DeviceAccess.Asks (r : Request) : DeviceAccess → Prop
  | .write adr value => r = ⟨wordAdr adr, value, 15#4, true⟩
  | .poll adr _ => r.adr = wordAdr adr ∧ r.we = false

/-- What is left to do when a request has brought `data`. -/
def advance (data : BitVec 32) : List DeviceAccess → List DeviceAccess
  | [] => []
  | .write _ _ :: rest => rest
  | .poll adr expect :: rest => if data = expect then rest else .poll adr expect :: rest

/-- The slaves that are devices to the program. -/
def device (adr : BitVec 30) : Bool :=
  slaveSel adr .csr || slaveSel adr .hk || slaveSel adr .mprj

/-! ## The chip -/

/-- The bus and the registers, the registers behind `la_input`, the user project, and what the
program has still to do. -/
structure GcdLa where
  soc : CsrBus
  regs0 : BitVec 128
  regs1 : BitVec 128
  user : User.Project
  todo : List DeviceAccess

namespace GcdLa

/-- What a clock brings: the masters, the other slaves, the other statuses, and what a division by
zero leaves in the user project. -/
structure Event where
  request : Master → Bool
  lines : Master → Request
  outside : Slave → Reply
  status : CsrStatus
  byZero : BitVec 32 → BitVec 32

/-- Four words as the registers show them. -/
def words (high third second low : BitVec 32) : BitVec 128 := high ++ (third ++ (second ++ low))

/-- A word of `la_out_storage`. -/
def laOut (storage : Registers) (n : Fin 4) : BitVec 32 := storage (.laOut n)

/-- A word of `la_oe_storage`. -/
def laOe (storage : Registers) (n : Fin 4) : BitVec 32 := storage (.laOe n)

def laOutput (storage : Registers) : BitVec 128 :=
  words (laOut storage 3) (laOut storage 2) (laOut storage 1) (laOut storage 0)

def laOenb (storage : Registers) : BitVec 128 :=
  ~~~words (laOe storage 3) (laOe storage 2) (laOe storage 1) (laOe storage 0)

/-- The registers of `la_in_status` show what has come through. -/
def status (s : GcdLa) (e : Event) : CsrStatus := fun r ↦
  match r with
  | .laIn word => s.regs1.extractLsb' (32 * word) 32
  | r => e.status r

def socEvent (s : GcdLa) (e : Event) : CsrBus.Event where
  request := e.request
  lines := e.lines
  outside := e.outside
  status := s.status e

/-- The pins of the user project at a level of its clock. -/
def sample (s : GcdLa) (e : Event) (clk : Bool) : User.Sample where
  wbClkI := clk
  wbRstI := false
  wbsStbI := (s.soc.bus (s.socEvent e)).stb
  wbsCycI := s.soc.slaveCyc (s.socEvent e) .mprj
  laDataIn := laOutput s.soc.csr.storage
  laOenb := laOenb s.soc.csr.storage
  byZero := e.byZero

/-- The accesses of the program that end. -/
def accesses (s : GcdLa) (e : Event) : List (Master × Request × BitVec 32) :=
  (s.soc.completed (s.socEvent e)).filter fun access ↦ access.1 == .dbus && device access.2.1.adr

/-- One clock. -/
def step (s : GcdLa) (e : Event) : GcdLa where
  soc := s.soc.step (s.socEvent e)
  regs0 := s.user.laDataOut
  regs1 := s.regs0
  user := (s.user.step (s.sample e false)).step (s.sample e true)
  todo := (s.accesses e).foldl (fun todo access ↦ advance access.2.2 todo) s.todo

/-! ## The masters -/

/-- What a master may ask for. The data bus reaches a device only where the program does; the other
masters do not write registers, and they leave the user project alone. -/
def Allowed (todo : List DeviceAccess) (master : Master) (r : Request) : Prop :=
  if master = .dbus then device r.adr = true → ∃ d ∈ todo.head?, d.Asks r
  else (r.we = true → slaveSel r.adr .csr = false) ∧ slaveSel r.adr .mprj = false

/-- What a clock must be. Behind an acknowledge the data bus lets go for a clock. -/
structure Regular (s : GcdLa) (e : Event) : Prop where
  onlySelected : s.soc.OnlySelected (s.socEvent e)
  polite : s.soc.core.access .dbus = .released → e.request .dbus = false
  allowed : ∀ master, (∀ r, s.soc.core.access master ≠ .waiting r) → e.request master = true →
    Allowed s.todo master (e.lines master)

/-- The masters that wait ask for what they may. -/
def Follows (s : GcdLa) : Prop :=
  ∀ master r, s.soc.core.access master = .waiting r → Allowed s.todo master r

/-- An access of the program is at its registers. -/
def strobed (s : GcdLa) : Bool := s.soc.csr.state && s.soc.core.bus.grant == .dbus

/-- The clocks up to the next access of the program, at the least. -/
def pace (s : GcdLa) : ℕ :=
  if s.strobed then 2 else if s.soc.core.access .dbus = .released then 1 else 0

/-- What the program sees of a clock. -/
inductive Clock (s : GcdLa) (e : Event) : Prop
  | quiet (accesses : s.accesses e = []) (strobed : s.strobed = false)
      (next : (s.step e).strobed = false)
      (storage : (s.step e).soc.csr.storage = s.soc.csr.storage)
  | perform (d : DeviceAccess) (rest : List DeviceAccess) (r : Request)
      (todo : s.todo = d :: rest) (asks : d.Asks r) (csr : slaveSel r.adr .csr = true)
      (accesses : s.accesses e = []) (pace : s.pace = 0) (next : (s.step e).strobed = true)
      (storage : (s.step e).soc.csr.storage =
        (CsrAccess.of r (s.soc.csr.shown ⟨r, true, true⟩ (s.status e))).elim s.soc.csr.storage
          s.soc.csr.storage.perform)
      (datR : (s.step e).soc.csr.busDatR = s.soc.csr.shown ⟨r, true, true⟩ (s.status e))
  | finish (d : DeviceAccess) (rest : List DeviceAccess) (r : Request)
      (todo : s.todo = d :: rest) (asks : d.Asks r) (csr : slaveSel r.adr .csr = true)
      (accesses : s.accesses e = [(.dbus, r, s.soc.csr.busDatR)]) (strobed : s.strobed = true)
      (next : (s.step e).strobed = false) (pace : (s.step e).pace = 1)
      (storage : (s.step e).soc.csr.storage = s.soc.csr.storage)
  | other (d : DeviceAccess) (rest : List DeviceAccess) (r : Request) (data : BitVec 32)
      (todo : s.todo = d :: rest) (asks : d.Asks r) (away : slaveSel r.adr .csr = false)
      (accesses : s.accesses e = [(.dbus, r, data)]) (pace : s.pace = 0)
      (next : (s.step e).strobed = false) (after : (s.step e).pace = 1)
      (storage : (s.step e).soc.csr.storage = s.soc.csr.storage)

section Clock

variable {s : GcdLa} {e : Event} {busy : Option Request}

/-- The lines of a master with a request. -/
theorem Follows.lines (h : s.Follows) (hregular : s.Regular e) {master : Master}
    (hcyc : (s.soc.core.masters (s.soc.busEvent (s.socEvent e)) master).cyc = true) :
    Allowed s.todo master
      (s.soc.core.masters (s.soc.busEvent (s.socEvent e)) master).toRequest := by
  rw [ManagementBus.masters] at hcyc ⊢
  cases haccess : s.soc.core.access master with
  | waiting r => exact h master r haccess
  | idle =>
    rw [haccess] at hcyc
    exact hregular.allowed master (by simp [haccess]) hcyc
  | released =>
    rw [haccess] at hcyc
    exact hregular.allowed master (by simp [haccess]) hcyc

/-- Where the data bus has a request, it is not behind an acknowledge. -/
theorem Regular.not_released (hregular : s.Regular e)
    (hcyc : (s.soc.core.masters (s.soc.busEvent (s.socEvent e)) .dbus).cyc = true) :
    s.soc.core.access .dbus ≠ .released := by
  intro hreleased
  rw [ManagementBus.masters, hreleased] at hcyc
  exact absurd (hcyc.symm.trans (hregular.polite hreleased)) (by decide)

/-- What the program does when the data bus has the bus for a device. -/
theorem Follows.granted (h : s.Follows) (hregular : s.Regular e)
    (hgrant : s.soc.core.bus.grant = .dbus) (hcyc : (s.soc.bus (s.socEvent e)).cyc = true)
    (hdevice : device (s.soc.bus (s.socEvent e)).adr = true) :
    ∃ d rest, s.todo = d :: rest ∧ d.Asks (s.soc.bus (s.socEvent e)).toRequest := by
  have hbus : s.soc.bus (s.socEvent e) =
      s.soc.core.masters (s.soc.busEvent (s.socEvent e)) .dbus := by
    rw [CsrBus.bus, Interconnect.shared, hgrant]
  rw [hbus] at hcyc hdevice ⊢
  have hallowed := h.lines hregular hcyc
  rw [Allowed, if_pos rfl] at hallowed
  obtain ⟨d, hd, hasks⟩ := hallowed hdevice
  cases htodo : s.todo with
  | nil => simp [htodo] at hd
  | cons d' rest =>
    rw [htodo, List.head?_cons, Option.mem_def, Option.some.injEq] at hd
    exact ⟨d', rest, rfl, hd ▸ hasks⟩

theorem pace_eq_zero (hregular : s.Regular e) (hstate : s.strobed = false)
    (hgrant : s.soc.core.bus.grant = .dbus) (hcyc : (s.soc.bus (s.socEvent e)).cyc = true) :
    s.pace = 0 := by
  rw [CsrBus.bus, Interconnect.shared, hgrant] at hcyc
  rw [pace, hstate, if_neg (by decide), if_neg (hregular.not_released hcyc)]

/-- Behind its acknowledge the data bus is let go. -/
theorem pace_eq_one (hgrant : s.soc.core.bus.grant = .dbus)
    (hcyc : (s.soc.bus (s.socEvent e)).cyc = true)
    (hack : s.soc.core.bus.sharedAck (s.soc.replies (s.socEvent e)) = true)
    (hnext : (s.step e).strobed = false) : (s.step e).pace = 1 := by
  rw [CsrBus.bus, Interconnect.shared, hgrant] at hcyc
  have hmaster : s.soc.core.bus.masterAck (s.soc.replies (s.socEvent e)) .dbus = true := by
    rw [Interconnect.masterAck, hack, hgrant]
    rfl
  have haccess : (s.step e).soc.core.access .dbus = .released := by
    change (if _ then if s.soc.core.bus.masterAck (s.soc.replies (s.socEvent e)) .dbus then
      Access.released else _ else Access.idle) = _
    rw [if_pos hcyc, if_pos hmaster]
  rw [pace, hnext, if_neg (by decide), if_pos haccess]

/-- While the data bus is not acknowledged, no access of the program ends. -/
theorem accesses_eq_nil
    (h : s.soc.core.bus.masterAck (s.soc.replies (s.socEvent e)) .dbus = false) :
    s.accesses e = [] := by
  rw [accesses, CsrBus.completed, ManagementBus.completed]
  split
  · next hend =>
    rw [Bool.and_eq_true] at hend
    rw [List.filter_cons_of_neg, List.filter_nil]
    rw [Bool.and_eq_true, beq_iff_eq, not_and]
    intro hgrant
    have hack : s.soc.core.bus.masterAck (s.soc.replies (s.socEvent e)) .dbus = true := by
      rw [Interconnect.masterAck, Bool.and_eq_true, beq_iff_eq]
      exact ⟨hend.2, hgrant⟩
    exact absurd (hack.symm.trans h) (by decide)
  · rfl

theorem device_of_csr {adr : BitVec 30} (h : slaveSel adr .csr = true) : device adr = true := by
  rw [device, h]
  rfl

/-- **One clock, seen from the program.** -/
theorem Follows.clock (hfollows : s.Follows) (h : s.soc.Tracks busy) (hregular : s.Regular e) :
    s.Clock e := by
  have honly := hregular.onlySelected
  cases hcsr : s.soc.slaveCyc (s.socEvent e) .csr with
  | false =>
    obtain ⟨-, -, hstate, -, hnext, hstorage⟩ := h.step_away hcsr
    have hstrobed : s.strobed = false := by rw [strobed, hstate]; rfl
    have hnext' : (s.step e).strobed = false := by
      change ((s.soc.step (s.socEvent e)).csr.state && _) = false
      rw [hnext]
      rfl
    by_cases hends : (s.soc.bus (s.socEvent e)).cyc = true ∧
        s.soc.core.bus.sharedAck (s.soc.replies (s.socEvent e)) = true ∧
        s.soc.core.bus.grant = .dbus ∧ device (s.soc.bus (s.socEvent e)).adr = true
    · -- an access of another device ends
      obtain ⟨hcyc, hack, hgrant, hdevice⟩ := hends
      obtain ⟨d, rest, htodo, hasks⟩ := hfollows.granted hregular hgrant hcyc hdevice
      rw [CsrBus.slaveCyc_eq, hcyc, Bool.true_and] at hcsr
      refine .other d rest _ (s.soc.core.bus.sharedDatR (s.soc.replies (s.socEvent e))) htodo hasks
        hcsr ?_ (pace_eq_zero hregular hstrobed hgrant hcyc) hnext'
        (pace_eq_one hgrant hcyc hack hnext') hstorage
      rw [accesses, CsrBus.completed, ManagementBus.completed, if_pos]
      · rw [List.filter_cons_of_pos, List.filter_nil]
        · rw [← hgrant]
          rfl
        · rw [Bool.and_eq_true, beq_iff_eq]
          exact ⟨hgrant, hdevice⟩
      · rw [Bool.and_eq_true]
        exact ⟨hcyc, hack⟩
    · refine .quiet ?_ hstrobed hnext' hstorage
      rw [accesses, CsrBus.completed, ManagementBus.completed]
      split
      · next hend =>
        rw [Bool.and_eq_true] at hend
        rw [List.filter_cons_of_neg, List.filter_nil]
        rw [Bool.and_eq_true, beq_iff_eq]
        exact fun hboth ↦ hends ⟨hend.1, hend.2, hboth⟩
      · rfl
  | true =>
    have hsel := hcsr
    rw [CsrBus.slaveCyc_eq, Bool.and_eq_true] at hsel
    have hgrant' : (s.step e).soc.core.bus.grant = s.soc.core.bus.grant :=
      Interconnect.nextGrant_of_cyc hsel.1
    cases hstate : s.soc.csr.state with
    | false =>
      obtain ⟨-, hcompleted, -, hnext, hdata, hstorage⟩ := h.step_first honly hcsr hstate
      have hstrobed : s.strobed = false := by rw [strobed, hstate]; rfl
      have hnone : s.accesses e = [] := by rw [accesses, hcompleted, List.filter_nil]
      have hnext' : (s.step e).strobed = (s.soc.core.bus.grant == .dbus) := by
        rw [← hgrant']
        change ((s.soc.step (s.socEvent e)).csr.state && _) = _
        rw [hnext, Bool.true_and]
      by_cases hgrant : s.soc.core.bus.grant = .dbus
      · obtain ⟨d, rest, htodo, hasks⟩ :=
          hfollows.granted hregular hgrant hsel.1 (device_of_csr hsel.2)
        refine .perform d rest _ htodo hasks hsel.2 hnone
          (pace_eq_zero hregular hstrobed hgrant hsel.1) ?_ hstorage hdata
        rw [hnext', hgrant]
        rfl
      · refine .quiet hnone hstrobed ?_ (hstorage.trans ?_)
        · rw [hnext', beq_eq_false_iff_ne]
          exact hgrant
        · -- another master only reads
          have hallowed := hfollows.lines hregular hsel.1
          rw [Allowed, if_neg hgrant] at hallowed
          apply CsrAccess.elim_of_read
          rw [Bool.eq_false_iff]
          exact fun hwe ↦ absurd ((hallowed.1 hwe).symm.trans hsel.2) (by decide)
    | true =>
      obtain ⟨-, hcompleted, -, hnext, hstorage⟩ := h.step_second honly hstate
      have hnext' : (s.step e).strobed = false := by
        change ((s.soc.step (s.socEvent e)).csr.state && _) = false
        rw [hnext]
        rfl
      by_cases hgrant : s.soc.core.bus.grant = .dbus
      · obtain ⟨d, rest, htodo, hasks⟩ :=
          hfollows.granted hregular hgrant hsel.1 (device_of_csr hsel.2)
        have hack := h.sharedAck_eq honly hcsr
        rw [hstate] at hack
        refine .finish d rest _ htodo hasks hsel.2 ?_ ?_ hnext'
          (pace_eq_one hgrant hsel.1 hack hnext') hstorage
        · rw [accesses, hcompleted, List.filter_cons_of_pos, List.filter_nil, hgrant]
          rw [Bool.and_eq_true, beq_iff_eq]
          exact ⟨hgrant, device_of_csr hsel.2⟩
        · rw [strobed, hstate, hgrant]
          rfl
      · refine .quiet (accesses_eq_nil ?_) ?_ hnext' hstorage
        · rw [Interconnect.masterAck, beq_eq_false_iff_ne.2 hgrant, Bool.and_false]
        · rw [strobed, beq_eq_false_iff_ne.2 hgrant, Bool.and_false]

/-- The masters go on asking for what they may. -/
theorem Follows.step (hfollows : s.Follows) (hregular : s.Regular e) : (s.step e).Follows := by
  intro master r hwaiting
  change (if (s.soc.core.masters (s.soc.busEvent (s.socEvent e)) master).cyc then
    if s.soc.core.bus.masterAck (s.soc.replies (s.socEvent e)) master then Access.released
    else .waiting (s.soc.core.masters (s.soc.busEvent (s.socEvent e)) master).toRequest
    else .idle) = .waiting r at hwaiting
  split at hwaiting
  · next hcyc =>
    split at hwaiting
    · cases hwaiting
    · next hack =>
      cases hwaiting
      have hallowed := hfollows.lines hregular hcyc
      rw [Allowed] at hallowed ⊢
      split
      · next hmaster =>
        -- the data bus still waits, so nothing of the program has ended
        rw [if_pos hmaster] at hallowed
        have hnone : s.accesses e = [] := by
          rw [hmaster] at hack
          exact accesses_eq_nil (Bool.eq_false_iff.2 hack)
        rw [GcdLa.step, hnone]
        exact hallowed
      · next hmaster =>
        rw [if_neg hmaster] at hallowed
        exact hallowed
  · cases hwaiting

end Clock

/-! ## The user project -/

section User

variable {s : GcdLa} {e : Event}

/-- No access of the program goes to the user project, so none is valid there. -/
theorem Follows.valid_eq (hfollows : s.Follows) (hregular : s.Regular e)
    (hdevices : ∀ d ∈ s.todo, ∀ r : Request, d.Asks r → slaveSel r.adr .mprj = false)
    (clk : Bool) : (s.sample e clk).valid = false := by
  rw [User.Sample.valid, Bool.and_eq_false_iff]
  left
  change s.soc.slaveCyc (s.socEvent e) .mprj = false
  rw [Bool.eq_false_iff, CsrBus.slaveCyc_eq, Ne, Bool.and_eq_true, not_and]
  intro hcyc hsel
  by_cases hgrant : s.soc.core.bus.grant = .dbus
  · obtain ⟨d, rest, htodo, hasks⟩ := hfollows.granted hregular hgrant hcyc
      (by rw [device, hsel, Bool.or_true])
    have haway := hdevices d (by simp [htodo]) _ hasks
    exact absurd (hsel.symm.trans haway) (by decide)
  · have hallowed := hfollows.lines hregular hcyc
    rw [Allowed, if_neg hgrant] at hallowed
    exact absurd (hsel.symm.trans hallowed.2) (by decide)

theorem extractLsb'_words_zero (high third second low : BitVec 32) :
    (words high third second low).extractLsb' 0 32 = low := by
  rw [words, BitVec.extractLsb'_append_eq_of_add_le (by decide),
    BitVec.extractLsb'_append_eq_of_add_le (by decide),
    BitVec.extractLsb'_append_eq_of_add_le (by decide), BitVec.extractLsb'_eq_self]

theorem extractLsb'_words_one (high third second low : BitVec 32) :
    (words high third second low).extractLsb' 32 32 = second := by
  rw [words, BitVec.extractLsb'_append_eq_of_add_le (by decide),
    BitVec.extractLsb'_append_eq_of_add_le (by decide), BitVec.extractLsb'_append_eq_left]

/-- The probes 64 and 65 are the first ones of the third word. -/
theorem getLsbD_words (high third second low : BitVec 32) (i : ℕ) (hi : i < 32) :
    (words high third second low).getLsbD (64 + i) = third.getLsbD i := by
  rw [words, BitVec.getLsbD_append, if_pos (by omega), BitVec.getLsbD_append, if_neg (by omega),
    Nat.add_sub_cancel_left]

/-- One clock of the user project: the probes are its own only while they say so. -/
theorem user_step (hvalid : ∀ clk, (s.sample e clk).valid = false)
    (hprobes : laOe s.soc.csr.storage 2 = 0#32) :
    (s.step e).user.seqGcd =
      s.user.seqGcd.clockEdge e.byZero (laOe s.soc.csr.storage 0) (laOe s.soc.csr.storage 1)
        (laOut s.soc.csr.storage 0) (laOut s.soc.csr.storage 1) := by
  have hoenb : ∀ i < 32, (laOenb s.soc.csr.storage).getLsbD (64 + i) = true := by
    intro i hi
    rw [laOenb, BitVec.getLsbD_not, getLsbD_words _ _ _ _ i hi, hprobes, BitVec.getLsbD_zero,
      decide_eq_true (by omega)]
    rfl
  have hclk : ∀ clk, (s.sample e clk).clk = clk := by
    intro clk
    rw [User.Sample.clk, sample, hoenb 0 (by decide)]
    rfl
  have hrst : ∀ clk, (s.sample e clk).rst = false := by
    intro clk
    rw [User.Sample.rst, sample, hoenb 1 (by decide)]
    rfl
  have hmask : (s.sample e true).validMask = 0#32 := by
    rw [User.Sample.validMask, hvalid]
    rfl
  have hlow : (s.user.step (s.sample e false)).seqGcd = s.user.seqGcd := by
    apply User.Project.step_of_no_clock (hrst false)
    rw [User.Project.clkRises, hclk, Bool.and_false]
  have hrises : (s.user.step (s.sample e false)).clkRises (s.sample e true) = true := by
    rw [User.Project.clkRises, hclk, Bool.and_true]
    change (!(s.sample e false).clk) = true
    rw [hclk]
    rfl
  have hwrite : ∀ lo, lo + 32 < 128 →
      ~~~((laOenb s.soc.csr.storage).extractLsb' lo 32) &&& ~~~0#32 =
        (words (laOe s.soc.csr.storage 3) (laOe s.soc.csr.storage 2)
          (laOe s.soc.csr.storage 1) (laOe s.soc.csr.storage 0)).extractLsb' lo 32 := by
    intro lo hlo
    rw [laOenb, BitVec.extractLsb'_not_of_lt hlo, BitVec.not_not]
    exact BitVec.and_allOnes
  have hwriteA : (s.sample e true).laWriteA = laOe s.soc.csr.storage 0 := by
    rw [User.Sample.laWriteA, hmask]
    exact (hwrite 0 (by decide)).trans (extractLsb'_words_zero _ _ _ _)
  have hwriteB : (s.sample e true).laWriteB = laOe s.soc.csr.storage 1 := by
    rw [User.Sample.laWriteB, hmask]
    exact (hwrite 32 (by decide)).trans (extractLsb'_words_one _ _ _ _)
  have hA : (s.sample e true).aI = laOut s.soc.csr.storage 0 := extractLsb'_words_zero _ _ _ _
  have hB : (s.sample e true).bI = laOut s.soc.csr.storage 1 := extractLsb'_words_one _ _ _ _
  rw [step, User.Project.step_of_clock (hrst true) hrises, hlow, hwriteA, hwriteB, hA, hB]
  rfl

end User

end GcdLa

end CaravelSoc.Firmware
