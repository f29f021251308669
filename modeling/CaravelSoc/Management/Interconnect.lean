import CaravelSoc.Sequential.Run
import Mathlib.Data.BitVec

/-!
# The bus of the management core

Three masters share one bus to seven slaves: the two buses of the processor and
the bridge behind the debug UART. An arbiter gives the bus to one of them until it
lets go, a decoder selects a slave by the address, and an access that no slave
acknowledges is ended by a counter. Here the slaves answer as they like.
-/

open Sequential

namespace CaravelSoc.Management

/-- The masters, in the order of `request`. -/
inductive Master
  | ibus
  | dbus
  | dbgUart
  deriving DecidableEq, Repr

/-- The slaves, in the order of `slave_sel`. -/
inductive Slave
  | vexriscvDebug
  | dff
  | dff2
  | litespimmap
  | mprj
  | hk
  | csr
  deriving DecidableEq, Repr

def Slave.all : List Slave := [.vexriscvDebug, .dff, .dff2, .litespimmap, .mprj, .hk, .csr]

/-- What an access asks for; the address is one of words. -/
structure Request where
  adr : BitVec 30
  datW : BitVec 32
  sel : BitVec 4
  we : Bool
  deriving DecidableEq, Repr

/-- The lines of a master. -/
structure Wishbone extends Request where
  cyc : Bool
  stb : Bool
  deriving DecidableEq, Repr

/-- The lines of a slave. -/
structure Reply where
  ack : Bool
  datR : BitVec 32
  deriving DecidableEq, Repr

/-- `slave_sel`. -/
def slaveSel (adr : BitVec 30) : Slave → Bool
  | .vexriscvDebug => adr.extractLsb' 6 24 == 15732480#24
  | .dff => adr.extractLsb' 8 22 == 0#22
  | .dff2 => adr.extractLsb' 7 23 == 2#23
  | .litespimmap => adr.extractLsb' 22 8 == 16#8
  | .mprj => adr.extractLsb' 26 4 == 3#4
  | .hk => adr.extractLsb' 20 10 == 152#10
  | .csr => adr.extractLsb' 14 16 == 61440#16

/-- The registers of arbiter, decoder and counter. -/
structure Interconnect where
  grant : Master
  slaveSelR : Slave → Bool
  count : BitVec 20
  busErrors : BitVec 32

namespace Interconnect

def reset : Interconnect where
  grant := .ibus
  slaveSelR := fun _ ↦ false
  count := 1000000#20
  busErrors := 0#32

variable (s : Interconnect) (masters : Master → Wishbone) (replies : Slave → Reply)

/-- The lines of the master that has the bus. -/
def shared : Wishbone := masters s.grant

/-- The `cyc` of a slave. -/
def slaveCyc (slave : Slave) : Bool :=
  (s.shared masters).cyc && slaveSel (s.shared masters).adr slave

def done : Bool := s.count == 0#20

def sharedAck : Bool := Slave.all.any (fun slave ↦ (replies slave).ack) || s.done

def sharedDatR : BitVec 32 :=
  if s.done then 4294967295#32
  else Slave.all.foldl
    (fun data slave ↦ data ||| if s.slaveSelR slave then (replies slave).datR else 0#32) 0#32

/-- The acknowledge of a master. -/
def masterAck (master : Master) : Bool := s.sharedAck replies && s.grant == master

/-- `wait_1`. -/
def wait : Bool :=
  (s.shared masters).stb && (s.shared masters).cyc && !s.sharedAck replies

/-- The next in turn gets the bus once it is let go. -/
def nextGrant : Master :=
  match s.grant with
  | .ibus =>
    if !(masters .ibus).cyc then
      if (masters .dbus).cyc then .dbus else if (masters .dbgUart).cyc then .dbgUart else .ibus
    else .ibus
  | .dbus =>
    if !(masters .dbus).cyc then
      if (masters .dbgUart).cyc then .dbgUart else if (masters .ibus).cyc then .ibus else .dbus
    else .dbus
  | .dbgUart =>
    if !(masters .dbgUart).cyc then
      if (masters .ibus).cyc then .ibus else if (masters .dbus).cyc then .dbus else .dbgUart
    else .dbgUart

/-- One clock. -/
def clockEdge : Interconnect where
  grant := s.nextGrant masters
  slaveSelR := slaveSel (s.shared masters).adr
  count :=
    if s.wait masters replies then if !s.done then s.count - 1#20 else s.count else 1000000#20
  busErrors :=
    if s.busErrors ≠ 4294967295#32 then if s.done then s.busErrors + 1#32 else s.busErrors
    else s.busErrors

end Interconnect

/-! ## The decoder -/

/-- The words of a slave: the first and how many. -/
def Slave.region : Slave → ℕ × ℕ
  | .vexriscvDebug => (15732480 * 2 ^ 6, 2 ^ 6)
  | .dff => (0, 2 ^ 8)
  | .dff2 => (2 * 2 ^ 7, 2 ^ 7)
  | .litespimmap => (16 * 2 ^ 22, 2 ^ 22)
  | .mprj => (3 * 2 ^ 26, 2 ^ 26)
  | .hk => (152 * 2 ^ 20, 2 ^ 20)
  | .csr => (61440 * 2 ^ 14, 2 ^ 14)

theorem extractLsb'_eq_iff {w n k : ℕ} (x : BitVec w) (hk : n + k = w) (v : BitVec k) :
    x.extractLsb' n k = v ↔ v.toNat * 2 ^ n ≤ x.toNat ∧ x.toNat < v.toNat * 2 ^ n + 2 ^ n := by
  subst hk
  have hx := x.isLt
  rw [Nat.pow_add] at hx
  have hdiv : x.toNat / 2 ^ n < 2 ^ k := Nat.div_lt_of_lt_mul hx
  rw [← BitVec.toNat_inj, BitVec.extractLsb'_toNat, Nat.shiftRight_eq_div_pow,
    Nat.mod_eq_of_lt hdiv, Nat.div_eq_iff (Nat.two_pow_pos n), ← Nat.succ_mul, Nat.succ_mul]
  have hpos := Nat.two_pow_pos n
  omega

/-- A slave is selected by the addresses of its region. -/
theorem slaveSel_iff (adr : BitVec 30) (slave : Slave) :
    slaveSel adr slave = true ↔
      slave.region.1 ≤ adr.toNat ∧ adr.toNat < slave.region.1 + slave.region.2 := by
  cases slave <;>
  · rw [slaveSel, beq_iff_eq, extractLsb'_eq_iff adr (by decide)]
    rfl

/-- No address selects two slaves. -/
theorem slaveSel_unique {adr : BitVec 30} {slave slave' : Slave} (h : slaveSel adr slave = true)
    (h' : slaveSel adr slave' = true) : slave = slave' := by
  rw [slaveSel_iff] at h h'
  cases slave <;> cases slave' <;> first | rfl | (simp [Slave.region] at h h'; omega)

/-! ## Masters that wait -/

/-- What a master does: it keeps its request on the bus until the acknowledge. -/
inductive Access
  | idle
  | waiting (request : Request)
  | released
  deriving DecidableEq, Repr

/-- The bus with its masters. -/
structure ManagementBus where
  bus : Interconnect
  access : Master → Access

namespace ManagementBus

/-- What a clock brings: the masters that start an access, the other lines of the masters that do
not wait, and the slaves. -/
structure Event where
  request : Master → Bool
  lines : Master → Request
  replies : Slave → Reply

def reset : ManagementBus where
  bus := .reset
  access := fun _ ↦ .idle

/-- The lines of the masters. -/
def masters (s : ManagementBus) (e : Event) (master : Master) : Wishbone :=
  match s.access master with
  | .waiting request => ⟨request, true, true⟩
  | .idle | .released => ⟨e.lines master, e.request master, e.request master⟩

/-- One clock. -/
def step (s : ManagementBus) (e : Event) : ManagementBus where
  bus := s.bus.clockEdge (s.masters e) e.replies
  access master :=
    if (s.masters e master).cyc then
      if s.bus.masterAck e.replies master then .released
      else .waiting (s.masters e master).toRequest
    else .idle

/-- The access that ends, with what the master reads. -/
def completed (s : ManagementBus) (e : Event) : List (Master × Request × BitVec 32) :=
  if (s.bus.shared (s.masters e)).cyc && s.bus.sharedAck e.replies then
    [(s.bus.grant, (s.bus.shared (s.masters e)).toRequest, s.bus.sharedDatR e.replies)]
  else []

/-- Behind an acknowledge a master lets the bus go for a clock. -/
def Polite (s : ManagementBus) (e : Event) : Prop :=
  ∀ master, s.access master = .released → e.request master = false

/-- The counter has not passed its start. -/
def Counts (s : ManagementBus) : Prop := s.bus.count.toNat ≤ 1000000

variable {s : ManagementBus} {e : Event} {master : Master} {request : Request}

theorem masters_of_waiting (h : s.access master = .waiting request) :
    s.masters e master = ⟨request, true, true⟩ := by
  rw [masters, h]

theorem stb_eq (s : ManagementBus) (e : Event) (master : Master) :
    (s.masters e master).stb = (s.masters e master).cyc := by
  unfold masters
  split <;> rfl

/-- The counter over a clock. -/
theorem count_step (s : ManagementBus) (e : Event) :
    (s.step e).bus.count.toNat =
      if (s.bus.shared (s.masters e)).cyc = true ∧ s.bus.sharedAck e.replies = false then
        s.bus.count.toNat - 1
      else 1000000 := by
  have hwait : s.bus.wait (s.masters e) e.replies =
      ((s.bus.shared (s.masters e)).cyc && !s.bus.sharedAck e.replies) := by
    rw [Interconnect.wait, Interconnect.shared, stb_eq, Bool.and_self]
  change (if s.bus.wait (s.masters e) e.replies then
    if !s.bus.done then s.bus.count - 1#20 else s.bus.count else 1000000#20 : BitVec 20).toNat = _
  rw [hwait]
  cases hcyc : (s.bus.shared (s.masters e)).cyc <;> cases hack : s.bus.sharedAck e.replies <;>
    try rfl
  have hdone : s.bus.done = false := by
    rw [Interconnect.sharedAck, Bool.or_eq_false_iff] at hack
    exact hack.2
  rw [hdone]
  have hpos : (1#20).toNat ≤ s.bus.count.toNat := by
    rw [Interconnect.done, beq_eq_false_iff_ne, Ne, ← BitVec.toNat_inj] at hdone
    exact Nat.pos_of_ne_zero hdone
  exact BitVec.toNat_sub_of_le hpos

theorem Counts.step (h : s.Counts) (e : Event) : (s.step e).Counts := by
  rw [Counts, count_step]
  rw [Counts] at h
  split <;> omega

theorem counts_reset : Counts reset := le_rfl

end ManagementBus

/-! ## In turn -/

/-- How many masters come before another one gets its turn. -/
def Master.index : Master → ℕ
  | .ibus => 0
  | .dbus => 1
  | .dbgUart => 2

def Master.turns (master grant : Master) : ℕ := (master.index + 3 - grant.index) % 3

namespace Interconnect

variable {s : Interconnect} {masters : Master → Wishbone}

theorem nextGrant_of_cyc (h : (masters s.grant).cyc = true) : s.nextGrant masters = s.grant := by
  unfold nextGrant
  cases hgrant : s.grant <;> rw [hgrant] at h <;> simp [h]

/-- What is read where one slave is selected. -/
theorem sharedDatR_of_slaveSel {replies : Slave → Reply} {adr : BitVec 30}
    {slave : Slave} (hdone : s.done = false) (hsel : s.slaveSelR = slaveSel adr)
    (h : slaveSel adr slave = true) : s.sharedDatR replies = (replies slave).datR := by
  have hother : ∀ slave', slave' ≠ slave → slaveSel adr slave' = false := by
    intro slave' hne
    rw [Bool.eq_false_iff]
    exact fun hsel' ↦ hne (slaveSel_unique hsel' h)
  rw [Interconnect.sharedDatR, hdone, if_neg (by decide), hsel]
  cases slave <;> simp [Slave.all, h, hother]

/-- A bus that is let go comes one turn nearer to any master that asks for it. -/
theorem turns_nextGrant {master : Master} (h : (masters s.grant).cyc = false)
    (hmaster : (masters master).cyc = true) :
    (masters (s.nextGrant masters)).cyc = true ∧
      master.turns (s.nextGrant masters) < master.turns s.grant := by
  have hne : master ≠ s.grant := by
    rintro rfl
    exact absurd (hmaster.symm.trans h) (by decide)
  unfold nextGrant
  cases hgrant : s.grant <;> rw [hgrant] at h hne <;> cases master <;>
    first
    | exact absurd rfl hne
    | (simp only [h, hmaster, Bool.not_false, if_true]; decide)
    | (simp only [h, hmaster, Bool.not_false, if_true]
       split_ifs with hfirst <;> simp_all [Master.turns, Master.index])

end Interconnect

theorem Master.turns_pos {master grant : Master} (h : grant ≠ master) :
    0 < master.turns grant := by
  cases master <;> cases grant <;> first | exact absurd rfl h | decide

theorem Master.turns_le (master grant : Master) : master.turns grant ≤ 2 := by
  cases master <;> cases grant <;> decide

namespace ManagementBus

variable {s : ManagementBus} {e : Event} {master : Master} {request : Request}

/-- An access takes so many clocks at most, and one more to let the bus go. -/
def turnClocks : ℕ := 1000002

/-- How long the master that has the bus can still keep it. -/
def keepClocks (s : ManagementBus) : ℕ :=
  match s.access s.bus.grant with
  | .waiting _ => s.bus.count.toNat + 2
  | .released => 1
  | .idle => turnClocks

/-- How long a master that waits can still wait. -/
def waitClocks (master : Master) (s : ManagementBus) : ℕ :=
  if s.bus.grant = master then s.bus.count.toNat
  else (master.turns s.bus.grant - 1) * turnClocks + 1000000 + s.keepClocks

/-- The access of `master` ends. -/
def Ends (master : Master) (request : Request) (s : ManagementBus) (e : Event) : Prop :=
  ∃ data, (master, request, data) ∈ s.completed e

theorem Counts.waitClocks_lt (h : s.Counts) (master : Master) :
    waitClocks master s < 3 * turnClocks := by
  rw [Counts] at h
  have hturns := Master.turns_le master s.bus.grant
  have hkeep : s.keepClocks ≤ turnClocks := by
    unfold keepClocks turnClocks
    split <;> omega
  unfold waitClocks turnClocks at *
  split
  · omega
  · have hpos : 0 < master.turns s.bus.grant := Master.turns_pos ‹_›
    omega

theorem access_step_of_not_acked (hcyc : (s.masters e master).cyc = true)
    (hack : s.bus.masterAck e.replies master = false) :
    (s.step e).access master = .waiting (s.masters e master).toRequest := by
  simp only [step, hcyc, hack, if_true]
  rfl

/-- The bus is at the request `busy`, or it is free. -/
structure Busy (s : ManagementBus) (busy : Option Request) : Prop where
  count : busy = none → s.bus.count.toNat = 1000000
  access : ∀ r ∈ busy, s.access s.bus.grant = .waiting r
  slaveSelR : ∀ r ∈ busy, s.bus.slaveSelR = slaveSel r.adr

/-- The request that stays on the bus. -/
def nextBusy (s : ManagementBus) (e : Event) : Option Request :=
  if (s.bus.shared (s.masters e)).cyc && !s.bus.sharedAck e.replies then
    some (s.bus.shared (s.masters e)).toRequest
  else none

theorem nextBusy_of_free (h : (s.bus.shared (s.masters e)).cyc = false) : s.nextBusy e = none := by
  rw [nextBusy, h]
  rfl

theorem nextBusy_of_acked (h : s.bus.sharedAck e.replies = true) : s.nextBusy e = none := by
  rw [nextBusy, h, Bool.not_true, Bool.and_false]
  rfl

theorem nextBusy_of_waiting (hcyc : (s.bus.shared (s.masters e)).cyc = true)
    (hack : s.bus.sharedAck e.replies = false) :
    s.nextBusy e = some (s.bus.shared (s.masters e)).toRequest := by
  rw [nextBusy, hcyc, hack]
  rfl

/-- Whatever a clock brings, behind it the bus is at a request or free. -/
theorem busy_step (s : ManagementBus) (e : Event) : (s.step e).Busy (s.nextBusy e) := by
  have hcount := count_step s e
  cases hwait : (s.bus.shared (s.masters e)).cyc && !s.bus.sharedAck e.replies with
  | false =>
    have hnone : s.nextBusy e = none := by
      rw [nextBusy, hwait]
      rfl
    rw [if_neg] at hcount
    · exact ⟨fun _ ↦ hcount, by simp [hnone], by simp [hnone]⟩
    · rintro ⟨hcyc, hack⟩
      rw [hcyc, hack] at hwait
      cases hwait
  | true =>
    rw [Bool.and_eq_true, Bool.not_eq_true'] at hwait
    obtain ⟨hcyc, hack⟩ := hwait
    have hgrant : (s.step e).bus.grant = s.bus.grant := Interconnect.nextGrant_of_cyc hcyc
    rw [nextBusy_of_waiting hcyc hack]
    refine ⟨by simp, ?_, ?_⟩
    · rintro _ ⟨⟩
      rw [hgrant]
      apply access_step_of_not_acked hcyc
      rw [Interconnect.masterAck, hack, Bool.false_and]
    · rintro _ ⟨⟩
      rfl

/-- The request the bus is at is on its lines. -/
theorem Busy.shared {busy : Option Request} (h : s.Busy busy) {r : Request} (hr : r ∈ busy)
    (e : Event) : s.bus.shared (s.masters e) = ⟨r, true, true⟩ :=
  masters_of_waiting (h.access r hr)

/-- The master that has the bus waits. -/
theorem wait_step_granted (hwaiting : s.access s.bus.grant = .waiting request)
    (hack : s.bus.sharedAck e.replies = false) :
    (s.step e).bus.grant = s.bus.grant ∧
      (s.step e).bus.count.toNat < s.bus.count.toNat := by
  have hlines := masters_of_waiting (e := e) hwaiting
  have hcyc : (s.bus.shared (s.masters e)).cyc = true := by rw [Interconnect.shared, hlines]
  refine ⟨Interconnect.nextGrant_of_cyc hcyc, ?_⟩
  have hdone : s.bus.count.toNat ≠ 0 := by
    rw [Interconnect.sharedAck, Bool.or_eq_false_iff, Interconnect.done, beq_eq_false_iff_ne, Ne,
      ← BitVec.toNat_inj] at hack
    exact hack.2
  rw [count_step, if_pos ⟨hcyc, hack⟩]
  omega

/-- Another master has the bus and keeps it. -/
theorem keep_step (hcounts : s.Counts) (hcyc : (s.masters e s.bus.grant).cyc = true)
    (hpolite : s.Polite e) :
    (s.step e).bus.grant = s.bus.grant ∧ (s.step e).keepClocks < s.keepClocks := by
  have hgrant : (s.step e).bus.grant = s.bus.grant := Interconnect.nextGrant_of_cyc hcyc
  refine ⟨hgrant, ?_⟩
  have hkept : 2 ≤ s.keepClocks ∧ (s.bus.sharedAck e.replies = false → 0 < s.bus.count.toNat) ∧
      s.bus.count.toNat + 2 ≤ s.keepClocks := by
    refine ⟨?_, fun hack ↦ ?_, ?_⟩
    · unfold keepClocks turnClocks
      cases haccess : s.access s.bus.grant with
      | released => rw [masters, haccess, hpolite _ haccess] at hcyc; cases hcyc
      | idle => simp
      | waiting request => simp
    · rw [Interconnect.sharedAck, Bool.or_eq_false_iff, Interconnect.done, beq_eq_false_iff_ne, Ne,
        ← BitVec.toNat_inj] at hack
      exact Nat.pos_of_ne_zero hack.2
    · rw [Counts] at hcounts
      unfold keepClocks turnClocks
      cases haccess : s.access s.bus.grant with
      | released => rw [masters, haccess, hpolite _ haccess] at hcyc; cases hcyc
      | idle => simp; omega
      | waiting request => simp
  obtain ⟨htwo, hpos, hcount⟩ := hkept
  rw [keepClocks, hgrant]
  cases hack : s.bus.sharedAck e.replies with
  | true =>
    have hacked : s.bus.masterAck e.replies s.bus.grant = true := by
      rw [Interconnect.masterAck, hack, beq_self_eq_true]
      rfl
    have hreleased : (s.step e).access s.bus.grant = .released := by
      simp only [step, hcyc, hacked, if_true]
    rw [hreleased]
    exact htwo
  | false =>
    have hacked : s.bus.masterAck e.replies s.bus.grant = false := by
      rw [Interconnect.masterAck, hack, Bool.false_and]
    rw [access_step_of_not_acked hcyc hacked]
    have hnext := count_step s e
    rw [if_pos ⟨hcyc, hack⟩] at hnext
    have hlow := hpos hack
    simp only
    omega

/-- Another master has the bus and lets it go. -/
theorem handover_step (hcyc : (s.masters e s.bus.grant).cyc = false)
    (hmaster : (s.masters e master).cyc = true) :
    waitClocks master (s.step e) ≤ (master.turns s.bus.grant - 1) * turnClocks + 1000000 := by
  obtain ⟨hrequested, hturns⟩ := Interconnect.turns_nextGrant (s := s.bus) hcyc hmaster
  have hcount : (s.step e).bus.count.toNat = 1000000 := by
    rw [count_step, if_neg]
    rintro ⟨hyes, -⟩
    exact absurd (hyes.symm.trans hcyc) (by decide)
  have hmoved : (s.step e).bus.grant ≠ s.bus.grant := by
    intro hsame
    rw [show s.bus.nextGrant (s.masters e) = s.bus.grant from hsame, hcyc] at hrequested
    cases hrequested
  rw [waitClocks]
  split
  · rw [hcount]
    exact Nat.le_add_left _ _
  · next hother =>
    have hpos : 0 < master.turns (s.step e).bus.grant := Master.turns_pos hother
    have hwaiting : (s.step e).access (s.step e).bus.grant =
        .waiting (s.masters e (s.step e).bus.grant).toRequest := by
      apply access_step_of_not_acked hrequested
      change (s.bus.sharedAck e.replies && s.bus.grant == (s.step e).bus.grant) = false
      rw [beq_eq_false_iff_ne.2 hmoved.symm, Bool.and_false]
    have hkeep : (s.step e).keepClocks = turnClocks := by
      rw [keepClocks, hwaiting, hcount]
      rfl
    have hmul : (master.turns (s.step e).bus.grant - 1) * turnClocks + turnClocks ≤
        (master.turns s.bus.grant - 1) * turnClocks := by
      rw [← Nat.succ_mul]
      apply Nat.mul_le_mul_right
      change master.turns (s.step e).bus.grant < master.turns s.bus.grant at hturns
      omega
    rw [hkeep]
    omega

/-- **One clock of waiting.** -/
theorem wait_step (hcounts : s.Counts) (hwaiting : s.access master = .waiting request)
    (hpolite : s.Polite e) :
    Ends master request s e ∨
      (s.step e).access master = .waiting request ∧
        waitClocks master (s.step e) < waitClocks master s := by
  have hlines := masters_of_waiting (e := e) hwaiting
  have hcyc : (s.masters e master).cyc = true := by rw [hlines]
  by_cases hgrant : s.bus.grant = master
  · subst hgrant
    cases hack : s.bus.sharedAck e.replies with
    | true =>
      refine .inl ⟨s.bus.sharedDatR e.replies, ?_⟩
      rw [completed, Interconnect.shared, hcyc, hack, hlines]
      exact List.mem_singleton.2 rfl
    | false =>
      obtain ⟨hsame, hless⟩ := wait_step_granted hwaiting hack
      refine .inr ⟨?_, ?_⟩
      · rw [access_step_of_not_acked hcyc, hlines]
        rw [Interconnect.masterAck, hack, Bool.false_and]
      · rw [waitClocks, waitClocks, if_pos hsame, if_pos rfl]
        exact hless
  · refine .inr ⟨?_, ?_⟩
    · rw [access_step_of_not_acked hcyc, hlines]
      rw [Interconnect.masterAck, beq_eq_false_iff_ne.2 hgrant, Bool.and_false]
    · cases hother : (s.masters e s.bus.grant).cyc with
      | true =>
        obtain ⟨hsame, hless⟩ := keep_step hcounts hother hpolite
        rw [waitClocks, waitClocks, hsame, if_neg hgrant, if_neg hgrant]
        omega
      | false =>
        have hnext := handover_step hother hcyc
        have hkeep : 0 < s.keepClocks := by
          unfold keepClocks turnClocks
          split <;> omega
        rw [waitClocks.eq_def master s, if_neg hgrant]
        omega

/-- **Everybody gets a turn.** After any run, if the masters let the bus go behind every access, an
access that waits ends within three turns, whatever the slaves do. -/
theorem access_ends (before events : List Event) (master : Master) (request : Request)
    (hwaiting : (run step reset before).access master = .waiting request)
    (hpolite : Along step Polite (run step reset before) events)
    (hlong : 3 * turnClocks ≤ events.length) :
    ∃ front e back, events = front ++ e :: back ∧
      Ends master request (run step (run step reset before) front) e := by
  have hcounts : (run step reset before).Counts :=
    invariant_run (P := fun _ _ ↦ True) (fun _ e h _ ↦ h.step e) counts_reset
      (along_of_forall fun _ _ ↦ trivial)
  refine happens_of_measure (waitClocks master)
    (I := fun s ↦ s.Counts ∧ s.access master = .waiting request) (fun s e h hp ↦ ?_)
    ⟨hcounts, hwaiting⟩ hpolite (lt_of_lt_of_le (hcounts.waitClocks_lt master) hlong)
  exact (wait_step h.1 h.2 hp).imp_right fun hnext ↦ ⟨⟨h.1.step e, hnext.1⟩, hnext.2⟩

/-- A clock at which no slave answers and the given masters start an access to word 0. -/
def silent (request : Master → Bool) : Event where
  request := request
  lines := fun _ ↦ ⟨0#30, 0#32, 0#4, false⟩
  replies := fun _ ↦ ⟨false, 0#32⟩

/-- Both buses of the processor start an access at once. -/
theorem access_ends_bothExample :
    ∃ front e back,
      List.replicate (3 * turnClocks) (silent fun _ ↦ false) = front ++ e :: back ∧
        Ends .dbus ⟨0#30, 0#32, 0#4, false⟩
          (run step (run step reset [silent fun master ↦ master != .dbgUart]) front) e := by
  refine access_ends _ _ _ _ rfl ?_ (by rw [List.length_replicate])
  have hnone : ∀ e ∈ List.replicate (3 * turnClocks) (silent fun _ ↦ false),
      ∀ master, e.request master = false := by
    intro e he master
    rw [List.eq_of_mem_replicate he]
    rfl
  exact (along_of_forall hnone).mono fun _ _ hrequest master _ ↦ hrequest master

/-! ## Nobody answers -/

/-- While no slave answers, the access stays on the bus and the counter runs down. -/
theorem silent_step (hwaiting : s.access s.bus.grant = .waiting request)
    (hsilent : ∀ slave, (e.replies slave).ack = false) (hcount : s.bus.count.toNat ≠ 0) :
    s.completed e = [] ∧ (s.step e).bus.grant = s.bus.grant ∧
      (s.step e).access s.bus.grant = .waiting request ∧
      (s.step e).bus.count.toNat + 1 = s.bus.count.toNat ∧
      (s.step e).bus.busErrors = s.bus.busErrors := by
  have hlines := masters_of_waiting (e := e) hwaiting
  have hdone : s.bus.done = false := by
    rw [Interconnect.done, beq_eq_false_iff_ne, Ne, ← BitVec.toNat_inj]
    exact hcount
  have hack : s.bus.sharedAck e.replies = false := by
    simp [Interconnect.sharedAck, hdone, hsilent]
  have hcyc : (s.bus.shared (s.masters e)).cyc = true := by rw [Interconnect.shared, hlines]
  refine ⟨?_, Interconnect.nextGrant_of_cyc hcyc, ?_, ?_, ?_⟩
  · rw [completed, hack, Bool.and_false, if_neg (by decide)]
  · rw [access_step_of_not_acked hcyc, hlines]
    rw [Interconnect.masterAck, hack, Bool.false_and]
  · rw [count_step, if_pos ⟨hcyc, hack⟩]
    omega
  · simp [step, Interconnect.clockEdge, hdone]

/-- **An access nobody answers.** No access ends before the counter has run down; at that clock it
ends with ones in all places, and is counted as an error, unless the count of the errors is full. -/
theorem silent_access (hwaiting : s.access s.bus.grant = .waiting request) (events : List Event)
    (last : Event) (hsilent : ∀ e ∈ events ++ [last], ∀ slave, (e.replies slave).ack = false)
    (hlength : events.length = s.bus.count.toNat) :
    trace step completed s events = [] ∧
      (run step s events).completed last = [(s.bus.grant, request, 4294967295#32)] ∧
      (run step s events).bus.busErrors = s.bus.busErrors ∧
      (run step s (events ++ [last])).bus.busErrors.toNat =
        min (s.bus.busErrors.toNat + 1) (2 ^ 32 - 1) := by
  induction events generalizing s with
  | nil =>
    have hlines := masters_of_waiting (e := last) hwaiting
    have hdone : s.bus.done = true := by
      rw [Interconnect.done, beq_iff_eq, ← BitVec.toNat_inj, ← hlength]
      rfl
    have hcompleted : s.completed last = [(s.bus.grant, request, 4294967295#32)] := by
      simp [completed, Interconnect.sharedAck, hdone, Interconnect.shared, hlines,
        Interconnect.sharedDatR]
    refine ⟨rfl, hcompleted, rfl, ?_⟩
    · change (if s.bus.busErrors ≠ 4294967295#32 then
        if s.bus.done then s.bus.busErrors + 1#32 else s.bus.busErrors
        else s.bus.busErrors : BitVec 32).toNat = _
      rw [hdone, if_pos rfl]
      have hlt := s.bus.busErrors.isLt
      split
      · next hroom =>
        rw [Ne, ← BitVec.toNat_inj] at hroom
        change s.bus.busErrors.toNat ≠ 2 ^ 32 - 1 at hroom
        rw [BitVec.toNat_add]
        change (s.bus.busErrors.toNat + 1) % 2 ^ 32 = _
        omega
      · next hfull =>
        rw [not_not.1 hfull]
        rfl
  | cons e rest ih =>
    rw [List.length_cons] at hlength
    have hfirst := hsilent e (by simp)
    obtain ⟨hnone, hgrant, haccess, hcount, herrors⟩ := silent_step hwaiting hfirst (by omega)
    rw [← hgrant] at haccess
    obtain ⟨htrace, hlast, hkept, hrun⟩ := ih haccess
      (fun e' he' ↦ hsilent e' (List.mem_cons_of_mem _ he')) (by omega)
    rw [hgrant] at hlast
    rw [herrors] at hkept hrun
    rw [trace, hnone, List.nil_append]
    exact ⟨htrace, hlast, hkept, hrun⟩

/-- The processor fetches from an address of no slave. -/
theorem silent_access_fetchExample :
    let s := run step reset [silent fun master ↦ master == .ibus]
    let waited := List.replicate 999999 (silent fun _ ↦ false)
    trace step completed s waited = [] ∧
      (run step s waited).completed (silent fun _ ↦ false) =
        [(.ibus, ⟨0#30, 0#32, 0#4, false⟩, 4294967295#32)] ∧
      (run step s waited).bus.busErrors = 0#32 ∧
      (run step s (waited ++ [silent fun _ ↦ false])).bus.busErrors.toNat =
        min (0 + 1) (2 ^ 32 - 1) := by
  intro s waited
  refine silent_access rfl _ _ (fun e he slave ↦ ?_) (by rw [List.length_replicate]; rfl)
  rcases List.mem_append.1 he with hfront | hlast
  · rw [List.eq_of_mem_replicate hfront]
    rfl
  · rw [List.mem_singleton.1 hlast]
    rfl

end ManagementBus

end CaravelSoc.Management
