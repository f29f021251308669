import CaravelSoc.Management.Csr

/-!
# The registers behind the bus

Three masters reach the registers over one bus. Every access that ends there has been
shown to the banks once, whatever the bus does with the accesses of the other slaves,
so what a write or a read of a register sets off happens once for each access and in
their order.
-/

open Sequential

namespace CaravelSoc.Management

/-- The bus with the registers behind it. -/
structure CsrBus where
  core : ManagementBus
  csr : Csr

namespace CsrBus

/-- What a clock brings: the masters, the other slaves, and the statuses. -/
structure Event where
  request : Master → Bool
  lines : Master → Request
  outside : Slave → Reply
  status : CsrStatus

def replies (s : CsrBus) (e : Event) (slave : Slave) : Reply :=
  if slave = .csr then ⟨s.csr.busAck, s.csr.busDatR⟩ else e.outside slave

def busEvent (s : CsrBus) (e : Event) : ManagementBus.Event where
  request := e.request
  lines := e.lines
  replies := s.replies e

/-- The lines that all slaves see. -/
def bus (s : CsrBus) (e : Event) : Wishbone := s.core.bus.shared (s.core.masters (s.busEvent e))

/-- The `cyc` of a slave. -/
def slaveCyc (s : CsrBus) (e : Event) (slave : Slave) : Bool :=
  s.core.bus.slaveCyc (s.core.masters (s.busEvent e)) slave

/-- One clock. -/
def step (s : CsrBus) (e : Event) : CsrBus where
  core := s.core.step (s.busEvent e)
  csr := s.csr.clockEdge (s.slaveCyc e .csr) (s.bus e) e.status

/-- The access that ends. -/
def completed (s : CsrBus) (e : Event) : List (Master × Request × BitVec 32) :=
  s.core.completed (s.busEvent e)

/-- The access that the banks perform. -/
def performed (s : CsrBus) (e : Event) : List CsrAccess :=
  (s.csr.performed (s.slaveCyc e .csr) (s.bus e) e.status).toList

/-- An access that has ended, seen from the registers. -/
def accessOf (access : Master × Request × BitVec 32) : Option CsrAccess :=
  if slaveSel access.2.1.adr .csr then CsrAccess.of access.2.1 access.2.2 else none

/-- The access that the banks have performed and the bridge will acknowledge. -/
def underway (s : CsrBus) : List CsrAccess :=
  match s.core.access s.core.bus.grant with
  | .waiting r => if s.csr.state then (CsrAccess.of r s.csr.busDatR).toList else []
  | .idle | .released => []

/-- The other slaves acknowledge only while they are selected. -/
def OnlySelected (s : CsrBus) (e : Event) : Prop :=
  ∀ slave, slave ≠ .csr → (e.outside slave).ack = true → s.slaveCyc e slave = true

/-- The bridge is in its second clock if and only if the access under way is one of a register. -/
structure Tracks (s : CsrBus) (busy : Option Request) : Prop extends s.core.Busy busy where
  state : s.csr.state = busy.any (fun r ↦ slaveSel r.adr .csr)
  notDone : s.csr.state = true → s.core.bus.done = false

section Step

variable {s : CsrBus} {e : Event} {busy : Option Request}

theorem bus_stb (s : CsrBus) (e : Event) : (s.bus e).stb = (s.bus e).cyc :=
  ManagementBus.stb_eq _ _ _

theorem slaveCyc_eq (s : CsrBus) (e : Event) (slave : Slave) :
    s.slaveCyc e slave = ((s.bus e).cyc && slaveSel (s.bus e).adr slave) := rfl

theorem taken_eq (s : CsrBus) (e : Event) :
    s.csr.taken (s.slaveCyc e .csr) (s.bus e) = (!s.csr.state && s.slaveCyc e .csr) := by
  rw [Csr.taken, bus_stb, slaveCyc_eq]
  cases (s.bus e).cyc <;> simp

theorem Tracks.bus_eq (h : s.Tracks busy) {r : Request} (hr : r ∈ busy) (e : Event) :
    s.bus e = ⟨r, true, true⟩ :=
  h.toBusy.shared hr _

/-- In its second clock the bridge still has its access on the lines. -/
theorem Tracks.slaveCyc_of_state (h : s.Tracks busy) (hstate : s.csr.state = true) (e : Event) :
    s.slaveCyc e .csr = true := by
  rw [h.state, Option.any_eq_true] at hstate
  obtain ⟨r, hr, hsel⟩ := hstate
  rw [slaveCyc_eq, h.bus_eq hr e, hsel]
  rfl

/-- In its first clock the access is new on the bus. -/
theorem Tracks.busy_eq_none (h : s.Tracks busy) (hcsr : s.slaveCyc e .csr = true)
    (hstate : s.csr.state = false) : busy = none := by
  rw [h.state, Option.any_eq_false] at hstate
  rw [Option.eq_none_iff_forall_not_mem]
  intro r hr
  rw [slaveCyc_eq, h.bus_eq hr e, Bool.true_and] at hcsr
  exact absurd (hcsr.symm.trans (hstate r hr)) (by decide)

/-- While a register is on the lines the bridge acknowledges or nobody does. -/
theorem Tracks.sharedAck_eq (h : s.Tracks busy) (hselected : s.OnlySelected e)
    (hcsr : s.slaveCyc e .csr = true) : s.core.bus.sharedAck (s.replies e) = s.csr.state := by
  have hdone : s.core.bus.done = false := by
    cases hstate : s.csr.state with
    | true => exact h.notDone hstate
    | false =>
      have hcount := h.count (h.busy_eq_none hcsr hstate)
      rw [Interconnect.done, beq_eq_false_iff_ne, Ne, ← BitVec.toNat_inj, hcount]
      decide
  have hother : ∀ slave, slave ≠ .csr → (s.replies e slave).ack = false := by
    intro slave hne
    rw [Bool.eq_false_iff, replies, if_neg hne]
    intro hack
    have hsel := hselected slave hne hack
    rw [slaveCyc_eq, Bool.and_eq_true] at hsel hcsr
    exact hne (slaveSel_unique hsel.2 hcsr.2)
  have hbridge : (s.replies e .csr).ack = s.csr.state := rfl
  simp [Interconnect.sharedAck, hdone, Slave.all, hother, hbridge]

/-- A clock without a register on the lines. -/
theorem Tracks.step_away (h : s.Tracks busy) (hcsr : s.slaveCyc e .csr = false) :
    s.performed e = [] ∧ (s.completed e).filterMap accessOf = [] ∧ s.csr.state = false ∧
      (s.step e).Tracks (s.core.nextBusy (s.busEvent e)) ∧ (s.step e).csr.state = false ∧
      (s.step e).csr.storage = s.csr.storage := by
  have hstate : s.csr.state = false := by
    rw [Bool.eq_false_iff]
    exact fun hyes ↦ absurd ((h.slaveCyc_of_state hyes e).symm.trans hcsr) (by decide)
  have htaken : s.csr.taken (s.slaveCyc e .csr) (s.bus e) = false := by
    rw [taken_eq, hcsr, Bool.and_false]
  have hperformed : s.csr.performed (s.slaveCyc e .csr) (s.bus e) e.status = none := by
    rw [Csr.performed, htaken]
    rfl
  have hsel : (s.bus e).cyc = true → slaveSel (s.bus e).adr .csr = false := by
    rw [slaveCyc_eq, Bool.and_eq_false_iff] at hcsr
    exact fun hcyc ↦ hcsr.resolve_left fun hno ↦ absurd (hno.symm.trans hcyc) (by decide)
  refine ⟨by rw [performed, hperformed]; rfl, ?_, hstate,
    ⟨s.core.busy_step _, ?_, fun hyes ↦ absurd (hyes.symm.trans htaken) (by decide)⟩, htaken, ?_⟩
  · rw [completed, ManagementBus.completed]
    split
    · next hend =>
      rw [Bool.and_eq_true] at hend
      rw [List.filterMap_cons_none, List.filterMap_nil]
      rw [accessOf, if_neg]
      exact fun hyes ↦ absurd (hyes.symm.trans (hsel hend.1)) (by decide)
    · rfl
  · refine htaken.trans ((Option.any_eq_false _ _).2 fun r hr ↦ ?_).symm
    rw [ManagementBus.nextBusy] at hr
    split at hr
    · next hend =>
      rw [Bool.and_eq_true] at hend
      cases hr
      exact hsel hend.1
    · cases hr
  · rw [step, Csr.storage_clockEdge, hperformed]
    rfl

/-- The first clock of an access. -/
theorem Tracks.step_first (h : s.Tracks busy) (hselected : s.OnlySelected e)
    (hcsr : s.slaveCyc e .csr = true) (hstate : s.csr.state = false) :
    s.performed e = (CsrAccess.of (s.bus e).toRequest (s.csr.shown (s.bus e) e.status)).toList ∧
      s.completed e = [] ∧ (s.step e).Tracks (some (s.bus e).toRequest) ∧
      (s.step e).csr.state = true ∧ (s.step e).csr.busDatR = s.csr.shown (s.bus e) e.status ∧
      (s.step e).csr.storage =
        (CsrAccess.of (s.bus e).toRequest (s.csr.shown (s.bus e) e.status)).elim s.csr.storage
          s.csr.storage.perform := by
  have hack := h.sharedAck_eq hselected hcsr
  rw [hstate] at hack
  have htaken : s.csr.taken (s.slaveCyc e .csr) (s.bus e) = true := by
    rw [taken_eq, hstate, hcsr]
    rfl
  have hsel := hcsr
  rw [slaveCyc_eq, Bool.and_eq_true] at hsel
  have hbusy := s.core.busy_step (s.busEvent e)
  rw [ManagementBus.nextBusy_of_waiting hsel.1 hack] at hbusy
  have hcount : (s.step e).core.bus.count.toNat = 999999 := by
    have hstep := ManagementBus.count_step s.core (s.busEvent e)
    rw [if_pos ⟨hsel.1, hack⟩, h.count (h.busy_eq_none hcsr hstate)] at hstep
    exact hstep
  have hperformed : s.csr.performed (s.slaveCyc e .csr) (s.bus e) e.status =
      CsrAccess.of (s.bus e).toRequest (s.csr.shown (s.bus e) e.status) := by
    rw [Csr.performed, if_pos htaken]
  refine ⟨by rw [performed, hperformed], ?_, ⟨hbusy, ?_, fun _ ↦ ?_⟩, htaken,
    Csr.busDatR_clockEdge _ htaken, ?_⟩
  · rw [completed, ManagementBus.completed, if_neg]
    rw [Bool.and_eq_true, not_and]
    exact fun _ hyes ↦ absurd (hyes.symm.trans hack) (by decide)
  · exact htaken.trans hsel.2.symm
  · rw [Interconnect.done, beq_eq_false_iff_ne, Ne, ← BitVec.toNat_inj, hcount]
    decide
  · rw [step, Csr.storage_clockEdge, hperformed]

/-- The second clock of an access. -/
theorem Tracks.step_second (h : s.Tracks busy) (hselected : s.OnlySelected e)
    (hstate : s.csr.state = true) :
    s.performed e = [] ∧
      s.completed e = [(s.core.bus.grant, (s.bus e).toRequest, s.csr.busDatR)] ∧
      (s.step e).Tracks none ∧ (s.step e).csr.state = false ∧
      (s.step e).csr.storage = s.csr.storage := by
  have hcsr := h.slaveCyc_of_state hstate e
  have hack := h.sharedAck_eq hselected hcsr
  rw [hstate] at hack
  have htaken : s.csr.taken (s.slaveCyc e .csr) (s.bus e) = false := by
    rw [taken_eq, hstate]
    rfl
  have hperformed : s.csr.performed (s.slaveCyc e .csr) (s.bus e) e.status = none := by
    rw [Csr.performed, htaken]
    rfl
  have hsel := hcsr
  rw [slaveCyc_eq, Bool.and_eq_true] at hsel
  have hbusy := s.core.busy_step (s.busEvent e)
  rw [ManagementBus.nextBusy_of_acked hack] at hbusy
  refine ⟨by rw [performed, hperformed]; rfl, ?_, ⟨hbusy, htaken, fun hyes ↦ ?_⟩, htaken, ?_⟩
  · have hdata : s.core.bus.sharedDatR (s.replies e) = s.csr.busDatR := by
      obtain ⟨r, hr, hrsel⟩ := (Option.any_eq_true _ _).1 (h.state ▸ hstate)
      exact Interconnect.sharedDatR_of_slaveSel (h.notDone hstate) (h.slaveSelR r hr) hrsel
    rw [completed, ManagementBus.completed, if_pos]
    · rw [← hdata]
      rfl
    · rw [Bool.and_eq_true]
      exact ⟨hsel.1, hack⟩
  · exact absurd (hyes.symm.trans htaken) (by decide)
  · rw [step, Csr.storage_clockEdge, hperformed]
    rfl

theorem Tracks.step (h : s.Tracks busy) (hselected : s.OnlySelected e) :
    ∃ busy', (s.step e).Tracks busy' := by
  cases hcsr : s.slaveCyc e .csr with
  | false => exact ⟨_, (h.step_away hcsr).2.2.2.1⟩
  | true =>
    cases hstate : s.csr.state with
    | false => exact ⟨_, (h.step_first hselected hcsr hstate).2.2.1⟩
    | true => exact ⟨_, (h.step_second hselected hstate).2.2.1⟩

theorem underway_of_state (h : s.csr.state = false) : s.underway = [] := by
  rw [underway, h]
  split <;> rfl

theorem Tracks.underway_eq (h : s.Tracks busy) (hstate : s.csr.state = true) {r : Request}
    (hr : r ∈ busy) : s.underway = (CsrAccess.of r s.csr.busDatR).toList := by
  rw [underway, h.access r hr, hstate]
  rfl

/-- An access is performed in its first clock and ends in its second. -/
theorem Tracks.underway_step (h : s.Tracks busy) (hselected : s.OnlySelected e) :
    s.underway ++ s.performed e =
      (s.completed e).filterMap accessOf ++ (s.step e).underway := by
  cases hcsr : s.slaveCyc e .csr with
  | false =>
    obtain ⟨hperformed, hcompleted, hstate, -, hnext, -⟩ := h.step_away hcsr
    rw [hperformed, hcompleted, underway_of_state hstate, underway_of_state hnext]
  | true =>
    cases hstate : s.csr.state with
    | false =>
      obtain ⟨hperformed, hcompleted, htracks, hnext, hdata, -⟩ :=
        h.step_first hselected hcsr hstate
      rw [hperformed, hcompleted, underway_of_state hstate, htracks.underway_eq hnext rfl, hdata]
      rfl
    | true =>
      obtain ⟨hperformed, hcompleted, -, hnext, -⟩ := h.step_second hselected hstate
      obtain ⟨r, hr, hsel⟩ := (Option.any_eq_true _ _).1 (h.state ▸ hstate)
      rw [hperformed, hcompleted, underway_of_state hnext, h.underway_eq hstate hr, h.bus_eq hr e,
        List.append_nil, List.append_nil]
      have haccess : accessOf (s.core.bus.grant, r, s.csr.busDatR) =
          CsrAccess.of r s.csr.busDatR := if_pos hsel
      rw [List.filterMap_cons, haccess]
      cases CsrAccess.of r s.csr.busDatR <;> rfl

/-- What the banks perform is what their storages allow. -/
theorem answers_performed (s : CsrBus) (e : Event) :
    Along Registers.perform Registers.Answers s.csr.storage (s.performed e) ∧
      (s.step e).csr.storage = run Registers.perform s.csr.storage (s.performed e) := by
  have hstorage : (s.step e).csr.storage =
      (s.csr.performed (s.slaveCyc e .csr) (s.bus e) e.status).elim s.csr.storage
        s.csr.storage.perform := Csr.storage_clockEdge _
  rw [hstorage, performed, Csr.performed]
  split
  · rw [CsrAccess.of, Csr.shown]
    cases CsrRegister.decode ((s.bus e).adr.setWidth 14) with
    | none => exact ⟨trivial, rfl⟩
    | some r =>
      refine ⟨⟨?_, trivial⟩, rfl⟩
      change Registers.Answers s.csr.storage
        (if (s.bus e).we && (s.bus e).sel != 0#4 then CsrAccess.write r _ else .read r _)
      split
      · trivial
      · exact fun hnone ↦ if_pos hnone
  · exact ⟨trivial, rfl⟩

end Step

/-! ## From the reset on -/

/-- After a reset, with any values in the registers. -/
structure IsReset (s : CsrBus) : Prop where
  core : s.core = .reset
  state : s.csr.state = false

theorem IsReset.tracks {s : CsrBus} (h : s.IsReset) : s.Tracks none := by
  refine ⟨⟨fun _ ↦ by rw [h.core]; rfl, by simp, by simp⟩, h.state, fun hyes ↦ ?_⟩
  exact absurd (hyes.symm.trans h.state) (by decide)

/-- **One file of registers.** In every run of the three masters, and whatever the other slaves
answer, the banks perform each access of a register once, in the order in which the accesses end;
one at most has been performed and not ended. A register that shows no status reads as what the
accesses before have stored there. -/
theorem registers_serve {s : CsrBus} (h : s.IsReset) (events : List Event)
    (hselected : Along step OnlySelected s events) :
    Along Registers.perform Registers.Answers s.csr.storage
        ((trace step completed s events).filterMap accessOf) ∧
      trace step performed s events =
        (trace step completed s events).filterMap accessOf ++ (run step s events).underway ∧
      (run step s events).csr.storage =
        run Registers.perform s.csr.storage (trace step performed s events) := by
  have htracks : Along step (fun s e ↦ (∃ busy, s.Tracks busy) ∧ s.OnlySelected e) s events := by
    refine hselected.with_invariant (I := fun s : CsrBus ↦ ∃ busy, s.Tracks busy) ?_
      ⟨none, h.tracks⟩
    rintro s e ⟨busy, hbusy⟩ hsel
    exact hbusy.step hsel
  have hperformed : s.underway ++ trace step performed s events =
      trace step (fun s e ↦ (s.completed e).filterMap accessOf) s events ++
        (run step s events).underway := by
    refine trace_delay ?_ htracks
    rintro s e ⟨⟨busy, hbusy⟩, hsel⟩
    exact hbusy.underway_step hsel
  rw [underway_of_state h.state, List.nil_append, trace_filterMap] at hperformed
  have hanswers : Along Registers.perform Registers.Answers s.csr.storage
        (trace step performed s events) ∧
      (run step s events).csr.storage =
        run Registers.perform s.csr.storage (trace step performed s events) := by
    refine along_trace (R := fun (s : CsrBus) registers ↦ s.csr.storage = registers) ?_ rfl
      hselected
    rintro s _ e rfl -
    exact s.answers_performed e
  refine ⟨?_, hperformed, hanswers.2⟩
  have hboth := hanswers.1
  rw [hperformed, along_append] at hboth
  exact hboth.1

def atReset : CsrBus := ⟨.reset, .reset⟩

/-- The data bus writes the scratch register before the instruction bus reads it. -/
def writeThenRead : List Event :=
  let write : Request := ⟨CsrRegister.scratch.busAddress, 0xCAFE#32, 0b1111#4, true⟩
  let read : Request := ⟨CsrRegister.scratch.busAddress, 0#32, 0b1111#4, false⟩
  let lines : Master → Request := fun master ↦ if master = .dbus then write else read
  let clock (request : Master → Bool) : Event :=
    ⟨request, lines, fun _ ↦ ⟨false, 0#32⟩, fun r ↦ 0#r.statusWidth⟩
  [clock fun master ↦ master == .dbus, clock fun _ ↦ false, clock fun master ↦ master == .ibus,
    clock fun _ ↦ false, clock fun _ ↦ false, clock fun _ ↦ false]

theorem registers_serve_writeThenRead :
    Along Registers.perform Registers.Answers atReset.csr.storage
        ((trace step completed atReset writeThenRead).filterMap accessOf) ∧
      trace step performed atReset writeThenRead =
        (trace step completed atReset writeThenRead).filterMap accessOf ++
          (run step atReset writeThenRead).underway ∧
      (run step atReset writeThenRead).csr.storage =
        run Registers.perform atReset.csr.storage (trace step performed atReset writeThenRead) := by
  refine registers_serve ⟨rfl, rfl⟩ _ ?_
  have hsilent : ∀ e ∈ writeThenRead, ∀ slave, (e.outside slave).ack = false := by
    simp [writeThenRead]
  exact (along_of_forall hsilent).mono fun s e hnone slave _ hack ↦
    absurd (hack.symm.trans (hnone slave)) (by decide)

example :
    trace step completed atReset writeThenRead =
      [(.dbus, ⟨CsrRegister.scratch.busAddress, 0xCAFE#32, 0b1111#4, true⟩, 305419896#32),
        (.ibus, ⟨CsrRegister.scratch.busAddress, 0#32, 0b1111#4, false⟩, 0xCAFE#32)] := by
  decide +kernel

end CsrBus

end CaravelSoc.Management
