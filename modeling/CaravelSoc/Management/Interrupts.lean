import CaravelSoc.Management.CsrBus

/-!
# The timer and the user's interrupts

The events behind the registers: the timer comes to zero, or one of the six interrupt pins of
the user project changes. Each has a bit that stays until the processor writes a one to it, and
the interrupt is asked for while the bit is set and enabled. A write reaches the bit one
clock after the bank has performed it.
-/

open Sequential

namespace CaravelSoc.Management

/-! ## An event and its bit -/

structure EventManager where
  pending : Bool
  triggerD : Bool
  pendingRe : Bool
  deriving DecidableEq, Repr

namespace EventManager

def reset : EventManager := ⟨false, false, false⟩

variable (m : EventManager) (trigger pendingR re : Bool)

def clear : Bool := m.pendingRe && pendingR

/-- The trigger was off one clock ago. -/
def rises : Bool := trigger && !m.triggerD

/-- One clock. An event that comes with a clear is kept. -/
def clockEdge : EventManager where
  pending := m.rises trigger || (m.pending && !m.clear pendingR)
  triggerD := trigger
  pendingRe := re

end EventManager

/-! ## The timer and the pins -/

/-- The timer behind bank 10. -/
structure Timer where
  value : BitVec 32
  valueStatus : BitVec 32
  updateValueRe : Bool
  manager : EventManager

namespace Timer

def reset : Timer := ⟨0#32, 0#32, false, .reset⟩

/-- `mgmtsoc_zero_trigger`. -/
def trigger (t : Timer) : Bool := t.value == 0#32

def load (storage : Registers) : BitVec 32 := storage .timerLoad
def reload (storage : Registers) : BitVec 32 := storage .timerReload

/-- One clock; `re` are the strobes of the registers. -/
def clockEdge (storage : Registers) (re : CsrRegister → Bool) (t : Timer) : Timer where
  value :=
    if (storage .timerEn).getLsbD 0 then
      if t.value = 0#32 then reload storage else t.value - 1#32
    else load storage
  valueStatus := if t.updateValueRe then t.value else t.valueStatus
  updateValueRe := re .timerUpdateValue
  manager :=
    t.manager.clockEdge t.trigger ((storage .timerEvPending).getLsbD 0) (re .timerEvPending)

end Timer

/-- A pin behind one of the banks 13 to 18: its two synchronising registers, its value one clock
before, and its event. -/
structure Gpioin where
  regs0 : Bool
  regs1 : Bool
  inPadsND : Bool
  manager : EventManager

namespace Gpioin

/-- In mode 1 any change is an event, in mode 0 the level that `edge` names. -/
def trigger (storage : Registers) (n : Fin 6) (g : Gpioin) : Bool :=
  if (storage (.gpioin n .mode)).getLsbD 0 then g.regs1 ^^ g.inPadsND
  else g.regs1 ^^ (storage (.gpioin n .edge)).getLsbD 0

/-- One clock. -/
def clockEdge (storage : Registers) (re : CsrRegister → Bool) (n : Fin 6) (pin : Bool)
    (g : Gpioin) : Gpioin where
  regs0 := pin
  regs1 := g.regs0
  inPadsND := g.regs1
  manager := g.manager.clockEdge (g.trigger storage n)
    ((storage (.gpioin n .evPending)).getLsbD 0) (re (.gpioin n .evPending))

end Gpioin

/-- The strobe of a register: the banks write it in this clock. -/
def Csr.re (s : Csr) (cyc : Bool) (bus : Wishbone) (r : CsrRegister) : Bool :=
  s.we cyc bus && CsrRegister.decode (s.adr cyc bus) == some r

/-- The events with a bank of their own. -/
inductive InterruptSource
  | timer
  | gpioin (n : Fin 6)
  deriving DecidableEq, Repr

namespace InterruptSource

def evPending : InterruptSource → CsrRegister
  | .timer => .timerEvPending
  | .gpioin n => .gpioin n .evPending

def evEnable : InterruptSource → CsrRegister
  | .timer => .timerEvEnable
  | .gpioin n => .gpioin n .evEnable

end InterruptSource

/-! ## The registers with their events -/

structure Interrupts where
  soc : CsrBus
  timer : Timer
  inputs : Fin 6 → Gpioin

namespace Interrupts

/-- What a clock brings: the masters, the other slaves, the other statuses, and the pins. -/
structure Event where
  request : Master → Bool
  lines : Master → Request
  outside : Slave → Reply
  status : CsrStatus
  userIrq : Fin 6 → Bool

def manager (s : Interrupts) : InterruptSource → EventManager
  | .timer => s.timer.manager
  | .gpioin n => (s.inputs n).manager

def trigger (s : Interrupts) : InterruptSource → Bool
  | .timer => s.timer.trigger
  | .gpioin n => (s.inputs n).trigger s.soc.csr.storage n

/-- `pending_r` of a bank. -/
def pendingR (s : Interrupts) (source : InterruptSource) : Bool :=
  (s.soc.csr.storage source.evPending).getLsbD 0

/-- The bits of `mgmtsoc_interrupt`. -/
def irq (s : Interrupts) (source : InterruptSource) : Bool :=
  (s.manager source).pending && (s.soc.csr.storage source.evEnable).getLsbD 0

/-- The banks show the events. -/
def status (s : Interrupts) (e : Event) : CsrStatus := fun r ↦
  match r with
  | .timerValue => s.timer.valueStatus
  | .timerEvStatus => BitVec.ofBool s.timer.trigger
  | .timerEvPending => BitVec.ofBool s.timer.manager.pending
  | .gpioin n .input => BitVec.ofBool (s.inputs n).regs1
  | .gpioin n .evStatus => BitVec.ofBool ((s.inputs n).trigger s.soc.csr.storage n)
  | .gpioin n .evPending => BitVec.ofBool (s.inputs n).manager.pending
  | r => e.status r

def socEvent (s : Interrupts) (e : Event) : CsrBus.Event where
  request := e.request
  lines := e.lines
  outside := e.outside
  status := s.status e

def re (s : Interrupts) (e : Event) : CsrRegister → Bool :=
  s.soc.csr.re (s.soc.slaveCyc (s.socEvent e) .csr) (s.soc.bus (s.socEvent e))

/-- One clock. -/
def step (s : Interrupts) (e : Event) : Interrupts where
  soc := s.soc.step (s.socEvent e)
  timer := s.timer.clockEdge s.soc.csr.storage (s.re e)
  inputs n := (s.inputs n).clockEdge s.soc.csr.storage (s.re e) n (e.userIrq n)

/-- The accesses that the banks perform. -/
def performed (s : Interrupts) (e : Event) : List CsrAccess := s.soc.performed (s.socEvent e)

end Interrupts

/-! ## When the bit is set -/

/-- An access that writes a one to the first bit of a register. -/
def CsrAccess.clears (r : CsrRegister) : CsrAccess → Bool
  | .read _ _ => false
  | .write r' data => r' == r && data.getLsbD 0

def CsrAccess.Writes (r : CsrRegister) : CsrAccess → Prop
  | .read _ _ => False
  | .write r' _ => r' = r

/-- What a strobe leaves in its register is what the banks have performed. -/
theorem Csr.re_eq_any (s : Csr) (cyc : Bool) (bus : Wishbone) (status : CsrStatus)
    (r : CsrRegister) :
    (s.re cyc bus r && ((s.clockEdge cyc bus status).storage r).getLsbD 0) =
      (s.performed cyc bus status).any (CsrAccess.clears r) := by
  cases h : s.taken cyc bus with
  | false => simp [re, we, performed, h]
  | true =>
    simp only [re, clockEdge, performed, we, CsrAccess.of, adr_of_taken h, datW, state_of_taken h,
      h, if_true, Bool.true_and, Bool.not_false]
    cases CsrRegister.decode (bus.adr.setWidth 14) with
    | none => simp
    | some r' =>
      cases hwe : bus.we && bus.sel != 0#4 with
      | false => simp [CsrAccess.clears]
      | true =>
        by_cases hr : r' = r
        · subst hr
          simp [CsrAccess.clears]
        · simp [CsrAccess.clears, beq_eq_false_iff_ne.2 hr]

namespace Interrupts

variable {s : Interrupts} {e : Event} {source : InterruptSource}

/-- The event comes, or the processor clears it; `true` and `false`. -/
def history (source : InterruptSource) (s : Interrupts) (e : Event) : List Bool :=
  (if (s.manager source).rises (s.trigger source) then [true] else []) ++
    if (s.performed e).any (CsrAccess.clears source.evPending) then [false] else []

/-- The bit is set, and no write to it is on its way. -/
def stands (source : InterruptSource) (s : Interrupts) : Bool :=
  (s.manager source).pending && !(s.manager source).clear (s.pendingR source)

theorem manager_step (s : Interrupts) (e : Event) (source : InterruptSource) :
    (s.step e).manager source =
      (s.manager source).clockEdge (s.trigger source) (s.pendingR source)
        (s.re e source.evPending) := by
  cases source <;> rfl

theorem clear_step (s : Interrupts) (e : Event) (source : InterruptSource) :
    ((s.step e).manager source).clear ((s.step e).pendingR source) =
      (s.performed e).any (CsrAccess.clears source.evPending) := by
  have hlist : ∀ performed : Option CsrAccess,
      performed.toList.any (CsrAccess.clears source.evPending) =
        performed.any (CsrAccess.clears source.evPending) := by
    rintro (_ | access)
    · rfl
    · exact Bool.or_false _
  rw [manager_step, performed, CsrBus.performed, hlist]
  exact s.soc.csr.re_eq_any _ _ _ _

/-- One clock of a bit. -/
theorem stands_step (s : Interrupts) (e : Event) (source : InterruptSource) :
    (s.step e).stands source = (s.history source e).getLastD (s.stands source) := by
  have hpending : ((s.step e).manager source).pending =
      ((s.manager source).rises (s.trigger source) || s.stands source) := by
    rw [manager_step]
    rfl
  rw [stands, hpending, clear_step, history]
  cases (s.manager source).rises (s.trigger source) <;>
    cases (s.performed e).any (CsrAccess.clears source.evPending) <;> simp

/-! ## The timer -/

/-- The clocks in which the timer comes to zero. -/
def ticks (s : Interrupts) (_ : Event) : List Unit :=
  if s.timer.manager.rises s.timer.trigger then [()] else []

/-- The timer goes on as it was started. -/
def Undisturbed (s : Interrupts) (e : Event) : Prop :=
  ∀ access ∈ s.performed e, ¬access.Writes .timerEn ∧ ¬access.Writes .timerReload

theorem storage_step_of_not_writes {r : CsrRegister}
    (h : ∀ access ∈ s.performed e, ¬access.Writes r) :
    (s.step e).soc.csr.storage r = s.soc.csr.storage r := by
  have hstorage : (s.step e).soc.csr.storage = _ := Csr.storage_clockEdge (s := s.soc.csr) _
  rw [hstorage]
  rw [performed, CsrBus.performed] at h
  change ∀ access ∈ Option.toList _, _ at h
  cases haccess : s.soc.csr.performed (s.soc.slaveCyc (s.socEvent e) .csr)
      (s.soc.bus (s.socEvent e)) (s.socEvent e).status with
  | none => rfl
  | some access =>
    rw [haccess] at h
    cases access with
    | read r' data => rfl
    | write r' data =>
      have hne : r ≠ r' := fun hr ↦ h (.write r' data) (by simp) hr.symm
      exact Function.update_of_ne hne _ _

/-- The timer runs, and starts again from `reload`. -/
structure Runs (reload : BitVec 32) (s : Interrupts) : Prop where
  en : (s.soc.csr.storage .timerEn).getLsbD 0 = true
  reload : Timer.reload s.soc.csr.storage = reload

section Runs

variable {reload : BitVec 32}

theorem Runs.step (h : Runs reload s) (hkept : s.Undisturbed e) : Runs reload (s.step e) := by
  refine ⟨?_, ?_⟩
  · rw [storage_step_of_not_writes fun access haccess ↦ (hkept access haccess).1]
    exact h.en
  · rw [Timer.reload, storage_step_of_not_writes fun access haccess ↦ (hkept access haccess).2]
    exact h.reload

theorem Runs.value_step (h : Runs reload s) (e : Event) :
    (s.step e).timer.value =
      if s.timer.value = 0#32 then reload else s.timer.value - 1#32 := by
  rw [← h.reload]
  exact if_pos h.en

theorem triggerD_step (s : Interrupts) (e : Event) :
    (s.step e).timer.manager.triggerD = s.timer.trigger := rfl

theorem ticks_of_ne (h : s.timer.value ≠ 0#32) (e : Event) : s.ticks e = [] := by
  rw [ticks, EventManager.rises, Timer.trigger, beq_eq_false_iff_ne.2 h]
  rfl

theorem ticks_of_eq (h : s.timer.value = 0#32) (e : Event) :
    s.ticks e = if s.timer.manager.triggerD then [] else [()] := by
  rw [ticks, EventManager.rises, Timer.trigger, h]
  cases s.timer.manager.triggerD <;> rfl

theorem toNat_sub_one {value : BitVec 32} (h : value ≠ 0#32) :
    (value - 1#32).toNat = value.toNat - 1 := by
  have hpos : value.toNat ≠ 0 := fun hzero ↦ h (BitVec.eq_of_toNat_eq hzero)
  have hlt := value.isLt
  rw [BitVec.toNat_sub, BitVec.toNat_ofNat]
  omega

/-- The count of the multiples of `period + 1` below two successive numbers. -/
theorem div_step (n period : ℕ) :
    1 + (n - period + period) / (period + 1) = (n + 1 + period) / (period + 1) := by
  have hnext : (n + 1 + period) / (period + 1) = n / (period + 1) + 1 := by
    rw [Nat.add_right_comm, Nat.add_assoc, Nat.add_div_right _ (Nat.succ_pos _)]
  rw [hnext, Nat.add_comm]
  rcases Nat.lt_or_ge n period with hlt | hge
  · rw [Nat.sub_eq_zero_of_le hlt.le, Nat.zero_add, Nat.div_eq_of_lt (Nat.lt_succ_self _),
      Nat.div_eq_of_lt (by omega)]
  · rw [Nat.sub_add_cancel hge]

/-- A timer that starts again from a reload comes to zero once in that many clocks and one. -/
theorem length_ticks_of_reload (hreload : reload ≠ 0#32) {events : List Event} (h : Runs reload s)
    (hfresh : s.timer.value = 0#32 → s.timer.manager.triggerD = false)
    (hkept : Along step Undisturbed s events) :
    (trace step ticks s events).length =
      (events.length - s.timer.value.toNat + reload.toNat) / (reload.toNat + 1) := by
  induction events generalizing s with
  | nil =>
    rw [List.length_nil, Nat.zero_sub, Nat.zero_add, Nat.div_eq_of_lt (Nat.lt_succ_self _)]
    rfl
  | cons e rest ih =>
    have hvalue := h.value_step e
    rw [trace, List.length_append, List.length_cons]
    by_cases hzero : s.timer.value = 0#32
    · rw [if_pos hzero] at hvalue
      have hticks : (s.ticks e).length = 1 := by
        rw [ticks_of_eq hzero, hfresh hzero]
        rfl
      rw [ih (h.step hkept.1) (fun hno ↦ absurd (hvalue.symm.trans hno) hreload) hkept.2, hvalue,
        hticks, hzero, BitVec.toNat_zero, Nat.sub_zero]
      exact div_step _ _
    · rw [if_neg hzero] at hvalue
      have hnext : (s.step e).timer.manager.triggerD = false := by
        rw [triggerD_step, Timer.trigger, beq_eq_false_iff_ne]
        exact hzero
      have hlow : s.timer.value.toNat ≠ 0 := fun hno ↦ hzero (BitVec.eq_of_toNat_eq hno)
      rw [ih (h.step hkept.1) (fun _ ↦ hnext) hkept.2, hvalue, ticks_of_ne hzero,
        toNat_sub_one hzero, List.length_nil, Nat.zero_add]
      congr 2
      omega

/-- A timer that starts again from zero stays there, which is not a new event. -/
theorem ticks_eq_nil {events : List Event} (h : Runs 0#32 s) (hzero : s.timer.value = 0#32)
    (hseen : s.timer.manager.triggerD = true) (hkept : Along step Undisturbed s events) :
    trace step ticks s events = [] := by
  induction events generalizing s with
  | nil => rfl
  | cons e rest ih =>
    have hvalue := h.value_step e
    rw [if_pos hzero] at hvalue
    have hnext : (s.step e).timer.manager.triggerD = true := by
      rw [triggerD_step, Timer.trigger, hzero]
      rfl
    rw [trace, ticks_of_eq hzero, hseen, ih (h.step hkept.1) hvalue hnext hkept.2]
    rfl

theorem length_ticks_of_zero {events : List Event} (h : Runs 0#32 s)
    (hfresh : s.timer.value = 0#32 → s.timer.manager.triggerD = false)
    (hkept : Along step Undisturbed s events) :
    (trace step ticks s events).length = min 1 (events.length - s.timer.value.toNat) := by
  induction events generalizing s with
  | nil => rw [List.length_nil, Nat.zero_sub, Nat.min_zero]; rfl
  | cons e rest ih =>
    have hvalue := h.value_step e
    rw [trace, List.length_append, List.length_cons]
    by_cases hzero : s.timer.value = 0#32
    · rw [if_pos hzero] at hvalue
      have hnext : (s.step e).timer.manager.triggerD = true := by
        rw [triggerD_step, Timer.trigger, hzero]
        rfl
      have hticks : (s.ticks e).length = 1 := by
        rw [ticks_of_eq hzero, hfresh hzero]
        rfl
      rw [ticks_eq_nil (h.step hkept.1) hvalue hnext hkept.2, hticks, hzero, BitVec.toNat_zero,
        List.length_nil]
      exact (Nat.min_eq_left (by omega)).symm
    · rw [if_neg hzero] at hvalue
      have hnext : (s.step e).timer.manager.triggerD = false := by
        rw [triggerD_step, Timer.trigger, beq_eq_false_iff_ne]
        exact hzero
      have hlow : s.timer.value.toNat ≠ 0 := fun hno ↦ hzero (BitVec.eq_of_toNat_eq hno)
      rw [ih (h.step hkept.1) (fun _ ↦ hnext) hkept.2, hvalue, ticks_of_ne hzero,
        toNat_sub_one hzero, List.length_nil, Nat.zero_add]
      congr 1
      omega

/-- The timer stands at zero, and its event has been seen. -/
def Seen (s : Interrupts) : Prop :=
  s.timer.value = 0#32 ∧ s.timer.manager.triggerD = true

instance (s : Interrupts) : Decidable s.Seen := inferInstanceAs (Decidable (_ ∧ _))

/-- A zero that has been seen is a whole period away from the next. -/
theorem length_ticks_of_seen (hreload : reload ≠ 0#32) {events : List Event} (h : Runs reload s)
    (hseen : s.Seen) (hkept : Along step Undisturbed s events) :
    (trace step ticks s events).length =
      (events.length - (reload.toNat + 1) + reload.toNat) / (reload.toNat + 1) := by
  cases events with
  | nil =>
    rw [List.length_nil, Nat.zero_sub, Nat.zero_add, Nat.div_eq_of_lt (Nat.lt_succ_self _)]
    rfl
  | cons e rest =>
    have hvalue := h.value_step e
    rw [if_pos hseen.1] at hvalue
    have hrest := length_ticks_of_reload hreload (h.step hkept.1)
      (fun hno ↦ absurd (hvalue.symm.trans hno) hreload) hkept.2
    rw [trace, ticks_of_eq hseen.1, hseen.2, if_pos rfl, List.nil_append, hrest, hvalue,
      List.length_cons, Nat.add_sub_add_right]

/-- **The timer is periodic.** While nobody writes its enable or its reload, a timer that runs
comes to zero as often as its value and its reload say, where a zero that has been seen at the start
is not counted again; with a reload of zero it does so once. -/
theorem timer_ticks {events : List Event} (h : Runs reload s)
    (hkept : Along step Undisturbed s events) :
    (trace step ticks s events).length =
      if reload = 0#32 then
        if s.Seen then 0 else min 1 (events.length - s.timer.value.toNat)
      else
        (events.length - (if s.Seen then reload.toNat + 1 else s.timer.value.toNat) +
          reload.toNat) / (reload.toNat + 1) := by
  have hfresh : ¬s.Seen → s.timer.value = 0#32 → s.timer.manager.triggerD = false := by
    intro hnot hzero
    rw [← Bool.not_eq_true]
    exact fun htrigger ↦ hnot ⟨hzero, htrigger⟩
  split
  · next hzero =>
    subst hzero
    split
    · next hseen => rw [ticks_eq_nil h hseen.1 hseen.2 hkept, List.length_nil]
    · next hnot => exact length_ticks_of_zero h (hfresh hnot) hkept
  · next hreload =>
    split
    · next hseen => exact length_ticks_of_seen hreload h hseen hkept
    · next hnot => exact length_ticks_of_reload hreload h (hfresh hnot) hkept

end Runs

def quiet (pins : Fin 6 → Bool) : Event where
  request _ := false
  lines _ := ⟨0#30, 0#32, 0#4, false⟩
  outside _ := ⟨false, 0#32⟩
  status r := 0#r.statusWidth
  userIrq := pins

/-- The chip after a reset. -/
def atReset : Interrupts where
  soc := CsrBus.atReset
  timer := .reset
  inputs _ := ⟨false, false, false, .reset⟩

/-- A timer that stands at two and starts again from one. -/
def startedTimer : Interrupts :=
  let storage := Function.update
    (Function.update Csr.resetStorage .timerEn 1#1) .timerReload 1#32
  { atReset with
    soc := ⟨.reset, { Csr.reset with storage := storage }⟩
    timer := { Timer.reset with value := 2#32 } }

theorem undisturbed_of_nil (h : s.performed e = []) : s.Undisturbed e := by
  intro access haccess
  rw [h] at haccess
  cases haccess

/-- Two events in five clocks: in the third one and in the fifth. -/
theorem timer_ticks_startedTimer :
    (trace step ticks startedTimer (List.replicate 5 (quiet fun _ ↦ false))).length = 2 := by
  have hruns : Runs 1#32 startedTimer := ⟨rfl, rfl⟩
  refine (timer_ticks hruns ?_).trans (by decide)
  exact ⟨undisturbed_of_nil rfl, undisturbed_of_nil rfl, undisturbed_of_nil rfl,
    undisturbed_of_nil rfl, undisturbed_of_nil rfl, trivial⟩

/-! ## From the reset on -/

/-- After a reset, with any values in the storages. -/
structure IsReset (s : Interrupts) : Prop where
  soc : s.soc.IsReset
  manager : ∀ source, s.manager source = .reset

/-- A write is on its way only in the second clock of its access. -/
theorem state_of_pendingRe_step (h : ((s.step e).manager source).pendingRe = true) :
    (s.step e).soc.csr.state = true := by
  rw [manager_step] at h
  change (Csr.we _ _ _ && _) = true at h
  rw [Csr.we, Bool.and_eq_true, Bool.and_eq_true, Bool.and_eq_true] at h
  exact h.1.1.1

theorem IsReset.clear_eq (h : s.IsReset) (events : List Event) (source : InterruptSource)
    (hstate : (run step s events).soc.csr.state = false) :
    ((run step s events).manager source).clear ((run step s events).pendingR source) = false := by
  have hpending : ((run step s events).manager source).pendingRe = true →
      (run step s events).soc.csr.state = true := by
    refine invariant_run (I := fun s : Interrupts ↦ (s.manager source).pendingRe = true →
      s.soc.csr.state = true) (P := fun _ _ ↦ True) ?_ ?_ (along_of_forall fun _ _ ↦ trivial)
    · exact fun s e _ _ ↦ state_of_pendingRe_step
    · rw [h.manager source]
      exact fun hno ↦ absurd hno (by decide)
  rw [EventManager.clear, Bool.and_eq_false_iff]
  left
  rw [Bool.eq_false_iff]
  exact fun hyes ↦ absurd ((hpending hyes).symm.trans hstate) (by decide)

/-- **No interrupt is lost and none comes back.** Between two accesses of the registers, each
source asks for its interrupt if and only if it is enabled and its event came behind the last
access that cleared it, in every run of the masters and of the pins. -/
theorem interrupts_kept (h : s.IsReset) (events : List Event) (source : InterruptSource)
    (hstate : (run step s events).soc.csr.state = false) :
    (run step s events).irq source =
      ((trace step (history source) s events).getLastD false &&
        ((run step s events).soc.csr.storage source.evEnable).getLsbD 0) := by
  have hinit : s.stands source = false := by
    rw [stands, h.manager source]
    rfl
  have hlast := getLastD_trace step (stands source) (history source)
    (fun s e ↦ s.stands_step e source) s events
  rw [hinit, stands, h.clear_eq events source hstate, Bool.not_false, Bool.and_true] at hlast
  rw [irq, hlast]

/-- The data bus enables the interrupt of a pin, which rises behind that. -/
def pinRises : List Event :=
  let enable : Request := ⟨(CsrRegister.gpioin 2 .evEnable).busAddress, 1#32, 0b1111#4, true⟩
  let write : Event := { quiet fun _ ↦ false with
    request := fun master ↦ master == .dbus
    lines := fun _ ↦ enable }
  write :: List.replicate 4 (quiet fun _ ↦ false) ++ List.replicate 4 (quiet fun n ↦ n == 2)

/-- The interrupt is asked for, by both accounts. -/
theorem interrupts_kept_pinRises :
    (run step atReset pinRises).irq (.gpioin 2) = true ∧
      (run step atReset pinRises).irq (.gpioin 2) =
        ((trace step (history (.gpioin 2)) atReset pinRises).getLastD false &&
          ((run step atReset pinRises).soc.csr.storage (.gpioin 2 .evEnable)).getLsbD 0) := by
  refine ⟨by decide +kernel, interrupts_kept ⟨⟨rfl, rfl⟩, fun source ↦ ?_⟩ _ (.gpioin 2)
    (by decide +kernel)⟩
  cases source <;> rfl

end Interrupts

end CaravelSoc.Management
