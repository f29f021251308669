import Mathlib.Data.List.Basic
import Mathlib.Data.List.Forall2

/-!
# Runs of deterministic event machines

A machine is a total step function on states and events. This file defines its
runs over finite event lists, the observations a run makes, and the two ways a
condition is imposed along a run: on every step taken, or on every state
visited. The invariant rule and the simulation rule are stated once, for
arbitrary states and events.
-/

namespace Sequential

variable {State Event Obs Abstract Input : Type*}

/-- The state reached from `state` by a finite list of events. -/
def run (step : State → Event → State) (state : State) : List Event → State
  | [] => state
  | event :: rest => run step (step state event) rest

/-- The observations of a run, in the order in which its steps make them. -/
def trace (step : State → Event → State) (observe : State → Event → List Obs)
    (state : State) : List Event → List Obs
  | [] => []
  | event :: rest => observe state event ++ trace step observe (step state event) rest

/-- Every step of the run meets `P`, a condition on the state before the step and its event. -/
def Along (step : State → Event → State) (P : State → Event → Prop) (state : State) :
    List Event → Prop
  | [] => True
  | event :: rest => P state event ∧ Along step P (step state event) rest

/-- Every state of the run, the first and the last included, meets `Q`. -/
def Always (step : State → Event → State) (Q : State → Prop) (state : State) :
    List Event → Prop
  | [] => Q state
  | event :: rest => Q state ∧ Always step Q (step state event) rest

instance decidableAlong (step : State → Event → State) (P : State → Event → Prop)
    [∀ state event, Decidable (P state event)] :
    ∀ state events, Decidable (Along step P state events)
  | _, [] => isTrue trivial
  | state, event :: rest =>
    have := decidableAlong step P (step state event) rest
    inferInstanceAs (Decidable (P state event ∧ Along step P (step state event) rest))

instance decidableAlways (step : State → Event → State) (Q : State → Prop) [DecidablePred Q] :
    ∀ state events, Decidable (Always step Q state events)
  | state, [] => inferInstanceAs (Decidable (Q state))
  | state, event :: rest =>
    have := decidableAlways step Q (step state event) rest
    inferInstanceAs (Decidable (Q state ∧ Always step Q (step state event) rest))

/-- A list whose length is a sum splits into parts of those lengths. -/
theorem exists_append_of_length {α : Type*} {list : List α} {m n : ℕ} (h : list.length = m + n) :
    ∃ front back, list = front ++ back ∧ front.length = m ∧ back.length = n :=
  ⟨list.take m, list.drop m, (List.take_append_drop m list).symm, by simp [h], by simp [h]⟩

theorem getLastD_append {α : Type*} (front back : List α) (x : α) :
    (front ++ back).getLastD x = back.getLastD (front.getLastD x) := by
  simp only [List.getLastD_eq_getLast?, List.getLast?_append, Option.getD_or]

section Append

variable (step : State → Event → State)

theorem run_append (state : State) (front back : List Event) :
    run step state (front ++ back) = run step (run step state front) back := by
  induction front generalizing state with
  | nil => rfl
  | cons event rest ih => exact ih _

theorem trace_append (observe : State → Event → List Obs) (state : State)
    (front back : List Event) :
    trace step observe state (front ++ back) =
      trace step observe state front ++ trace step observe (run step state front) back := by
  induction front generalizing state with
  | nil => rfl
  | cons event rest ih => simp only [List.cons_append, trace, run, ih, List.append_assoc]

theorem along_append (P : State → Event → Prop) (state : State) (front back : List Event) :
    Along step P state (front ++ back) ↔
      Along step P state front ∧ Along step P (run step state front) back := by
  induction front generalizing state with
  | nil => simp [Along, run]
  | cons event rest ih => simp only [List.cons_append, Along, run, ih, and_assoc]

theorem always_append (Q : State → Prop) (state : State) (front back : List Event) :
    Always step Q state (front ++ back) ↔
      Always step Q state front ∧ Always step Q (run step state front) back := by
  induction front generalizing state with
  | nil => exact ⟨fun h ↦ ⟨by cases back <;> first | exact h | exact h.1, h⟩, fun h ↦ h.2⟩
  | cons event rest ih => simp only [List.cons_append, Always, run, ih, and_assoc]

theorem trace_filter (observe : State → Event → List Obs) (p : Obs → Bool) (state : State)
    (events : List Event) :
    trace step (fun before event ↦ (observe before event).filter p) state events =
      (trace step observe state events).filter p := by
  induction events generalizing state with
  | nil => rfl
  | cons event rest ih => rw [trace, trace, ih, List.filter_append]

theorem trace_filterMap {Seen : Type*} (observe : State → Event → List Obs)
    (f : Obs → Option Seen) (state : State) (events : List Event) :
    trace step (fun before event ↦ (observe before event).filterMap f) state events =
      (trace step observe state events).filterMap f := by
  induction events generalizing state with
  | nil => rfl
  | cons event rest ih => rw [trace, trace, ih, List.filterMap_append]

theorem trace_flatMap {Seen : Type*} (observe : State → Event → List Obs)
    (f : Obs → List Seen) (state : State) (events : List Event) :
    trace step (fun before event ↦ (observe before event).flatMap f) state events =
      (trace step observe state events).flatMap f := by
  induction events generalizing state with
  | nil => rfl
  | cons event rest ih => rw [trace, trace, ih, List.flatMap_append]

/-- Observations of two kinds in one trace. -/
def both {Seen : Type*} (observe : State → Event → List Obs) (look : State → Event → List Seen)
    (state : State) (event : Event) : List (Obs ⊕ Seen) :=
  (observe state event).map .inl ++ (look state event).map .inr

theorem trace_inl_both {Seen : Type*} (observe : State → Event → List Obs)
    (look : State → Event → List Seen) (state : State) (events : List Event) :
    (trace step (both observe look) state events).filterMap Sum.getLeft? =
      trace step observe state events := by
  rw [← trace_filterMap]
  congr
  funext before event
  simp [both, List.filterMap_map, Function.comp_def]

theorem trace_inr_both {Seen : Type*} (observe : State → Event → List Obs)
    (look : State → Event → List Seen) (state : State) (events : List Event) :
    (trace step (both observe look) state events).filterMap Sum.getRight? =
      trace step look state events := by
  rw [← trace_filterMap]
  congr
  funext before event
  simp [both, List.filterMap_map, Function.comp_def]

/-- Everything observed meets `Q` when every step's observations do. -/
theorem forall_mem_trace_iff (observe : State → Event → List Obs) (Q : Obs → Prop) (state : State)
    (events : List Event) :
    (∀ x ∈ trace step observe state events, Q x) ↔
      Along step (fun before event ↦ ∀ x ∈ observe before event, Q x) state events := by
  induction events generalizing state with
  | nil => simp [trace, Along]
  | cons event rest ih => simp only [trace, Along, List.forall_mem_append, ih]

theorem length_trace_singleton (observe : State → Event → Obs) (state : State)
    (events : List Event) :
    (trace step (fun before event ↦ [observe before event]) state events).length =
      events.length := by
  induction events generalizing state with
  | nil => rfl
  | cons event rest ih => rw [trace, List.length_append, ih, List.length_singleton, Nat.add_comm,
      List.length_cons]

/-- The last value seen along a run is the final one. -/
theorem getLastD_trace_values {α : Type*} (f : State → α) (state : State)
    (events : List Event) :
    (trace step (fun before event ↦ [f (step before event)]) state events).getLastD (f state) =
      f (run step state events) := by
  induction events generalizing state with
  | nil => rfl
  | cons event rest ih =>
    rw [trace, List.singleton_append, List.getLastD_cons]
    exact ih (step state event)

/-- A value that every step sets to the last one it observes, if it observes any. -/
theorem getLastD_trace {α : Type*} (f : State → α) (observe : State → Event → List α)
    (hstep : ∀ state event, f (step state event) = (observe state event).getLastD (f state))
    (state : State) (events : List Event) :
    f (run step state events) = (trace step observe state events).getLastD (f state) := by
  induction events generalizing state with
  | nil => rfl
  | cons event rest ih => rw [run, trace, getLastD_append, ih, hstep]

end Append

section Rules

variable {step : State → Event → State}

theorem Always.head {Q : State → Prop} {state : State} {events : List Event}
    (h : Always step Q state events) : Q state := by
  cases events with
  | nil => exact h
  | cons event rest => exact h.1

theorem Always.last {Q : State → Prop} {state : State} {events : List Event}
    (h : Always step Q state events) : Q (run step state events) := by
  induction events generalizing state with
  | nil => exact h
  | cons event rest ih => exact ih h.2

theorem Always.mono {Q Q' : State → Prop} (himp : ∀ state, Q state → Q' state)
    {state : State} {events : List Event} (h : Always step Q state events) :
    Always step Q' state events := by
  induction events generalizing state with
  | nil => exact himp _ h
  | cons event rest ih => exact ⟨himp _ h.1, ih h.2⟩

theorem Always.and {Q Q' : State → Prop} {state : State} {events : List Event}
    (h : Always step Q state events) (h' : Always step Q' state events) :
    Always step (fun state ↦ Q state ∧ Q' state) state events := by
  induction events generalizing state with
  | nil => exact ⟨h, h'⟩
  | cons event rest ih => exact ⟨⟨h.1, h'.1⟩, ih h.2 h'.2⟩

/-- The states visited are those after the parts of the run. -/
theorem always_iff_forall_append {Q : State → Prop} {state : State} {events : List Event} :
    Always step Q state events ↔
      ∀ front back, events = front ++ back → Q (run step state front) := by
  constructor
  · rintro h front back rfl
    exact ((always_append _ _ _ _ _).1 h).1.last
  · intro h
    induction events generalizing state with
    | nil => exact h [] [] rfl
    | cons event rest ih =>
      refine ⟨h [] _ rfl, ih fun front back hsplit ↦ ?_⟩
      exact h (event :: front) back (by rw [hsplit, List.cons_append])

/-- The steps taken are those behind the parts of the run. -/
theorem along_iff_forall_append {P : State → Event → Prop} {state : State} {events : List Event} :
    Along step P state events ↔
      ∀ front event back, events = front ++ event :: back → P (run step state front) event := by
  constructor
  · rintro h front event back rfl
    exact ((along_append _ _ _ _ _).1 h).2.1
  · intro h
    induction events generalizing state with
    | nil => trivial
    | cons event rest ih =>
      refine ⟨h [] event rest rfl, ih fun front event' back hsplit ↦ ?_⟩
      exact h (event :: front) event' back (by rw [hsplit, List.cons_append])

/-- A condition on all visited states is one on both ends of every step. -/
theorem Always.along {Q : State → Prop} {state : State} {events : List Event}
    (h : Always step Q state events) :
    Along step (fun before event ↦ Q before ∧ Q (step before event)) state events := by
  induction events generalizing state with
  | nil => trivial
  | cons event rest ih => exact ⟨⟨h.1, h.2.head⟩, ih h.2⟩

theorem Along.mono {P P' : State → Event → Prop}
    (himp : ∀ state event, P state event → P' state event)
    {state : State} {events : List Event} (h : Along step P state events) :
    Along step P' state events := by
  induction events generalizing state with
  | nil => trivial
  | cons event rest ih => exact ⟨himp _ _ h.1, ih h.2⟩

theorem Along.and {P P' : State → Event → Prop} {state : State} {events : List Event}
    (h : Along step P state events) (h' : Along step P' state events) :
    Along step (fun before event ↦ P before event ∧ P' before event) state events := by
  induction events generalizing state with
  | nil => trivial
  | cons event rest ih => exact ⟨⟨h.1, h'.1⟩, ih h.2 h'.2⟩

/-- A condition on events alone holds along a run when it holds of each listed event. -/
theorem along_of_forall {E : Event → Prop} {state : State} {events : List Event}
    (h : ∀ event ∈ events, E event) : Along step (fun _ event ↦ E event) state events := by
  induction events generalizing state with
  | nil => trivial
  | cons event rest ih =>
    rw [List.forall_mem_cons] at h
    exact ⟨h.1, ih h.2⟩

/-- The invariant rule: what every step meeting `P` preserves holds after the run. -/
theorem invariant_run {I : State → Prop} {P : State → Event → Prop}
    (hstep : ∀ state event, I state → P state event → I (step state event))
    {state : State} {events : List Event} (hinit : I state) (h : Along step P state events) :
    I (run step state events) := by
  induction events generalizing state with
  | nil => exact hinit
  | cons event rest ih => exact ih (hstep _ _ hinit h.1) h.2

/-- An invariant may be added to the condition of every step it holds along. -/
theorem Along.with_invariant {I : State → Prop} {P : State → Event → Prop}
    (hstep : ∀ state event, I state → P state event → I (step state event))
    {state : State} {events : List Event} (hinit : I state) (h : Along step P state events) :
    Along step (fun before event ↦ I before ∧ P before event) state events := by
  induction events generalizing state with
  | nil => trivial
  | cons event rest ih => exact ⟨⟨hinit, h.1⟩, ih (hstep _ _ hinit h.1) h.2⟩

/-- The simulation rule. `inputs` says what one concrete step feeds to the abstract machine; the
rule carries the relation and the equality of observations from one step to the whole run. -/
theorem simulation_run {absStep : Abstract → Input → Abstract}
    {absObserve : Abstract → Input → List Obs} {observe : State → Event → List Obs}
    {inputs : State → Event → List Input} {R : State → Abstract → Prop}
    {P : State → Event → Prop}
    (hstep : ∀ state abstract event, R state abstract → P state event →
      R (step state event) (run absStep abstract (inputs state event)) ∧
        observe state event = trace absStep absObserve abstract (inputs state event))
    {state : State} {abstract : Abstract} {events : List Event}
    (hinit : R state abstract) (h : Along step P state events) :
    R (run step state events) (run absStep abstract (trace step inputs state events)) ∧
      trace step observe state events =
        trace absStep absObserve abstract (trace step inputs state events) := by
  induction events generalizing state abstract with
  | nil => exact ⟨hinit, rfl⟩
  | cons event rest ih =>
    obtain ⟨hrel, hobs⟩ := hstep state abstract event hinit h.1
    obtain ⟨hrun, htrace⟩ := ih hrel h.2
    simp only [run, trace, run_append, trace_append]
    exact ⟨hrun, by rw [hobs, htrace]⟩

/-- The explanation rule. What a run observes are the steps of an abstract machine, each of them one
that `A` allows where the abstract machine then is. -/
theorem along_trace {absStep : Abstract → Obs → Abstract} {A : Abstract → Obs → Prop}
    {observe : State → Event → List Obs} {R : State → Abstract → Prop} {P : State → Event → Prop}
    (hstep : ∀ state abstract event, R state abstract → P state event →
      Along absStep A abstract (observe state event) ∧
        R (step state event) (run absStep abstract (observe state event)))
    {state : State} {abstract : Abstract} {events : List Event}
    (hinit : R state abstract) (h : Along step P state events) :
    Along absStep A abstract (trace step observe state events) ∧
      R (run step state events) (run absStep abstract (trace step observe state events)) := by
  induction events generalizing state abstract with
  | nil => exact ⟨trivial, hinit⟩
  | cons event rest ih =>
    obtain ⟨hallowed, hrel⟩ := hstep state abstract event hinit h.1
    obtain ⟨hrest, hend⟩ := ih hrel h.2
    rw [trace, along_append, run_append]
    exact ⟨⟨hallowed, hrest⟩, hend⟩

/-- The lockstep rule: two runs of the same length whose events are related one by one. The relation
on states is kept by every step that meets `P`, and such steps observe the same. -/
theorem lockstep_run {State' Event' : Type*} {step' : State' → Event' → State'}
    {observe : State → Event → List Obs} {observe' : State' → Event' → List Obs}
    {R : State → State' → Prop} {S : Event → Event' → Prop} {P : State → Event → Prop}
    (hstep : ∀ state state' event event', R state state' → S event event' → P state event →
      R (step state event) (step' state' event') ∧ observe state event = observe' state' event')
    {state : State} {state' : State'} {events : List Event} {events' : List Event'}
    (hinit : R state state') (hevents : List.Forall₂ S events events')
    (h : Along step P state events) :
    R (run step state events) (run step' state' events') ∧
      trace step observe state events = trace step' observe' state' events' := by
  induction hevents generalizing state state' with
  | nil => exact ⟨hinit, rfl⟩
  | cons hevent hrest ih =>
    obtain ⟨hrel, hobs⟩ := hstep _ _ _ _ hinit hevent h.1
    obtain ⟨hrun, htrace⟩ := ih hrel h.2
    refine ⟨hrun, ?_⟩
    rw [trace, trace, hobs, htrace]

/-- Runs in lockstep whose relation is kept by the steps that meet `C`, and that show the same value
at exactly these steps: they show the same throughout if and only if every step meets `C`. -/
theorem lockstep_iff_along {State' Event' Value : Type*} {step' : State' → Event' → State'}
    {shown : State → Event → Value} {shown' : State' → Event' → Value}
    {R : State → State' → Prop} {S : Event → Event' → Prop} {P C : State → Event → Prop}
    (hshown : ∀ state state' event event', R state state' → S event event' → P state event →
      (shown state event = shown' state' event' ↔ C state event))
    (hstep : ∀ state state' event event', R state state' → S event event' → P state event →
      C state event → R (step state event) (step' state' event'))
    {state : State} {state' : State'} {events : List Event} {events' : List Event'}
    (hinit : R state state') (hevents : List.Forall₂ S events events')
    (h : Along step P state events) :
    trace step (fun before event ↦ [shown before event]) state events =
        trace step' (fun before event ↦ [shown' before event]) state' events' ↔
      Along step C state events := by
  induction hevents generalizing state state' with
  | nil => exact ⟨fun _ ↦ trivial, fun _ ↦ rfl⟩
  | cons hevent hrest ih =>
    have hfirst := hshown _ _ _ _ hinit hevent h.1
    have hnext := fun hC ↦ ih (hstep _ _ _ _ hinit hevent h.1 hC) h.2
    rw [trace, trace, List.singleton_append, List.singleton_append, List.cons.injEq, hfirst]
    constructor
    · rintro ⟨hC, hequal⟩
      exact ⟨hC, (hnext hC).1 hequal⟩
    · rintro ⟨hC, hall⟩
      exact ⟨hC, (hnext hC).2 hall⟩

/-- A machine with a part added that does not act back: what is observed of the old part. -/
theorem trace_project {Added : Type*} {added : Added → Event → Added} (part : Added → State)
    (hpart : ∀ state event, part (added state event) = step (part state) event)
    (observe : State → Event → List Obs) (state : Added) (events : List Event) :
    trace added (fun before event ↦ observe (part before) event) state events =
      trace step observe (part state) events := by
  induction events generalizing state with
  | nil => rfl
  | cons event rest ih => rw [trace, trace, ih, hpart]

/-- A machine with a part added that does not act back: what holds of the old part. -/
theorem along_project {Added : Type*} {added : Added → Event → Added} (part : Added → State)
    (hpart : ∀ state event, part (added state event) = step (part state) event)
    (P : State → Event → Prop) (state : Added) (events : List Event) :
    Along added (fun before event ↦ P (part before) event) state events ↔
      Along step P (part state) events := by
  induction events generalizing state with
  | nil => exact Iff.rfl
  | cons event rest ih => rw [Along, Along, ih, hpart]

section Drive

variable {absStep : Abstract → Input → Abstract} {part : State → Abstract}
  {input : State → Event → Input}
  (hpart : ∀ state event, part (step state event) = absStep (part state) (input state event))
include hpart

/-- A part that is fed by the rest of the machine: what is observed of it. -/
theorem trace_drive (observe : Abstract → Input → List Obs) (state : State) (events : List Event) :
    trace step (fun before event ↦ observe (part before) (input before event)) state events =
      trace absStep observe (part state)
        (trace step (fun before event ↦ [input before event]) state events) := by
  induction events generalizing state with
  | nil => rfl
  | cons event rest ih => rw [trace, trace, List.singleton_append, trace, ih, hpart]

/-- A part that is fed by the rest of the machine: what holds of it. -/
theorem along_drive (P : Abstract → Input → Prop) (state : State) (events : List Event) :
    Along step (fun before event ↦ P (part before) (input before event)) state events ↔
      Along absStep P (part state)
        (trace step (fun before event ↦ [input before event]) state events) := by
  induction events generalizing state with
  | nil => exact Iff.rfl
  | cons event rest ih => rw [trace, List.singleton_append, Along, Along, ih, hpart]

/-- A part that is fed by the rest of the machine: where it ends. -/
theorem run_drive (state : State) (events : List Event) :
    part (run step state events) =
      run absStep (part state)
        (trace step (fun before event ↦ [input before event]) state events) := by
  induction events generalizing state with
  | nil => rfl
  | cons event rest ih => rw [trace, List.singleton_append, run, run, ih, hpart]

end Drive

/-- A component that every step updates by the observations it makes is, after the run, the fold
of the trace. -/
theorem run_eq_foldl_trace {Component : Type*} (C : State → Component)
    (update : Component → Obs → Component) (observe : State → Event → List Obs)
    {P : State → Event → Prop}
    (hstep : ∀ state event, P state event →
      C (step state event) = (observe state event).foldl update (C state))
    {state : State} {events : List Event} (h : Along step P state events) :
    C (run step state events) =
      (trace step observe state events).foldl update (C state) := by
  induction events generalizing state with
  | nil => rfl
  | cons event rest ih => rw [run, trace, List.foldl_append, ih h.2, hstep _ _ h.1]

/-- What every step preserves holds in every state of the run. -/
theorem always_of_invariant {I : State → Prop} {P : State → Event → Prop}
    (hstep : ∀ state event, I state → P state event → I (step state event))
    {state : State} {events : List Event} (hinit : I state) (h : Along step P state events) :
    Always step I state events := by
  induction events generalizing state with
  | nil => exact hinit
  | cons event rest ih => exact ⟨hinit, ih (hstep _ _ hinit h.1) h.2⟩

/-- A condition that breaks at exactly the steps that miss `C` holds throughout exactly the runs
whose steps all meet `C`. -/
theorem always_iff_along {I Q : State → Prop} {C : State → Event → Prop}
    (hinv : ∀ state event, I state → I (step state event))
    (hstep : ∀ state event, I state → Q state → (Q (step state event) ↔ C state event))
    {state : State} {events : List Event} (hinit : I state) (h : Q state) :
    Always step Q state events ↔ Along step C state events := by
  induction events generalizing state with
  | nil => exact ⟨fun _ ↦ trivial, fun _ ↦ h⟩
  | cons event rest ih =>
    have hiff := hstep state event hinit h
    constructor
    · intro hall
      have hnext := hall.2.head
      exact ⟨hiff.1 hnext, (ih (hinv _ _ hinit) hnext).1 hall.2⟩
    · intro hall
      exact ⟨h, (ih (hinv _ _ hinit) (hiff.2 hall.1)).2 hall.2⟩

/-- Observations that agree at every step of the run have the same trace. -/
theorem trace_congr {observe observe' : State → Event → List Obs} {state : State}
    {events : List Event}
    (h : Along step (fun before event ↦ observe before event = observe' before event) state
      events) :
    trace step observe state events = trace step observe' state events := by
  induction events generalizing state with
  | nil => rfl
  | cons event rest ih => rw [trace, trace, h.1, ih h.2]

/-- What is observed later than it happens: each step adds what happens to what is kept, and
observes the first part of it. -/
theorem trace_delay {happens observe : State → Event → List Obs} {kept : State → List Obs}
    {P : State → Event → Prop}
    (hstep : ∀ state event, P state event →
      kept state ++ happens state event = observe state event ++ kept (step state event))
    {state : State} {events : List Event} (h : Along step P state events) :
    kept state ++ trace step happens state events =
      trace step observe state events ++ kept (run step state events) := by
  induction events generalizing state with
  | nil => rw [trace, trace, List.append_nil, run, List.nil_append]
  | cons event rest ih =>
    rw [trace, trace, run, ← List.append_assoc, hstep _ _ h.1, List.append_assoc, ih h.2,
      ← List.append_assoc]

/-- An observation no step of the run makes leaves an empty trace. -/
theorem trace_eq_nil {observe : State → Event → List Obs} {P : State → Event → Prop}
    (hstep : ∀ state event, P state event → observe state event = [])
    {state : State} {events : List Event} (h : Along step P state events) :
    trace step observe state events = [] := by
  induction events generalizing state with
  | nil => rfl
  | cons event rest ih => rw [trace, hstep _ _ h.1, ih h.2, List.nil_append]

/-- A run that observes something has a first step that does. -/
theorem exists_first_of_trace_eq_cons {observe : State → Event → List Obs} {state : State}
    {events : List Event} {x : Obs} {xs : List Obs}
    (h : trace step observe state events = x :: xs) :
    ∃ front event back ys, events = front ++ event :: back ∧
      trace step observe state front = [] ∧ observe (run step state front) event = x :: ys ∧
      xs = ys ++ trace step observe (run step state (front ++ [event])) back := by
  induction events generalizing state with
  | nil => simp [trace] at h
  | cons event rest ih =>
    rw [trace] at h
    cases hfirst : observe state event with
    | nil =>
      rw [hfirst, List.nil_append] at h
      obtain ⟨front, event', back, ys, rfl, hfront, hevent, hxs⟩ := ih h
      refine ⟨event :: front, event', back, ys, rfl, ?_, hevent, hxs⟩
      rw [trace, hfirst, hfront, List.nil_append]
    | cons y ys =>
      rw [hfirst, List.cons_append, List.cons.injEq] at h
      obtain ⟨rfl, hxs⟩ := h
      exact ⟨[], event, rest, ys, rfl, rfl, hfirst, hxs.symm⟩

/-! ## Ranks -/

/-- The rank rule: a rank that no step raises and each counted step lowers, as long as it is not
zero, is zero somewhere in every run that counts as many steps. -/
theorem reaches_of_rank {I : State → Prop} {rank : State → ℕ} {counted : State → Event → List Obs}
    (hinv : ∀ state event, I state → I (step state event))
    (hrank : ∀ state event, I state → rank state ≠ 0 →
      rank (step state event) + (counted state event).length ≤ rank state)
    {state : State} {events : List Event} (hinit : I state)
    (hlong : rank state ≤ (trace step counted state events).length) :
    ∃ front back, events = front ++ back ∧ rank (run step state front) = 0 := by
  induction events generalizing state with
  | nil => exact ⟨[], [], rfl, Nat.le_zero.1 hlong⟩
  | cons event rest ih =>
    by_cases hzero : rank state = 0
    · exact ⟨[], event :: rest, rfl, hzero⟩
    · have hdown := hrank state event hinit hzero
      rw [trace, List.length_append] at hlong
      obtain ⟨front, back, hsplit, hreached⟩ := ih (hinv _ event hinit) (by omega)
      exact ⟨event :: front, back, by rw [hsplit, List.cons_append], hreached⟩

/-- The descent rule: a rank that every step lowers, down to zero where it stays. -/
theorem rank_run {I : State → Prop} {P : State → Event → Prop} (rank : State → ℕ)
    (hstep : ∀ state event, I state → P state event →
      I (step state event) ∧ rank (step state event) ≤ rank state - 1)
    {state : State} {events : List Event} (hinit : I state) (h : Along step P state events) :
    rank (run step state events) ≤ rank state - events.length := by
  induction events generalizing state with
  | nil => exact Nat.le_refl _
  | cons event rest ih =>
    obtain ⟨hnext, hdown⟩ := hstep state event hinit h.1
    have hrest := ih hnext h.2
    rw [run, List.length_cons]
    omega

/-- The budget rule: a run observes no more than a budget of which every step takes what it
observes. -/
theorem trace_length_le {B : State → ℕ → Prop} {observe : State → Event → List Obs}
    {P : State → Event → Prop}
    (hstep : ∀ state n event, B state n → P state event →
      ∃ m, B (step state event) m ∧ m + (observe state event).length ≤ n)
    {state : State} {n : ℕ} {events : List Event} (h : B state n)
    (halong : Along step P state events) :
    ∃ m, B (run step state events) m ∧ m + (trace step observe state events).length ≤ n := by
  induction events generalizing state n with
  | nil => exact ⟨n, h, Nat.le_refl _⟩
  | cons event rest ih =>
    obtain ⟨m, hm, hle⟩ := hstep state n event h halong.1
    obtain ⟨k, hk, hrest⟩ := ih hm halong.2
    rw [trace, List.length_append]
    exact ⟨k, hk, by omega⟩

/-- The progress rule: a measure that every step lowers until something happens does not let it
happen later than that. -/
theorem happens_of_measure {I : State → Prop} {P Q : State → Event → Prop} (measure : State → ℕ)
    (hstep : ∀ state event, I state → P state event →
      Q state event ∨ I (step state event) ∧ measure (step state event) < measure state)
    {state : State} {events : List Event} (hinit : I state) (h : Along step P state events)
    (hlong : measure state < events.length) :
    ∃ front event back, events = front ++ event :: back ∧ Q (run step state front) event := by
  induction events generalizing state with
  | nil => exact absurd hlong (Nat.not_lt_zero _)
  | cons event rest ih =>
    rcases hstep state event hinit h.1 with hnow | ⟨hnext, hless⟩
    · exact ⟨[], event, rest, rfl, hnow⟩
    · rw [List.length_cons] at hlong
      obtain ⟨front, event', back, hsplit, hlater⟩ := ih hnext h.2 (by omega)
      exact ⟨event :: front, event', back, by rw [hsplit, List.cons_append], hlater⟩

/-! ## Events without influence -/

/-- A run next to the run of those events that are kept: `R` is a relation that no dropped event
leaves, and that a kept event leaves only if it misses `P`. -/
theorem filter_run {R : State → State → Prop} {P : State → Event → Prop} {K : Event → Bool}
    (hdrop : ∀ state state' event, K event = false → R state state' →
      R (step state event) state')
    (hiff : ∀ state state' event, K event = true → R state state' →
      (P state event ↔ P state' event))
    (hkeep : ∀ state state' event, K event = true → R state state' → P state event →
      R (step state event) (step state' event))
    {state state' : State} {events : List Event} (h : R state state') :
    (Along step (fun before event ↦ K event = true → P before event) state events ↔
        Along step P state' (events.filter K)) ∧
      (Along step P state' (events.filter K) →
        R (run step state events) (run step state' (events.filter K))) := by
  induction events generalizing state state' with
  | nil => exact ⟨Iff.rfl, fun _ ↦ h⟩
  | cons event rest ih =>
    cases hevent : K event with
    | false =>
      obtain ⟨halong, hrun⟩ := ih (hdrop _ _ _ hevent h)
      rw [List.filter_cons_of_neg (by simp [hevent])]
      refine ⟨?_, hrun⟩
      rw [← halong]
      exact and_iff_right fun hkept ↦ absurd (hevent.symm.trans hkept) (by decide)
    | true =>
      have hfirst := hiff _ _ _ hevent h
      rw [List.filter_cons_of_pos hevent]
      constructor
      · constructor
        · rintro ⟨hP, hrest⟩
          exact ⟨hfirst.1 (hP hevent), (ih (hkeep _ _ _ hevent h (hP hevent))).1.1 hrest⟩
        · rintro ⟨hP, hrest⟩
          exact ⟨fun _ ↦ hfirst.2 hP, (ih (hkeep _ _ _ hevent h (hfirst.2 hP))).1.2 hrest⟩
      · rintro ⟨hP, hrest⟩
        exact (ih (hkeep _ _ _ hevent h (hfirst.2 hP))).2 hrest

/-- The two-run rule: runs that differ in dropped events only end in states related to one and the
same state. -/
theorem two_runs {R : State → State → Prop} {P : State → Event → Prop} {K : Event → Bool}
    (hdrop : ∀ state state' event, K event = false → R state state' →
      R (step state event) state')
    (hiff : ∀ state state' event, K event = true → R state state' →
      (P state event ↔ P state' event))
    (hkeep : ∀ state state' event, K event = true → R state state' → P state event →
      R (step state event) (step state' event))
    {state : State} {events events' : List Event} (h : R state state)
    (hsame : events.filter K = events'.filter K)
    (halong : Along step (fun before event ↦ K event = true → P before event) state events) :
    ∃ common, R (run step state events) common ∧ R (run step state events') common := by
  obtain ⟨hfirst, hrun⟩ := filter_run hdrop hiff hkeep h
  obtain ⟨-, hrun'⟩ := filter_run hdrop hiff hkeep h
  have hkept := hfirst.1 halong
  refine ⟨_, hrun hkept, ?_⟩
  rw [hsame] at hkept ⊢
  exact hrun' hkept

end Rules

end Sequential
