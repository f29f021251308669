import CaravelSoc.Sequential.Run

/-!
# Changes of an observed value

The list of changes that a value makes along a run. A register that is updated
at observations only changes there, so its changes can be read off the trace;
and a run updates a value to `v` in one step when the final value is `v` and at
most one change was made.
-/

namespace Sequential

variable {α Component Obs State Event : Type*} [DecidableEq α]

/-- The changes a value makes along the list of the values that follow it. -/
def changes (w : α) : List α → List (α × α)
  | [] => []
  | w' :: rest => (if w = w' then [] else [(w, w')]) ++ changes w' rest

/-- The components after each observation. -/
def afterEach (update : Component → Obs → Component) (c : Component) : List Obs → List Component
  | [] => []
  | x :: rest => update c x :: afterEach update (update c x) rest

/-- The value moves from `w` to `v` in one step, or not at all when they are equal. -/
def SingleChange (w v : α) (ws : List α) : Prop :=
  changes w ws = if w = v then [] else [(w, v)]

instance (w v : α) (ws : List α) : Decidable (SingleChange w v ws) :=
  inferInstanceAs (Decidable (_ = _))

theorem changes_eq_nil {w : α} {ws : List α} (h : changes w ws = []) : ws.getLastD w = w := by
  induction ws generalizing w with
  | nil => rfl
  | cons w' rest ih =>
    rw [changes, List.append_eq_nil_iff] at h
    obtain rfl : w = w' := by
      by_contra hne
      simp [hne] at h
    rw [List.getLastD_cons]
    exact ih h.2

/-- A value changed in one step exactly when it ends there having changed at most once. -/
theorem singleChange_iff (w v : α) (ws : List α) :
    SingleChange w v ws ↔ ws.getLastD w = v ∧ (changes w ws).length ≤ 1 := by
  unfold SingleChange
  induction ws generalizing w with
  | nil =>
    by_cases hwv : w = v
    · simp [changes, hwv]
    · simp [changes, hwv]
  | cons w' rest ih =>
    rw [List.getLastD_cons, changes]
    by_cases hw : w = w'
    · subst hw
      simpa using ih w
    · rw [if_neg hw, List.singleton_append, List.length_cons]
      constructor
      · intro h
        by_cases hwv : w = v
        · simp [hwv] at h
        · rw [if_neg hwv, List.cons.injEq, Prod.mk.injEq] at h
          obtain ⟨⟨-, rfl⟩, hnil⟩ := h
          exact ⟨changes_eq_nil hnil, by simp [hnil]⟩
      · rintro ⟨hlast, hlen⟩
        have hnil : changes w' rest = [] := List.length_eq_zero_iff.1 (by omega)
        obtain rfl : w' = v := (changes_eq_nil hnil).symm.trans hlast
        rw [hnil, if_neg hw]

/-- Observations that leave the component alone make no change. -/
theorem changes_filter (f : Component → α) {update : Component → Obs → Component}
    {p : Obs → Bool} {obs : List Obs} (hsilent : ∀ x ∈ obs, p x = false → ∀ c, update c x = c)
    (c : Component) :
    changes (f c) ((afterEach update c obs).map f) =
      changes (f c) ((afterEach update c (obs.filter p)).map f) := by
  induction obs generalizing c with
  | nil => rfl
  | cons x rest ih =>
    rw [List.forall_mem_cons] at hsilent
    have hrest := ih hsilent.2 (update c x)
    cases hp : p x
    · have hkeep := hsilent.1 hp c
      rw [hkeep] at hrest
      simpa [afterEach, changes, hp, hkeep] using hrest
    · simp [afterEach, changes, hp, hrest]

/-- The changes along a run whose steps make at most one observation each. -/
theorem changes_run (f : Component → α) {step : State → Event → State} (C : State → Component)
    (update : Component → Obs → Component) (observe : State → Event → List Obs)
    {P : State → Event → Prop}
    (hstep : ∀ state event, P state event →
      (observe state event = [] ∧ C (step state event) = C state) ∨
        ∃ x, observe state event = [x] ∧ C (step state event) = update (C state) x)
    {state : State} {events : List Event} (h : Along step P state events) :
    changes (f (C state))
        (trace step (fun before event ↦ [f (C (step before event))]) state events) =
      changes (f (C state))
        ((afterEach update (C state) (trace step observe state events)).map f) := by
  induction events generalizing state with
  | nil => rfl
  | cons event rest ih =>
    have hrest := ih h.2
    rw [trace, trace, List.singleton_append, changes, hrest]
    rcases hstep state event h.1 with ⟨hobs, hkeep⟩ | ⟨x, hobs, hupdate⟩
    · simp [hobs, hkeep]
    · simp [hobs, hupdate, afterEach, changes]

end Sequential
