import CaravelSoc.Management.FlashRead

/-!
# The flash as a memory of the bus

Seen from the bus, controller and flash are a memory that answers one read after
another, each with the word at its address and within a bounded time.
-/

open Sequential

namespace CaravelSoc.Management.FlashBus

open SpiFlash (Standby lowBytes)

/-- An address with its word. -/
def answer (memory : BitVec 24 → BitVec 8) (adr : BitVec 30) : BitVec 30 × BitVec 32 :=
  (adr, wordAt memory adr)

/-- The clocks that a read takes at most. -/
def readClocks (config : LiteSpiConfig) : ℕ := 64 * config.bitClocks + 21

/-- No read waits, or the one that waits will be acknowledged in time. -/
def Serves (config : LiteSpiConfig) (memory : BitVec 24 → BitVec 8) (s : FlashBus) : Prop :=
  match s.pending with
  | none => Resting memory s.core s.chip
  | some adr => InRegion adr ∧
      ∃ n, n + 1 < readClocks config ∧ Awaits config memory adr n s.core s.chip

/-- The other slaves have the other addresses. -/
def Event.InRegion (e : Event) : Prop := ∀ adr ∈ e.request, Management.InRegion adr

variable {config : LiteSpiConfig} {memory : BitVec 24 → BitVec 8} {s : FlashBus} {e : Event}

theorem reads_of_active {adr : BitVec 30} (h : s.active e = some adr) :
    Reads adr s.chip (s.inputs e) := by
  constructor <;> simp [inputs, h, LiteSpi.busRead]

theorem free_of_inactive (h : s.active e = none) : Free (s.inputs e) := by
  constructor <;> simp [inputs, h, LiteSpi.busRead]

/-- What a clock does to the reads. -/
structure Answers (config : LiteSpiConfig) (memory : BitVec 24 → BitVec 8) (s : FlashBus)
    (e : Event) : Prop where
  serves : Serves config memory (s.step config memory e)
  reads : (s.pending.toList ++ s.accepted e).map (answer memory) =
    s.acked e ++ (s.step config memory e).pending.toList.map (answer memory)

/-- A read waits. -/
theorem answers_of_pending {adr : BitVec 30} {n : ℕ} (hdummy : config.spiDummyBits = 0#8)
    (hpending : s.pending = some adr) (hregion : Management.InRegion adr)
    (hn : n + 1 < readClocks config) (h : Awaits config memory adr n s.core s.chip) :
    Answers config memory s e ∧
      (n = 0 → s.acked e = [answer memory adr]) ∧
      (∀ m, n = m + 1 → s.acked e = [] ∧ (s.step config memory e).pending = some adr ∧
        Awaits config memory adr m (s.step config memory e).core
          (s.step config memory e).chip) := by
  have hactive : s.active e = some adr := by rw [active, hpending]; rfl
  have hreads := reads_of_active hactive
  have haccepted : s.accepted e = [] := by
    rw [accepted, hpending, if_neg (by simp)]
  cases n with
  | zero =>
    obtain ⟨hack, hdata, hrest⟩ := h.ack e.floating hregion hreads
    have hacked : s.acked e = [answer memory adr] := by
      rw [acked, hack, if_pos rfl, hdata, hreads.busAdr]
      rfl
    have hnone : (s.step config memory e).pending = none := by simp [step, hack]
    refine ⟨⟨?_, ?_⟩, fun _ ↦ hacked, fun m hm ↦ by omega⟩
    · rw [Serves, hnone]
      exact hrest
    · rw [hacked, hnone, hpending, haccepted]
      rfl
  | succ m =>
    obtain ⟨hack, hnext⟩ := h.step e.floating hdummy hregion hreads
    have hacked : s.acked e = [] := by
      rw [acked, hack, if_neg (by decide)]
    have hsome : (s.step config memory e).pending = some adr := by simp [step, hack, hactive]
    refine ⟨⟨?_, ?_⟩, fun hm ↦ by omega, ?_⟩
    · rw [Serves, hsome]
      exact ⟨hregion, m, by omega, hnext⟩
    · rw [hacked, hsome, hpending, haccepted]
      rfl
    · intro m' hm
      obtain rfl : m = m' := by omega
      exact ⟨hacked, hsome, hnext⟩

/-- No read waits. -/
theorem answers_of_resting (config : LiteSpiConfig) (hpending : s.pending = none)
    (hregion : e.InRegion) (h : Resting memory s.core s.chip) :
    Answers config memory s e ∧ s.acked e = [] ∧ (s.step config memory e).pending = e.request := by
  have hactive : s.active e = e.request := by rw [active, hpending]; rfl
  have haccepted : s.accepted e = e.request.toList := by rw [accepted, if_pos hpending]
  cases hrequest : e.request with
  | none =>
    obtain ⟨hack, hnext⟩ := h.rest config e.floating
      (free_of_inactive (hactive.trans hrequest))
    have hacked : s.acked e = [] := by rw [acked, hack, if_neg (by decide)]
    have hnone : (s.step config memory e).pending = none := by
      simp [step, hack, hactive, hrequest]
    refine ⟨⟨?_, ?_⟩, hacked, hnone⟩
    · rw [Serves, hnone]
      exact hnext
    · rw [hacked, hnone, hpending, haccepted, hrequest]
      rfl
  | some adr =>
    obtain ⟨hack, n, hn, hnext⟩ := h.accept config e.floating
      (reads_of_active (hactive.trans hrequest))
    have hacked : s.acked e = [] := by rw [acked, hack, if_neg (by decide)]
    have hsome : (s.step config memory e).pending = some adr := by
      simp [step, hack, hactive, hrequest]
    refine ⟨⟨?_, ?_⟩, hacked, hsome⟩
    · rw [Serves, hsome]
      exact ⟨hregion adr (by simp [hrequest]), n, by rw [readClocks]; omega, hnext⟩
    · rw [hacked, hsome, hpending, haccepted, hrequest]
      rfl

theorem Serves.answers (h : Serves config memory s) (hdummy : config.spiDummyBits = 0#8)
    (hregion : e.InRegion) : Answers config memory s e := by
  rw [Serves] at h
  split at h
  · next hpending => exact (answers_of_resting config hpending hregion h).1
  · next adr hpending =>
    obtain ⟨hadr, n, hn, hawaits⟩ := h
    exact (answers_of_pending hdummy hpending hadr hn hawaits).1

theorem Serves.run (h : Serves config memory s) (hdummy : config.spiDummyBits = 0#8)
    (events : List Event) (hregion : ∀ e ∈ events, e.InRegion) :
    Serves config memory (run (step config memory) s events) ∧
      (s.pending.toList ++ trace (step config memory) accepted s events).map (answer memory) =
        trace (step config memory) acked s events ++
          (run (step config memory) s events).pending.toList.map (answer memory) := by
  induction events generalizing s with
  | nil => exact ⟨h, by rw [trace, trace, List.append_nil]; rfl⟩
  | cons e rest ih =>
    have hfirst := h.answers hdummy (hregion e List.mem_cons_self)
    obtain ⟨hend, hrest⟩ := ih hfirst.serves fun e' he' ↦ hregion e' (List.mem_cons_of_mem _ he')
    refine ⟨hend, ?_⟩
    have hreads := hfirst.reads
    rw [trace, trace, ← List.append_assoc, List.map_append, hreads, List.append_assoc,
      List.append_assoc, ← List.map_append, hrest]
    rfl

/-- The first acknowledge behind a read is its own. -/
theorem Awaits.first {adr : BitVec 30} {n : ℕ} (hdummy : config.spiDummyBits = 0#8)
    (hpending : s.pending = some adr) (hregion : Management.InRegion adr)
    (hn : n + 1 < readClocks config) (h : Awaits config memory adr n s.core s.chip)
    (events : List Event) (hlong : n < events.length) :
    (trace (step config memory) acked s events).head? = some (answer memory adr) := by
  induction events generalizing s n with
  | nil => simp at hlong
  | cons e rest ih =>
    obtain ⟨-, hzero, hsucc⟩ := answers_of_pending (e := e) hdummy hpending hregion hn h
    rw [trace]
    cases n with
    | zero =>
      rw [hzero rfl]
      rfl
    | succ m =>
      obtain ⟨hacked, hsome, hnext⟩ := hsucc m rfl
      rw [hacked, List.nil_append]
      exact ih hsome (by omega) hnext (by simpa using hlong)

/-! ## From the reset on -/

/-- The controller after its reset, a flash that is not selected, and no read. -/
structure IsReset (s : FlashBus) : Prop where
  core : s.core = .reset
  standby : s.chip.Standby
  low : s.chip.clk = false
  pending : s.pending = none

theorem IsReset.serves (h : s.IsReset) (config : LiteSpiConfig) (memory : BitVec 24 → BitVec 8) :
    Serves config memory s := by
  rw [Serves, h.pending]
  change Resting memory s.core s.chip
  rw [h.core]
  exact .reset h.standby h.low

/-- **The flash is a memory.** Every read is answered once, in the order of the reads, with the word
at its address. -/
theorem reset_reads (hdummy : config.spiDummyBits = 0#8) (h : s.IsReset) (events : List Event)
    (hregion : ∀ e ∈ events, e.InRegion) :
    (trace (step config memory) accepted s events).map (answer memory) =
      trace (step config memory) acked s events ++
        (run (step config memory) s events).pending.toList.map (answer memory) := by
  have hrun := ((h.serves config memory).run hdummy events hregion).2
  rwa [h.pending] at hrun

/-- After the reset, with the flash deselected. -/
def atReset : FlashBus where
  core := .reset
  chip := .deselected
  pending := none

theorem atReset_isReset : atReset.IsReset := ⟨rfl, SpiFlash.deselected_standby, rfl, rfl⟩

/-- A read of the first word, and a clock without a read. -/
def firstWord : Event := ⟨some 0x4000000#30, false⟩
def noRequest : Event := ⟨none, false⟩

theorem firstWord_inRegion : firstWord.InRegion := by
  rintro adr hadr
  cases hadr
  decide

theorem noRequest_inRegion : noRequest.InRegion := fun _ hadr ↦ by cases hadr

/-- The read, and the clocks up to its answer. -/
def firstRead : List Event := firstWord :: List.replicate 276 noRequest

theorem firstRead_inRegion : ∀ e ∈ firstRead, e.InRegion := by
  intro e he
  rcases List.mem_cons.1 he with rfl | hrest
  · exact firstWord_inRegion
  · rw [List.eq_of_mem_replicate hrest]
    exact noRequest_inRegion

/-- The read is taken and answered, and none is left. -/
theorem firstWord_reads :
    trace (step .reset lowBytes) acked atReset firstRead = [answer lowBytes 0x4000000#30] ∧
      (trace (step .reset lowBytes) accepted atReset firstRead).map (answer lowBytes) =
        trace (step .reset lowBytes) acked atReset firstRead ++
          (run (step .reset lowBytes) atReset firstRead).pending.toList.map (answer lowBytes) :=
  ⟨by decide +kernel, reset_reads rfl atReset_isReset firstRead firstRead_inRegion⟩

/-- **In time.** After any run, a read on the bus is the next to be answered, and that within
`readClocks`. -/
theorem reset_answers (hdummy : config.spiDummyBits = 0#8) (h : s.IsReset) (front : List Event)
    (e : Event) (back : List Event) (hregion : ∀ e' ∈ front ++ e :: back, e'.InRegion)
    (adr : BitVec 30) (hactive : (run (step config memory) s front).active e = some adr)
    (hlong : readClocks config ≤ (e :: back).length) :
    (trace (step config memory) acked (run (step config memory) s front) (e :: back)).head? =
      some (answer memory adr) := by
  obtain ⟨hserves, -⟩ := (h.serves config memory).run hdummy front
    fun e' he' ↦ hregion e' (List.mem_append_left _ he')
  have hfirst : e.InRegion := hregion e (by simp)
  generalize run (step config memory) s front = s' at hserves hactive
  rw [Serves] at hserves
  split at hserves
  · next hpending =>
    obtain ⟨hanswers, hacked, hnext⟩ := answers_of_resting config hpending hfirst hserves
    rw [active, hpending] at hactive
    have hsome : (s'.step config memory e).pending = some adr := hnext.trans hactive
    have hawaits := hanswers.serves
    rw [Serves, hsome] at hawaits
    obtain ⟨hadr, n, hn, hwait⟩ := hawaits
    rw [trace, hacked, List.nil_append]
    rw [List.length_cons] at hlong
    exact Awaits.first hdummy hsome hadr hn hwait back (by omega)
  · next adr' hpending =>
    obtain ⟨hadr, n, hn, hawaits⟩ := hserves
    rw [active, hpending] at hactive
    obtain rfl : adr' = adr := Option.some.inj hactive
    exact Awaits.first hdummy hpending hadr hn hawaits (e :: back) (by omega)

theorem firstWord_answers :
    (trace (step .reset lowBytes) acked (run (step .reset lowBytes) atReset [])
      (firstWord :: List.replicate 276 noRequest)).head? = some (answer lowBytes 0x4000000#30) := by
  refine reset_answers rfl atReset_isReset [] firstWord _ firstRead_inRegion _ rfl ?_
  rw [List.length_cons, List.length_replicate]
  decide

end CaravelSoc.Management.FlashBus
