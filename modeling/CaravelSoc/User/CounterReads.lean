import CaravelSoc.User.Counter

/-!
# Reads of the counter

A read changes no byte of the count, yet it is not without effect. While it is
presented it masks the write enables of the probes, and the clock after it was
taken acknowledges it and takes nothing else. A run is compared with the one in
which the reads are removed. With the enables suspended at the clocks of the
reads, and with nothing taken where a read is acknowledged, the two show the
same values. With the reads removed and nothing else, they do exactly as long as
no read hides a write of the probes that is seen.
-/

open Sequential

namespace CaravelSoc.User

namespace CounterPins

/-- No Wishbone access is presented. -/
def released (e : CounterPins) : CounterPins := { e with wbsStbI := false, wbsCycI := false }

/-- The pins of a run without its reads. -/
def withoutRead (e : CounterPins) : CounterPins := if e.isRead then e.released else e

/-- No access is presented and no write enable of the probes is active. -/
def suspended (e : CounterPins) : CounterPins :=
  { e.released with laOenb := setPart e.laOenb 32 (BitVec.allOnes 32) }

end CounterPins

namespace CounterProject

/-- What a step shows: the count, on both its ports. -/
structure Shown where
  count : BitVec 32
  laDataOut : BitVec 128
  ioOut : BitVec 38
  deriving DecidableEq, Repr

def shown (p : CounterProject) (e : CounterPins) : Shown where
  count := (p.step e).count
  laDataOut := (p.step e).laDataOut
  ioOut := (p.step e).ioOut

/-- At a clock that presents a read, either no write enable of the probes is active or they would
write the number that the count goes on to. -/
def HidesNothing (p : CounterProject) (e : CounterPins) : Prop :=
  p.clkRises e = true → e.rst = false → e.isRead = true →
    e.laEnables = 0#32 ∨ e.laEnables &&& e.laInput = p.count + 1#32

end CounterProject

/-- The project, and whether its last clock took a read. -/
structure Watched where
  project : CounterProject
  readTaken : Bool
  deriving DecidableEq, Repr

namespace Watched

def step (w : Watched) (e : CounterPins) : Watched where
  project := w.project.step e
  readTaken := if w.project.clkRises e then w.project.accepts e && e.isRead else w.readTaken

/-- A write is presented at the clock after the one that took a read. -/
def writesBehindRead (w : Watched) (e : CounterPins) : Bool :=
  w.project.clkRises e && (w.readTaken && e.isWrite)

/-- Reads are removed with the write enables of the probes, and so is a write behind a read. -/
def suspendReads (w : Watched) (e : CounterPins) : CounterPins :=
  if e.isRead || w.writesBehindRead e then e.suspended else e

end Watched

/-! ## Pins without an access -/

namespace CounterPins

variable {e : CounterPins}

theorem valid_of_isRead (h : e.isRead = true) : e.valid = true := (Bool.and_eq_true_iff.1 h).1

theorem wstrb_of_isRead (h : e.isRead = true) : e.wstrb = 0#4 := by
  simpa using (Bool.and_eq_true_iff.1 h).2

theorem isRead_or_isWrite (h : e.valid = true) : e.isRead = true ∨ e.isWrite = true := by
  unfold isRead isWrite
  rw [h]
  by_cases hnone : e.wstrb = 0#4 <;> simp [hnone]

theorem laEnables_suspended : e.suspended.laEnables = 0#32 := by
  unfold laEnables suspended
  rw [extractLsb'_setPart_self _ _ _ (by decide), BitVec.not_allOnes]

/-- Suspending the enables leaves the clock and the reset alone. -/
theorem clk_rst_suspended : e.suspended.clk = e.clk ∧ e.suspended.rst = e.rst := by
  have hkept : ∀ i, 64 ≤ i → i < 128 → e.suspended.laOenb.getLsbD i = e.laOenb.getLsbD i := by
    intro i hlo hi
    unfold suspended
    rw [getLsbD_setPart _ _ _ _ hi, if_neg (by omega)]
  unfold clk rst
  rw [hkept 64 (by decide) (by decide), hkept 65 (by decide) (by decide)]
  exact ⟨rfl, rfl⟩

end CounterPins

/-! ## One clock of the two runs -/

namespace CounterProject

variable {p p' : CounterProject} {e f : CounterPins}

/-- An access that writes nothing, or that is not taken, lets the count go on. -/
theorem count_step_of_access (hclk : p.clkRises e = true) (hrst : e.rst = false)
    (hvalid : e.valid = true) (h : e.wstrb = 0#4 ∨ p.wbsAckO = true) :
    (p.step e).count = p.count + 1#32 ∧ (p.step e).wbsAckO = p.accepts e := by
  unfold count wbsAckO
  cases haccepts : p.accepts e with
  | true =>
    have hready : p.wbsAckO = false := by
      simp only [accepts, hclk, hrst, hvalid, Bool.not_false, Bool.true_and] at haccepts
      simpa using haccepts
    have hstrobes : e.wstrb = 0#4 := h.resolve_right (by simp [hready])
    rw [step_of_accepts haccepts, hstrobes, Counter.writeBytes_of_no_strobe]
    exact ⟨rfl, rfl⟩
  | false =>
    rw [step_of_not_accepts hclk hrst haccepts, CounterPins.laWrite_of_valid hvalid]
    exact ⟨rfl, rfl⟩

/-- The count after a clock depends on the count before it, and on the acknowledge only where an
access is presented. -/
theorem step_congr (hclk : p.clkRises e = true) (hclk' : p'.clkRises e = true)
    (hcount : p.count = p'.count) (hready : e.valid = true → p.wbsAckO = p'.wbsAckO) :
    (p.step e).count = (p'.step e).count ∧ (p.step e).wbsAckO = (p'.step e).wbsAckO := by
  cases hrst : e.rst with
  | true =>
    unfold count wbsAckO
    rw [step_of_reset hclk hrst, step_of_reset hclk' hrst]
    exact ⟨rfl, rfl⟩
  | false =>
    have haccepts : p.accepts e = p'.accepts e := by
      unfold accepts
      rw [hclk, hclk']
      cases hvalid : e.valid with
      | true => rw [hready hvalid]
      | false => simp
    unfold count wbsAckO
    cases htaken : p.accepts e with
    | true =>
      rw [step_of_accepts htaken, step_of_accepts (haccepts.symm.trans htaken), hcount]
      exact ⟨rfl, rfl⟩
    | false =>
      rw [step_of_not_accepts hclk hrst htaken,
        step_of_not_accepts hclk' hrst (haccepts.symm.trans htaken), hcount]
      exact ⟨rfl, rfl⟩

theorem clkRises_congr (h : p.clk = p'.clk) (hclk : f.clk = e.clk) :
    p'.clkRises f = p.clkRises e := by
  rw [clkRises, clkRises, h, hclk]

theorem count_step_of_reset (hclk : p.clkRises e = true) (hrst : e.rst = true) :
    (p.step e).count = 0#32 ∧ (p.step e).wbsAckO = false := by
  unfold count wbsAckO
  rw [step_of_reset hclk hrst]
  exact ⟨rfl, rfl⟩

theorem shown_eq_iff : p.shown e = p'.shown f ↔ (p.step e).count = (p'.step f).count := by
  constructor
  · intro h
    exact congrArg Shown.count h
  · intro h
    unfold count at h
    simp only [shown, count, laDataOut, ioOut, h]

end CounterProject

namespace Watched

/-- The run with its reads and the run without them: the second acknowledges no read. -/
structure Alike (w : Watched) (p' : CounterProject) : Prop where
  clk : w.project.clk = p'.clk
  count : w.project.count = p'.count
  ready : p'.wbsAckO = (w.project.wbsAckO && !w.readTaken)
  taken : w.readTaken = true → w.project.wbsAckO = true

variable {w : Watched} {p p' : CounterProject} {e f : CounterPins} {events : List CounterPins}

theorem Alike.clkRises (h : Alike w p') (hclk : f.clk = e.clk) :
    p'.clkRises f = w.project.clkRises e := CounterProject.clkRises_congr h.clk hclk

/-- What is removed takes no byte of the count, so that the count goes on. -/
theorem Alike.goesOn (h : Alike w p') (hremoved : (e.isRead || w.writesBehindRead e) = true)
    (hclk : w.project.clkRises e = true) (hrst : e.rst = false) :
    (w.project.step e).count = w.project.count + 1#32 ∧
      (w.project.step e).wbsAckO = (w.project.accepts e && e.isRead) := by
  rcases Bool.or_eq_true_iff.1 hremoved with hread | hbehind
  · rw [hread, Bool.and_true]
    exact CounterProject.count_step_of_access hclk hrst (CounterPins.valid_of_isRead hread)
      (.inl (CounterPins.wstrb_of_isRead hread))
  · obtain ⟨-, htaken, hwrite⟩ : w.project.clkRises e = true ∧ w.readTaken = true ∧
        e.isWrite = true := by simpa [writesBehindRead] using hbehind
    have hvalid : e.valid = true := (Bool.and_eq_true_iff.1 hwrite).1
    have hready := h.taken htaken
    have hblocked : w.project.accepts e = false := by
      simp [CounterProject.accepts, hready]
    have hstep := CounterProject.count_step_of_access hclk hrst hvalid (.inr hready)
    rw [hblocked] at hstep ⊢
    exact hstep

/-- A removed access goes unseen if the probes write nothing that is seen in its place. -/
theorem Alike.count_removed_iff (h : Alike w p')
    (hremoved : (e.isRead || w.writesBehindRead e) = true) (hf : f.valid = false)
    (hclk : f.clk = e.clk) (hrst : f.rst = e.rst) :
    (w.project.step e).count = (p'.step f).count ↔
      (w.project.clkRises e = true → e.rst = false →
        f.laEnables = 0#32 ∨ f.laEnables &&& f.laInput = w.project.count + 1#32) := by
  have hrises := h.clkRises hclk
  cases hedge : w.project.clkRises e with
  | false =>
    rw [(CounterProject.count_step_of_no_clock hedge).1,
      (CounterProject.count_step_of_no_clock (hrises.trans hedge)).1]
    simp [h.count]
  | true =>
    cases hreset : e.rst with
    | true =>
      rw [(CounterProject.count_step_of_reset hedge hreset).1,
        (CounterProject.count_step_of_reset (hrises.trans hedge) (hrst.trans hreset)).1]
      simp
    | false =>
      rw [(h.goesOn hremoved hedge hreset).1,
        (CounterProject.count_step_of_no_access (hrises.trans hedge) (hrst.trans hreset) hf).1,
        ← h.count]
      by_cases hnone : f.laEnables = 0#32
      · simp [hnone]
      · simp [hnone, eq_comm]

theorem Alike.step_removed (h : Alike w p')
    (hremoved : (e.isRead || w.writesBehindRead e) = true) (hf : f.valid = false)
    (hclk : f.clk = e.clk) (hrst : f.rst = e.rst)
    (hcount : (w.project.step e).count = (p'.step f).count) : Alike (w.step e) (p'.step f) := by
  have hrises := h.clkRises hclk
  cases hedge : w.project.clkRises e with
  | false =>
    have hkept := CounterProject.count_step_of_no_clock hedge
    have hkept' := CounterProject.count_step_of_no_clock (hrises.trans hedge)
    refine ⟨hclk.symm, hcount, ?_, ?_⟩
    · simp only [step, hedge, hkept.2, hkept'.2, h.ready, Bool.false_eq_true, if_false]
    · simp only [step, hedge, hkept.2, Bool.false_eq_true, if_false]
      exact h.taken
  | true =>
    cases hreset : e.rst with
    | true =>
      have hnone : w.project.accepts e = false := by simp [CounterProject.accepts, hreset]
      have hack := CounterProject.count_step_of_reset (hrises.trans hedge) (hrst.trans hreset)
      refine ⟨hclk.symm, hcount, ?_, ?_⟩
      · rw [hack.2]
        simp [step, (CounterProject.count_step_of_reset hedge hreset).2]
      · simp [step, hedge, hnone]
    | false =>
      have hack := (h.goesOn hremoved hedge hreset).2
      have hack' := CounterProject.count_step_of_no_access (hrises.trans hedge)
        (hrst.trans hreset) hf
      refine ⟨hclk.symm, hcount, ?_, ?_⟩
      · rw [hack'.2]
        simp only [step, hedge, hack, if_true]
        cases w.project.accepts e && e.isRead <;> rfl
      · simp only [step, hedge, hack, if_true]
        exact id

/-- What is kept is kept in both runs. -/
theorem Alike.step_kept (h : Alike w p') (hkept : (e.isRead || w.writesBehindRead e) = false) :
    Alike (w.step e) (p'.step e) := by
  obtain ⟨hread, hbehind⟩ := Bool.or_eq_false_iff.1 hkept
  have hrises := h.clkRises (e := e) rfl
  cases hedge : w.project.clkRises e with
  | false =>
    have hsame := CounterProject.count_step_of_no_clock hedge
    have hsame' := CounterProject.count_step_of_no_clock (hrises.trans hedge)
    refine ⟨rfl, ?_, ?_, ?_⟩
    · exact hsame.1.trans (h.count.trans hsame'.1.symm)
    · simp only [step, hedge, hsame.2, hsame'.2, h.ready, Bool.false_eq_true, if_false]
    · simp only [step, hedge, hsame.2, Bool.false_eq_true, if_false]
      exact h.taken
  | true =>
    have hready : e.valid = true → w.project.wbsAckO = p'.wbsAckO := by
      intro hvalid
      have hwrite := (CounterPins.isRead_or_isWrite hvalid).resolve_left (by simp [hread])
      have hnone : w.readTaken = false := by simpa [writesBehindRead, hedge, hwrite] using hbehind
      rw [h.ready, hnone, Bool.not_false, Bool.and_true]
    obtain ⟨hcount, hack⟩ := CounterProject.step_congr hedge (hrises.trans hedge) h.count hready
    refine ⟨rfl, hcount, ?_, ?_⟩
    · simp [step, hread, hedge, hack]
    · simp [step, hread, hedge]

/-! ## Runs -/

/-- A run shows what it shows with the reads suspended. -/
theorem trace_shown_suspendReads (h : Alike w p') :
    trace step (fun v e ↦ [v.project.shown e]) w events =
      trace CounterProject.step (fun q e ↦ [q.shown e]) p'
        (trace step (fun v e ↦ [v.suspendReads e]) w events) := by
  refine (simulation_run (R := Alike) (P := fun _ _ ↦ True) (fun v q e hv _ ↦ ?_) h
    (along_of_forall fun _ _ ↦ trivial)).2
  unfold suspendReads
  cases hremoved : e.isRead || v.writesBehindRead e with
  | true =>
    have hpins := CounterPins.clk_rst_suspended (e := e)
    have hcount := (hv.count_removed_iff hremoved rfl hpins.1 hpins.2).2
      fun _ _ ↦ .inl CounterPins.laEnables_suspended
    refine ⟨hv.step_removed hremoved rfl hpins.1 hpins.2 hcount, ?_⟩
    exact congrArg (fun x ↦ [x]) (CounterProject.shown_eq_iff.2 hcount)
  | false =>
    have hnext := hv.step_kept hremoved
    refine ⟨hnext, ?_⟩
    exact congrArg (fun x ↦ [x]) (CounterProject.shown_eq_iff.2 hnext.count)

/-- With no write behind a read, removing the reads goes unseen if and only if they hide nothing. -/
theorem trace_shown_withoutRead_iff (h : Alike w p')
    (hbehind : Along step (fun v e ↦ v.writesBehindRead e = false) w events) :
    trace step (fun v e ↦ [v.project.shown e]) w events =
        trace CounterProject.step (fun q e ↦ [q.shown e]) p'
          (events.map CounterPins.withoutRead) ↔
      Along step (fun v e ↦ v.project.HidesNothing e) w events := by
  have hevents : List.Forall₂ (fun e f ↦ e.withoutRead = f) events
      (events.map CounterPins.withoutRead) := by
    rw [List.forall₂_map_right_iff]
    exact List.forall₂_same.2 fun _ _ ↦ rfl
  refine lockstep_iff_along (R := Alike) ?_ ?_ h hevents hbehind
  · rintro v q e _ hv rfl hbehind
    rw [CounterProject.shown_eq_iff]
    unfold CounterPins.withoutRead CounterProject.HidesNothing
    cases hread : e.isRead with
    | true =>
      have hremoved : (e.isRead || v.writesBehindRead e) = true := by rw [hread, Bool.true_or]
      have hiff := hv.count_removed_iff (f := e.released) hremoved rfl rfl rfl
      rw [if_pos rfl, hiff]
      constructor
      · intro hseen hclk hrst _
        exact hseen hclk hrst
      · intro hhides hclk hrst
        exact hhides hclk hrst rfl
    | false =>
      have hkept : (e.isRead || v.writesBehindRead e) = false := by rw [hread, hbehind]; rfl
      rw [if_neg Bool.false_ne_true]
      refine iff_of_true (hv.step_kept hkept).count fun _ _ hfalse ↦ ?_
      exact absurd hfalse Bool.false_ne_true
  · rintro v q e _ hv rfl hbehind hhides
    unfold CounterPins.withoutRead
    cases hread : e.isRead with
    | true =>
      have hremoved : (e.isRead || v.writesBehindRead e) = true := by rw [hread, Bool.true_or]
      have hiff := hv.count_removed_iff (f := e.released) hremoved rfl rfl rfl
      rw [if_pos rfl]
      exact hv.step_removed hremoved rfl rfl rfl
        (hiff.2 fun hclk hrst ↦ hhides hclk hrst hread)
    | false =>
      have hkept : (e.isRead || v.writesBehindRead e) = false := by rw [hread, hbehind]; rfl
      rw [if_neg Bool.false_ne_true]
      exact hv.step_kept hkept

end Watched

namespace CounterProject

/-- **Reads.** Every run shows what it shows with each read removed, the write enables of the probes
suspended at its clocks and a write right behind it held off. Where no write is presented right
behind a read, the reads alone can be removed if and only if none of them hides a write of the
probes. -/
theorem reads_of_counter (p : CounterProject) (events : List CounterPins) :
    let w : Watched := { project := p, readTaken := false }
    trace step (fun q e ↦ [q.shown e]) p events =
        trace step (fun q e ↦ [q.shown e]) p
          (trace Watched.step (fun v e ↦ [v.suspendReads e]) w events) ∧
      (Along Watched.step (fun v e ↦ v.writesBehindRead e = false) w events →
        (trace step (fun q e ↦ [q.shown e]) p events =
            trace step (fun q e ↦ [q.shown e]) p (events.map CounterPins.withoutRead) ↔
          Along step HidesNothing p events)) := by
  intro w
  have halike : w.Alike p := ⟨rfl, rfl, (Bool.and_true _).symm, fun htaken ↦ absurd htaken
    Bool.false_ne_true⟩
  have hshown : trace Watched.step (fun v e ↦ [v.project.shown e]) w events =
      trace step (fun q e ↦ [q.shown e]) p events :=
    trace_project Watched.project (fun _ _ ↦ rfl) (fun q e ↦ [q.shown e]) w events
  have hhides : Along Watched.step (fun v e ↦ v.project.HidesNothing e) w events ↔
      Along step HidesNothing p events :=
    along_project Watched.project (fun _ _ ↦ rfl) HidesNothing w events
  rw [← hshown, ← hhides]
  exact ⟨Watched.trace_shown_suspendReads halike, Watched.trace_shown_withoutRead_iff halike⟩

/-- The clock is low and the count is zero. -/
def zeroExample : CounterProject where
  clk := false
  counter := { count := 0#32, ready := false, rdata := 0#32 }

/-- The clock wire, and an access if there is one, with the given write enables of the probes. -/
def accessPins (wbClkI access we : Bool) (laEnables : BitVec 32) : CounterPins where
  wbClkI := wbClkI
  wbRstI := false
  wbsStbI := access
  wbsCycI := access
  wbsWeI := we
  wbsSelI := 0xf#4
  wbsDatI := 0xab#32
  laDataIn := 0#128
  laOenb := setPart (BitVec.allOnes 128) 32 (~~~laEnables)

/-- One read, with the probes enabled: it hides their write. The other run has it right before a
write: it holds the write off. -/
theorem reads_have_effects :
    trace step (fun q e ↦ [q.shown e]) zeroExample
        [accessPins true true false (BitVec.allOnes 32)] ≠
      trace step (fun q e ↦ [q.shown e]) zeroExample
        ([accessPins true true false (BitVec.allOnes 32)].map CounterPins.withoutRead) ∧
    trace step (fun q e ↦ [q.shown e]) zeroExample
        [accessPins true true false 0#32, accessPins false false false 0#32,
          accessPins true true true 0#32] ≠
      trace step (fun q e ↦ [q.shown e]) zeroExample
        ([accessPins true true false 0#32, accessPins false false false 0#32,
          accessPins true true true 0#32].map CounterPins.withoutRead) := by
  decide

end CounterProject

end CaravelSoc.User
