import CaravelSoc.User.Counter

/-!
# The counter over Wishbone

An access is taken at the first clock at which it is presented and acknowledged
until the next one; there the master still presents it, and it is not taken
again. While the probes are disabled, the count is that of a reference counter
that knows of nothing but the accesses taken. A word that is written and read
back has grown by the clocks in between.
-/

open Sequential

namespace CaravelSoc.User

/-- One byte of a count under an access. -/
def Access.byteOf (a : Access) (count : BitVec 32) (byte : ℕ) : BitVec 8 :=
  if a.wstrb.getLsbD byte then a.wdata.extractLsb' (8 * byte) 8
  else count.extractLsb' (8 * byte) 8

/-- The reference counter: one clock, with the access taken at it. -/
def reference (count : BitVec 32) : Option Access → BitVec 32
  | none => count + 1#32
  | some a =>
    a.byteOf (count + 1#32) 3 ++ a.byteOf (count + 1#32) 2 ++ a.byteOf (count + 1#32) 1 ++
      a.byteOf (count + 1#32) 0

/-- No write enable of the probes is active and there is no reset. -/
def CounterPins.Undisturbed (e : CounterPins) : Prop :=
  e.laOenb.extractLsb' 32 32 = BitVec.allOnes 32 ∧ e.rst = false

namespace CounterProject

/-- The access taken at this clock. -/
def taken (p : CounterProject) (e : CounterPins) : Option Access :=
  if p.accepts e then some e.access else none

/-- What each clock takes. -/
def takenAtClock (p : CounterProject) (e : CounterPins) : List (Option Access) :=
  if p.clkRises e then [p.taken e] else []

/-- The count after each clock. -/
def countAtClock (p : CounterProject) (e : CounterPins) : List (BitVec 32) :=
  if p.clkRises e then [(p.step e).count] else []

end CounterProject

/-- The project and a master with the accesses it has yet to complete, each with the number of
clocks it lets pass before. -/
structure Driven where
  project : CounterProject
  queue : List (ℕ × Access)
  deriving DecidableEq, Repr

namespace Driven

/-- The access the master presents: the first one, when its gap is over. -/
def presents (d : Driven) : Option Access :=
  match d.queue with
  | (0, a) :: _ => some a
  | _ => none

/-- At a clock the master lets a gap get shorter, or looks for the acknowledge of the access it
presents, which it holds until then. -/
def step (d : Driven) (e : CounterPins) : Driven where
  project := d.project.step e
  queue :=
    if d.project.clkRises e then
      match d.queue with
      | [] => []
      | (gap + 1, a) :: rest => (gap, a) :: rest
      | (0, a) :: rest => if d.project.wbsAckO then rest else (0, a) :: rest
    else d.queue

/-- At a clock the pins show what the master presents. -/
def Drives (d : Driven) (e : CounterPins) : Prop :=
  d.project.clkRises e = true → (if e.valid then some e.access else none) = d.presents

/-- The accesses still to be taken: not the one that is being acknowledged. -/
def remaining (d : Driven) : List Access :=
  (if d.project.wbsAckO then d.queue.tail else d.queue).map Prod.snd

/-- The clocks up to the acknowledge of the last access. -/
def clocksLeft (d : Driven) : ℕ :=
  (d.queue.map fun entry ↦ entry.1 + 2).sum - if d.project.wbsAckO then 1 else 0

/-- What is being acknowledged is the access presented. -/
def Waiting (d : Driven) : Prop := d.project.wbsAckO = true → d.presents.isSome = true

end Driven

/-! ## The reference counter -/

theorem reference_some (a : Access) (count : BitVec 32) :
    reference count (some a) = Counter.writeBytes a.wstrb a.wdata (count + 1#32) := by
  apply eq_of_bytes
  intro byte
  rw [Counter.writeBytes_extractLsb' _ _ _ byte byte.isLt]
  change _ = a.byteOf (count + 1#32) byte
  unfold reference
  exact extractLsb'_append_bytes (a.byteOf (count + 1#32)) byte byte.isLt

namespace CounterProject

variable {p : CounterProject} {e : CounterPins} {events : List CounterPins}

/-! ## One clock -/

theorem laWrite_of_undisturbed (h : e.Undisturbed) : e.laWrite = 0#32 := by
  unfold CounterPins.laWrite CounterPins.laEnables
  rw [h.1, BitVec.not_allOnes, BitVec.zero_and]

/-- A clock is one of the reference counter, with the access that is taken. -/
theorem count_step (h : e.Undisturbed) (hclk : p.clkRises e = true) :
    (p.step e).count = reference p.count (p.taken e) := by
  unfold taken count
  cases haccepts : p.accepts e with
  | true =>
    rw [step_of_accepts haccepts, if_pos rfl, reference_some]
    rfl
  | false =>
    rw [step_of_not_accepts hclk h.2 haccepts, if_neg Bool.false_ne_true]
    exact if_pos (laWrite_of_undisturbed h)

/-- The acknowledge of a clock tells whether it took an access. -/
theorem wbsAckO_step (hclk : p.clkRises e = true) (hrst : e.rst = false) :
    (p.step e).wbsAckO = p.accepts e := by
  unfold wbsAckO
  cases haccepts : p.accepts e with
  | true => rw [step_of_accepts haccepts]
  | false => rw [step_of_not_accepts hclk hrst haccepts]

theorem clocks_nil : p.clocks [] = 0 := rfl

theorem clocks_cons : p.clocks (e :: events) =
    (if p.clkRises e then 1 else 0) + (p.step e).clocks events := by
  unfold clocks
  rw [trace, List.length_append]
  split <;> rfl

/-! ## Runs -/

theorem trace_countAtClock (h : ∀ e ∈ events, e.Undisturbed) :
    trace step countAtClock p events =
      trace reference (fun count a ↦ [reference count a]) p.count
        (trace step takenAtClock p events) := by
  refine (simulation_run (R := fun q c ↦ q.count = c) (P := fun _ e ↦ e.Undisturbed)
    (fun q c e hcount he ↦ ?_) rfl (along_of_forall h)).2
  unfold takenAtClock countAtClock
  cases hclk : q.clkRises e with
  | true =>
    have hnext := count_step he hclk
    rw [hcount] at hnext
    exact ⟨hnext, by rw [if_pos rfl, if_pos rfl, hnext]; rfl⟩
  | false =>
    refine ⟨?_, rfl⟩
    unfold count
    rw [step_of_no_clock hclk]
    exact hcount

/-- While nothing is written, the count grows by the clocks. -/
theorem count_run_of_no_write (h : ∀ e ∈ events, e.Undisturbed)
    (hreads : Along step (fun q e ↦ q.accepts e = true → e.wstrb = 0#4) p events) :
    (run step p events).count = p.count + BitVec.ofNat 32 (p.clocks events) := by
  induction events generalizing p with
  | nil => simp [run, clocks_nil]
  | cons e rest ih =>
    rw [List.forall_mem_cons] at h
    rw [run, ih h.2 hreads.2, clocks_cons]
    cases hclk : p.clkRises e with
    | false =>
      unfold count
      rw [step_of_no_clock hclk]
      simp
    | true =>
      have hone : (p.step e).count = p.count + 1#32 := by
        rw [count_step h.1 hclk, taken]
        cases haccepts : p.accepts e with
        | true =>
          rw [if_pos rfl, reference_some]
          change Counter.writeBytes e.wstrb _ _ = _
          rw [hreads.1 haccepts, Counter.writeBytes_of_no_strobe]
        | false => rfl
      rw [hone, if_pos rfl, BitVec.ofNat_add, BitVec.add_assoc]

/-- What is written at one clock is read at a later one. -/
theorem read_after_write {write read : CounterPins} (hwrite : p.accepts write = true)
    (hstrobes : write.wstrb = BitVec.allOnes 4) (h : ∀ e ∈ events, e.Undisturbed)
    (hreads : Along step (fun q e ↦ q.accepts e = true → e.wstrb = 0#4) (p.step write) events)
    (hread : (run step (p.step write) events).accepts read = true) :
    ((run step (p.step write) events).step read).wbsAckO = true ∧
      ((run step (p.step write) events).step read).wbsDatO =
        write.wbsDatI + BitVec.ofNat 32 ((p.step write).clocks events) := by
  have hwritten : (p.step write).count = write.wbsDatI := by
    unfold count
    rw [step_of_accepts hwrite, hstrobes]
    exact Counter.writeBytes_of_all_strobes _ _
  unfold wbsAckO wbsDatO
  rw [step_of_accepts hread, ← hwritten]
  exact ⟨rfl, count_run_of_no_write h hreads⟩

end CounterProject

namespace Driven

variable {d : Driven} {e : CounterPins} {events : List CounterPins}

theorem step_of_no_clock (hclk : d.project.clkRises e = false) :
    (d.step e).queue = d.queue ∧ (d.step e).project.wbsAckO = d.project.wbsAckO := by
  unfold step CounterProject.wbsAckO
  rw [CounterProject.step_of_no_clock hclk]
  simp [hclk]

/-- One clock: the access it takes is the next one to be taken, and one clock less is left. -/
theorem step_of_clock (hwaiting : d.Waiting) (hdrives : d.Drives e) (hrst : e.rst = false)
    (hclk : d.project.clkRises e = true) :
    (d.step e).Waiting ∧
      (d.project.taken e).toList ++ (d.step e).remaining = d.remaining ∧
      (d.step e).clocksLeft = d.clocksLeft - 1 := by
  have hack := CounterProject.wbsAckO_step hclk hrst
  have hshown := hdrives hclk
  unfold Waiting at hwaiting ⊢
  unfold remaining clocksLeft CounterProject.taken
  change ((d.project.step e).wbsAckO = true → _) ∧ _
  rw [show (d.step e).project = d.project.step e from rfl, hack]
  cases hready : d.project.wbsAckO with
  | true =>
    -- the acknowledge is up: the access on the pins has been taken, and the master leaves it
    have hnone : d.project.accepts e = false := by simp [CounterProject.accepts, hready]
    have hpresents := hwaiting hready
    rw [hnone]
    cases hqueue : d.queue with
    | nil => simp [presents, hqueue] at hpresents
    | cons entry rest =>
      obtain ⟨gap, a⟩ := entry
      cases gap with
      | succ gap => simp [presents, hqueue] at hpresents
      | zero =>
        simp [step, hclk, hready, hqueue]
  | false =>
    have haccepts : d.project.accepts e = e.valid := by
      simp [CounterProject.accepts, hready, hclk, hrst]
    rw [haccepts]
    cases hqueue : d.queue with
    | nil =>
      have hidle : e.valid = false := by simpa [presents, hqueue] using hshown
      simp [step, hclk, hqueue, hidle]
    | cons entry rest =>
      obtain ⟨gap, a⟩ := entry
      cases gap with
      | succ gap =>
        have hidle : e.valid = false := by simpa [presents, hqueue] using hshown
        simp [step, hclk, hqueue, hidle]
      | zero =>
        obtain ⟨hvalid, haccess⟩ : e.valid = true ∧ e.access = a := by
          simpa [presents, hqueue] using hshown
        simp [step, presents, hclk, hready, hqueue, hvalid, haccess]

/-- When no clock is left, no access is. -/
theorem remaining_of_clocksLeft (h : d.clocksLeft = 0) : d.remaining = [] := by
  unfold clocksLeft at h
  unfold remaining
  cases hqueue : d.queue with
  | nil => simp
  | cons entry rest =>
    rw [hqueue, List.map_cons, List.sum_cons] at h
    split at h <;> omega

/-- A run takes the accesses in turn. -/
theorem run_drives (hwaiting : d.Waiting) (hquiet : ∀ e ∈ events, e.Undisturbed)
    (hdrives : Along step Drives d events) :
    trace CounterProject.step (fun q e ↦ (q.taken e).toList) d.project events ++
        (run step d events).remaining = d.remaining ∧
      (run step d events).clocksLeft = d.clocksLeft - d.project.clocks events := by
  induction events generalizing d with
  | nil => exact ⟨rfl, rfl⟩
  | cons e rest ih =>
    rw [List.forall_mem_cons] at hquiet
    rw [trace, run, CounterProject.clocks_cons, List.append_assoc]
    cases hclk : d.project.clkRises e with
    | false =>
      obtain ⟨hqueue, hack⟩ := step_of_no_clock hclk
      have hnone : d.project.taken e = none := by
        rw [CounterProject.taken, CounterProject.accepts_of_no_clock hclk,
          if_neg Bool.false_ne_true]
      have hsame : (d.step e).Waiting ∧ (d.step e).remaining = d.remaining ∧
          (d.step e).clocksLeft = d.clocksLeft := by
        unfold Waiting remaining clocksLeft presents
        rw [hqueue, hack]
        exact ⟨hwaiting, rfl, rfl⟩
      obtain ⟨htrace, hleft⟩ := ih hsame.1 hquiet.2 hdrives.2
      rw [hsame.2.1] at htrace
      rw [hsame.2.2] at hleft
      rw [hnone]
      refine ⟨htrace, hleft.trans ?_⟩
      simp [step]
    | true =>
      obtain ⟨hnext, htaken, hone⟩ := step_of_clock hwaiting hdrives.1 hquiet.1.2 hclk
      obtain ⟨htrace, hleft⟩ := ih hnext hquiet.2 hdrives.2
      refine ⟨?_, hleft.trans ?_⟩
      · rw [← htaken, ← htrace]
        rfl
      · rw [hone, if_pos rfl, Nat.sub_sub]
        rfl

end Driven

namespace CounterProject

/-- **The counter over Wishbone.** While the probes are disabled and there is no reset, the count
follows the reference counter under the accesses taken, and each of these is acknowledged after its
clock and at no other. What a master presents, holding each access until it is acknowledged, is
taken in turn and once, and all of it by the time two clocks for each access and the gaps have
passed. A word written is read back with the clocks in between added. -/
theorem counter_over_wishbone (p : CounterProject) (events : List CounterPins)
    (hquiet : ∀ e ∈ events, e.Undisturbed) :
    trace step countAtClock p events =
        trace reference (fun count a ↦ [reference count a]) p.count
          (trace step takenAtClock p events) ∧
      Along step (fun q e ↦ q.clkRises e = true → (q.step e).wbsAckO = (q.taken e).isSome) p
        events ∧
      (∀ queue : List (ℕ × Access), p.wbsAckO = false →
        let d : Driven := { project := p, queue := queue }
        Along Driven.step Driven.Drives d events →
        trace step (fun q e ↦ (q.taken e).toList) p events ++
            (run Driven.step d events).remaining = queue.map Prod.snd ∧
          ((queue.map fun entry ↦ entry.1 + 2).sum ≤ p.clocks events →
            trace step (fun q e ↦ (q.taken e).toList) p events = queue.map Prod.snd)) ∧
      ∀ before write between read after,
        events = before ++ write :: (between ++ read :: after) →
        let t := run step p before
        let u := run step (t.step write) between
        t.accepts write = true → write.wstrb = BitVec.allOnes 4 →
        Along step (fun q e ↦ q.accepts e = true → e.wstrb = 0#4) (t.step write) between →
        u.accepts read = true →
        (u.step read).wbsAckO = true ∧
          (u.step read).wbsDatO =
            write.wbsDatI + BitVec.ofNat 32 ((t.step write).clocks between) := by
  have halong : Along step (fun _ e ↦ e.Undisturbed) p events := along_of_forall hquiet
  refine ⟨trace_countAtClock hquiet, ?_, ?_, ?_⟩
  · refine halong.mono fun q e he hclk ↦ ?_
    rw [wbsAckO_step hclk he.2, taken]
    cases q.accepts e <;> rfl
  · intro queue hready d hdrives
    have hwaiting : d.Waiting := fun hack ↦ absurd (hready.symm.trans hack) (by decide)
    have hremaining : d.remaining = queue.map Prod.snd := by
      simp [Driven.remaining, d, hready]
    have hleft : d.clocksLeft = (queue.map fun entry ↦ entry.1 + 2).sum := by
      simp [Driven.clocksLeft, d, hready]
    obtain ⟨htaken, hclocks⟩ := Driven.run_drives hwaiting hquiet hdrives
    rw [hremaining] at htaken
    refine ⟨htaken, fun henough ↦ ?_⟩
    have hempty : (run Driven.step d events).remaining = [] := by
      apply Driven.remaining_of_clocksLeft
      rw [hclocks, hleft]
      exact Nat.sub_eq_zero_of_le henough
    rw [← htaken, hempty, List.append_nil]
  · rintro before write between read after rfl t u hwrite hstrobes hreads hread
    refine read_after_write hwrite hstrobes (fun e he ↦ hquiet e ?_) hreads hread
    simp [he]

/-- The pins with the probes disabled. -/
def busPins (wbClkI access we : Bool) (wbsDatI : BitVec 32) : CounterPins where
  wbClkI := wbClkI
  wbRstI := false
  wbsStbI := access
  wbsCycI := access
  wbsWeI := we
  wbsSelI := 0xf#4
  wbsDatI := wbsDatI
  laDataIn := 0#128
  laOenb := BitVec.allOnes 128

def idleExample : CounterProject where
  clk := false
  counter := { count := 7#32, ready := false, rdata := 0#32 }

/-- A word is written; the clock after the one of its acknowledge takes a read. -/
def writeReadExample : List CounterPins :=
  [busPins true true true 0x2710#32, busPins false true true 0x2710#32,
    busPins true true true 0x2710#32, busPins false true false 0#32, busPins true true false 0#32]

theorem counter_over_wishbone_writeReadExample :
    (run step idleExample writeReadExample).wbsAckO = true ∧
      (run step idleExample writeReadExample).wbsDatO = 0x2711#32 := by
  have hquiet : ∀ e ∈ writeReadExample, e.Undisturbed := by
    simp only [writeReadExample, List.forall_mem_cons, CounterPins.Undisturbed]
    decide
  exact (counter_over_wishbone idleExample writeReadExample hquiet).2.2.2 []
    (busPins true true true 0x2710#32)
    [busPins false true true 0x2710#32, busPins true true true 0x2710#32,
      busPins false true false 0#32]
    (busPins true true false 0#32) [] rfl (by decide) (by decide) (by decide) (by decide)

end CounterProject

end CaravelSoc.User
