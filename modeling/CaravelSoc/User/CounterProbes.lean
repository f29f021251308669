import CaravelSoc.User.Counter

/-!
# Writes of the probes to the counter

The probes 32 to 63 have a write enable for each bit of the count, but a clock at
which any of them is active assigns all bits: those that are enabled take their
data and the others are cleared. Bits that are not enabled are left alone only if
they are zero already, and of a number written in parts the last part is what
remains.
-/

open Sequential

namespace CaravelSoc.User

/-- Neither a Wishbone access nor a reset. -/
def CounterPins.ProbesOnly (e : CounterPins) : Prop := e.valid = false ∧ e.rst = false

/-- Masks that share no bit and together have them all. -/
structure IsPartition (masks : List (BitVec 32)) : Prop where
  nonempty : ∀ mask ∈ masks, mask ≠ 0#32
  disjoint : masks.Pairwise fun mask mask' ↦ mask &&& mask' = 0#32
  covers : masks.foldr (· ||| ·) 0#32 = BitVec.allOnes 32

namespace CounterProject

/-- At a clock each enabled bit takes its data, and the others are as they would be without the
write: kept, or counted on if no bit is enabled. -/
def WritesEnabledBits (p : CounterProject) (e : CounterPins) : Prop :=
  p.clkRises e = true → ∀ i < 32,
    (p.step e).count.getLsbD i =
      if e.laEnables.getLsbD i then e.laInput.getLsbD i
      else if e.laEnables = 0#32 then (p.count + 1#32).getLsbD i
      else p.count.getLsbD i

/-- At a clock at which the probes write, the bits they do not enable are zero. -/
def OtherBitsZero (p : CounterProject) (e : CounterPins) : Prop :=
  p.clkRises e = true → e.laEnables = 0#32 ∨ p.count &&& ~~~e.laEnables = 0#32

instance decidableWritesEnabledBits (p : CounterProject) (e : CounterPins) :
    Decidable (p.WritesEnabledBits e) :=
  inferInstanceAs (Decidable (p.clkRises e = true → ∀ i < 32, _))

/-- The enables at the clocks of a run. -/
def masks (p : CounterProject) (events : List CounterPins) : List (BitVec 32) :=
  trace step (fun q e ↦ if q.clkRises e then [e.laEnables] else []) p events

/-- The data on the enabled probes is that part of `v`. -/
def WritesPart (v : BitVec 32) (p : CounterProject) (e : CounterPins) : Prop :=
  p.clkRises e = true → e.laEnables &&& e.laInput = e.laEnables &&& v

variable {p : CounterProject} {e : CounterPins} {events : List CounterPins} {v : BitVec 32}

theorem count_step_of_probesOnly (he : e.ProbesOnly) (hclk : p.clkRises e = true) :
    (p.step e).count =
      if e.laEnables = 0#32 then p.count + 1#32 else e.laEnables &&& e.laInput :=
  (count_step_of_no_access hclk he.2 he.1).1

end CounterProject

/-- No bit of `x` lies outside the mask. -/
theorem and_not_eq_zero_iff (x mask : BitVec 32) :
    x &&& ~~~mask = 0#32 ↔ ∀ i < 32, mask.getLsbD i = false → x.getLsbD i = false := by
  constructor
  · intro h i hi hmask
    have hbit := congrArg (·.getLsbD i) h
    simp only [BitVec.getLsbD_and, BitVec.getLsbD_not, hi, hmask, decide_true, Bool.not_false,
      Bool.and_true, BitVec.getLsbD_zero] at hbit
    exact hbit
  · intro h
    apply BitVec.eq_of_getLsbD_eq
    intro i hi
    cases hmask : mask.getLsbD i with
    | true => simp [hmask]
    | false => simp [h i hi hmask]

theorem and_eq_right_iff (x mask : BitVec 32) : mask &&& x = x ↔ x &&& ~~~mask = 0#32 := by
  rw [and_not_eq_zero_iff]
  constructor
  · intro h i hi hmask
    have hbit := congrArg (·.getLsbD i) h
    simp only [BitVec.getLsbD_and, hmask, Bool.false_and] at hbit
    exact hbit.symm
  · intro h
    apply BitVec.eq_of_getLsbD_eq
    intro i hi
    cases hmask : mask.getLsbD i with
    | true => simp [hmask]
    | false => simp [hmask, h i hi hmask]

namespace CounterProject

variable {p : CounterProject} {e : CounterPins} {events : List CounterPins} {v : BitVec 32}

/-- One clock writes what is enabled and nothing else exactly when there is nothing else. -/
theorem writesEnabledBits_iff (he : e.ProbesOnly) :
    p.WritesEnabledBits e ↔ p.OtherBitsZero e := by
  unfold WritesEnabledBits OtherBitsZero
  refine forall_congr' fun hclk ↦ ?_
  rw [count_step_of_probesOnly he hclk]
  by_cases hnone : e.laEnables = 0#32
  · simp [hnone]
  · rw [and_not_eq_zero_iff, or_iff_right hnone]
    simp only [if_neg hnone, BitVec.getLsbD_and]
    refine forall_congr' fun i ↦ forall_congr' fun _ ↦ ?_
    cases e.laEnables.getLsbD i with
    | true => simp
    | false => simp

/-- The last part written is what remains. -/
theorem count_run_of_writesPart (hquiet : ∀ e ∈ events, e.ProbesOnly)
    (hmasks : ∀ mask ∈ p.masks events, mask ≠ 0#32)
    (hdata : Along step (WritesPart v) p events) :
    (run step p events).count =
      if p.masks events = [] then p.count else (p.masks events).getLastD 0#32 &&& v := by
  induction events generalizing p with
  | nil => rfl
  | cons e rest ih =>
    rw [List.forall_mem_cons] at hquiet
    have hsplit : p.masks (e :: rest) =
        (if p.clkRises e then [e.laEnables] else []) ++ (p.step e).masks rest := rfl
    rw [hsplit, List.forall_mem_append] at hmasks
    rw [hsplit, run, ih hquiet.2 hmasks.2 hdata.2]
    cases hclk : p.clkRises e with
    | false =>
      rw [(count_step_of_no_clock hclk).1]
      rfl
    | true =>
      have hmask : e.laEnables ≠ 0#32 := hmasks.1 e.laEnables (by simp [hclk])
      rw [count_step_of_probesOnly hquiet.1 hclk, if_neg hmask, hdata.1 hclk]
      cases hrest : (p.step e).masks rest with
      | nil => simp
      | cons mask masks => simp

theorem masks_ne_nil (h : IsPartition (p.masks events)) : p.masks events ≠ [] := by
  intro hnil
  have hcovers := h.covers
  rw [hnil] at hcovers
  exact absurd hcovers (by decide)

theorem count_step_of_all (he : e.ProbesOnly) (hclk : p.clkRises e = true)
    (hall : e.laEnables = BitVec.allOnes 32) : (p.step e).count = e.laInput := by
  rw [count_step_of_probesOnly he hclk, hall, if_neg (by decide), BitVec.allOnes_and]

/-- **Writes of the probes.** In a run without accesses and resets, every clock writes the enabled
bits and no others if and only if at every clock that writes the others are zero. A number written
in parts leaves the same count as one write with all bits enabled if and only if the last part
holds all its ones. -/
theorem probe_writes (p : CounterProject) (events : List CounterPins)
    (hquiet : ∀ e ∈ events, e.ProbesOnly) :
    (Along step WritesEnabledBits p events ↔ Along step OtherBitsZero p events) ∧
      ∀ (v : BitVec 32) (q : CounterProject) (all : CounterPins),
        IsPartition (p.masks events) → Along step (WritesPart v) p events →
        q.clkRises all = true → all.ProbesOnly → all.laEnables = BitVec.allOnes 32 →
        all.laInput = v →
        ((run step p events).count = (q.step all).count ↔
          v &&& ~~~(p.masks events).getLastD 0#32 = 0#32) := by
  have halong : Along step (fun _ e ↦ e.ProbesOnly) p events := along_of_forall hquiet
  refine ⟨⟨fun h ↦ ?_, fun h ↦ ?_⟩, ?_⟩
  · exact (halong.and h).mono fun _ _ hstep ↦ (writesEnabledBits_iff hstep.1).1 hstep.2
  · exact (halong.and h).mono fun _ _ hstep ↦ (writesEnabledBits_iff hstep.1).2 hstep.2
  · rintro v q all hpartition hdata hclk hall hmask rfl
    rw [count_run_of_writesPart hquiet hpartition.nonempty hdata, if_neg (masks_ne_nil hpartition),
      count_step_of_all hall hclk hmask]
    exact and_eq_right_iff _ _

/-- Low and high halves, the clock wire following `wb_clk_i`. -/
def probePins (wbClkI : Bool) (laEnables laInput : BitVec 32) : CounterPins where
  wbClkI := wbClkI
  wbRstI := false
  wbsStbI := false
  wbsCycI := false
  wbsWeI := false
  wbsSelI := 0#4
  wbsDatI := 0#32
  laDataIn := laInput.setWidth 128 <<< 32
  laOenb := setPart (BitVec.allOnes 128) 32 (~~~laEnables)

def countingExample : CounterProject where
  clk := false
  counter := { count := 0xff#32, ready := false, rdata := 0#32 }

/-- A number is written in two halves, the low one first. -/
def halvesExample (laInput : BitVec 32) : List CounterPins :=
  [probePins true 0xffff#32 laInput, probePins false 0xffff#32 laInput,
    probePins true 0xffff0000#32 laInput]

theorem isPartition_halvesExample :
    IsPartition (countingExample.masks (halvesExample 0x12340000#32)) := by
  have hmasks : countingExample.masks (halvesExample 0x12340000#32) =
      [0xffff#32, 0xffff0000#32] := by decide
  rw [hmasks]
  exact ⟨by simp, by decide, by decide⟩

/-- Of this number the high half has all the ones. -/
theorem probe_writes_halvesExample :
    (run step countingExample (halvesExample 0x12340000#32)).count =
      (countingExample.step (probePins true (BitVec.allOnes 32) 0x12340000#32)).count := by
  have hquiet : ∀ e ∈ halvesExample 0x12340000#32, e.ProbesOnly := by
    simp only [halvesExample, List.forall_mem_cons, CounterPins.ProbesOnly]
    decide
  have hdata : Along step (WritesPart 0x12340000#32) countingExample
      (halvesExample 0x12340000#32) := by
    simp only [halvesExample, Along, WritesPart]
    decide
  exact ((probe_writes countingExample (halvesExample 0x12340000#32) hquiet).2 0x12340000#32
    countingExample (probePins true (BitVec.allOnes 32) 0x12340000#32) isPartition_halvesExample
    hdata (by decide) ⟨by decide, by decide⟩ (by decide) (by decide)).2 (by decide)

/-- The second half clears the first. -/
theorem probe_writes_clear :
    ¬Along step WritesEnabledBits countingExample (halvesExample 0x12345678#32) ∧
      (run step countingExample (halvesExample 0x12345678#32)).count ≠
        (countingExample.step (probePins true (BitVec.allOnes 32) 0x12345678#32)).count := by
  constructor
  · intro h
    have hbit := h.2.2.1 (by decide) 3 (by decide)
    exact absurd hbit (by decide)
  · decide

end CounterProject

end CaravelSoc.User
