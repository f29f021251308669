import CaravelSoc.Transfer.Termination

/-!
# The counters of the loader

The two pad counters start next to each other and move apart: whenever a word is
staged they name pads at the same distance from the two ends. The lower counter
is narrower and leaves its range, from zero to 31, as the last pair of words is
staged; by then the upper one has reached the number of pads, and no word is
staged from there before both are set again.
-/

open Sequential

namespace CaravelSoc

namespace SerialLoader

/-- Where the two pad counters stand with respect to each other. Past the last pad of the upper
one, the lower one has wrapped. -/
structure Mirrored (l : Registers) : Prop where
  start : l.xferState = .start → l.padCount1.toNat + l.padCount2.toNat = 37
  xbyte : l.xferState = .xbyte → l.padCount2.toNat ≤ 37 →
    l.padCount1.toNat + l.padCount2.toNat = 37
  load : l.xferState = .load → l.padCount2 = 38#6

theorem mirrored_reset : Mirrored reset := by
  constructor <;> simp [reset]

variable {l : Registers} {r : RegisterMap.Registers}

theorem toNat_pred {n : ℕ} (count : BitVec n) (h : 1 ≤ count.toNat) (hn : 1 < 2 ^ n) :
    (count - BitVec.ofNat n 1).toNat = count.toNat - 1 := by
  have hone : (BitVec.ofNat n 1).toNat = 1 := by
    rw [BitVec.toNat_ofNat, Nat.mod_eq_of_lt hn]
  have hle : BitVec.ofNat n 1 ≤ count := by
    rw [BitVec.le_def, hone]
    exact h
  rw [BitVec.toNat_sub_of_le hle, hone]

/-- A pair of words is staged: both counters move on, away from each other. -/
theorem Mirrored.startStep (h : Mirrored l) (hcount : Counting l) (hstate : l.xferState = .start) :
    Mirrored (SerialLoader.startStep l r) := by
  obtain ⟨hmin, hmax⟩ := hcount.start hstate
  have hsum := h.start hstate
  have hnext := toNat_succ l.padCount2 (by omega)
  unfold SerialLoader.startStep
  refine ⟨by simp, fun _ hlast ↦ ?_, by simp⟩
  simp only [hnext] at hlast ⊢
  rw [toNat_pred l.padCount1 (by omega) (by decide)]
  omega

/-- No counter of the pads moves while a word is shifted. -/
theorem Mirrored.xbyteStep (h : Mirrored l) (hcount : Counting l) (hstate : l.xferState = .xbyte) :
    Mirrored (SerialLoader.xbyteStep l r) := by
  obtain ⟨-, hmax, -⟩ := hcount.xbyte hstate
  have hsum := h.xbyte hstate
  unfold SerialLoader.xbyteStep
  by_cases hclock : serialClock l r = false
  · by_cases hlast : l.xferCount = 12#4
    · by_cases hpads : l.padCount2 = 38#6
      · simp only [if_pos hclock, if_pos hlast, if_pos hpads]
        exact ⟨by simp, by simp, fun _ ↦ hpads⟩
      · have hpads' : l.padCount2.toNat ≠ 38 := fun hall ↦ hpads (BitVec.eq_of_toNat_eq hall)
        simp only [if_pos hclock, if_pos hlast, if_neg hpads]
        exact ⟨fun _ ↦ hsum (by omega), by simp, by simp⟩
    · simp only [if_pos hclock, if_neg hlast]
      exact ⟨by simp [hstate], fun _ ↦ hsum, by simp [hstate]⟩
  · simp only [if_neg hclock]
    exact ⟨by simp [hstate], fun _ ↦ hsum, by simp [hstate]⟩

theorem Mirrored.loadStep (h : Mirrored l) (hstate : l.xferState = .load) :
    Mirrored (SerialLoader.loadStep l) := by
  have hpads := h.load hstate
  unfold SerialLoader.loadStep
  split_ifs
  · exact ⟨by simp [hstate], by simp [hstate], fun _ ↦ hpads⟩
  · exact ⟨by simp [hstate], by simp [hstate], fun _ ↦ hpads⟩
  · exact ⟨by simp, by simp, by simp⟩
  · exact ⟨by simp [hstate], by simp [hstate], fun _ ↦ hpads⟩

theorem configureAt_eq (pad : Fin RegisterMap.mprjIoPads) :
    configureAt r pad.val = r.gpioConfigure pad := by
  unfold configureAt
  rw [dif_pos pad.isLt]

/-- The words staged are those of two pads, one from each half. -/
theorem Mirrored.staged (h : Mirrored l) (hstate : l.xferState = .start) :
    ∃ low high : Fin RegisterMap.mprjIoPads, low.val + high.val = 37 ∧
      low.val = l.padCount1.toNat ∧ high.val = l.padCount2.toNat ∧
      (SerialLoader.next l r).serialDataStaging1 = r.gpioConfigure low ∧
      (SerialLoader.next l r).serialDataStaging2 = r.gpioConfigure high := by
  have hsum := h.start hstate
  have hrange : ∀ n ≤ 37, n < RegisterMap.mprjIoPads := by
    intro n hn
    exact Nat.lt_succ_of_le hn
  let low : Fin RegisterMap.mprjIoPads := ⟨l.padCount1.toNat, hrange _ (by omega)⟩
  let high : Fin RegisterMap.mprjIoPads := ⟨l.padCount2.toNat, hrange _ (by omega)⟩
  refine ⟨low, high, hsum, rfl, rfl, ?_, ?_⟩
  · simp only [SerialLoader.next, hstate, SerialLoader.startStep]
    exact configureAt_eq low
  · simp only [SerialLoader.next, hstate, SerialLoader.startStep]
    exact configureAt_eq high

theorem Mirrored.next (h : Mirrored l) (hcount : Counting l) :
    Mirrored (SerialLoader.next l r) := by
  cases hstate : l.xferState with
  | idle =>
    -- the counters are set while the loader waits, so that a request finds them at the middle
    simp only [SerialLoader.next, hstate, idleStep]
    cases r.serialXfer <;> constructor <;> simp
  | start =>
    simp only [SerialLoader.next, hstate]
    exact h.startStep hcount hstate
  | xbyte =>
    simp only [SerialLoader.next, hstate]
    exact h.xbyteStep hcount hstate
  | load =>
    simp only [SerialLoader.next, hstate]
    exact h.loadStep hstate

end SerialLoader

namespace Transfer

open SerialLoader

theorem mirrored_step {s : Housekeeping} (hcount : Counting s.loader) (h : Mirrored s.loader)
    (e : Event) : Mirrored (s.step e).loader := by
  rw [Housekeeping.step_loader]
  cases e with
  | wbClk =>
    simp only [Housekeeping.drive]
    split
    · exact h.next hcount
    · exact mirrored_reset
  | porb level =>
    simp only [Housekeeping.drive]
    split
    · exact h
    · exact mirrored_reset
  | gpioIn | wishbone | status | wbRstn => exact h

/-- **Loader counters.** In every reachable state the counters are in range, and where the next
words are staged they name pads at the same distance from the two ends. -/
theorem loader_counters_in_range (mgmtGpioIn : BitVec 38) (bus : BackDoor.Bus) (status : Status)
    (datO : BitVec 32) (es : List Event) :
    let s := run Housekeeping.step (Housekeeping.powerOn mgmtGpioIn bus status datO) es
    let l := s.loader
    (l.xferState = .start →
      (l.padCount1.toNat ≤ 18 ∧ 19 ≤ l.padCount2.toNat ∧ l.padCount2.toNat ≤ 37 ∧
        l.padCount1.toNat + l.padCount2.toNat = 37) ∧
      ∃ low high : Fin RegisterMap.mprjIoPads, low.val + high.val = 37 ∧
        low.val = l.padCount1.toNat ∧ high.val = l.padCount2.toNat ∧
        (SerialLoader.next l s.regs).serialDataStaging1 = s.regs.gpioConfigure low ∧
        (SerialLoader.next l s.regs).serialDataStaging2 = s.regs.gpioConfigure high) ∧
    (l.xferState = .xbyte →
      20 ≤ l.padCount2.toNat ∧ l.padCount2.toNat ≤ 38 ∧ l.xferCount.toNat ≤ 12) ∧
    (l.xferState = .load → l.padCount2.toNat = 38 ∧ l.xferCount.toNat ≤ 2) := by
  intro s l
  have hreach : Counting l ∧ Mirrored l :=
    invariant_run (I := fun s : Housekeeping ↦ Counting s.loader ∧ Mirrored s.loader)
      (P := fun _ _ ↦ True)
      (fun _ e hs _ ↦ ⟨counting_step hs.1 e, mirrored_step hs.1 hs.2 e⟩)
      ⟨counting_reset, mirrored_reset⟩ (along_of_forall fun _ _ ↦ trivial)
  obtain ⟨hcounting, hmirrored⟩ := hreach
  refine ⟨fun hstart ↦ ?_, hcounting.xbyte, fun hload ↦ ?_⟩
  · obtain ⟨hmin, hmax⟩ := hcounting.start hstart
    have hsum := hmirrored.start hstart
    exact ⟨⟨by omega, hmin, hmax, hsum⟩, hmirrored.staged hstart⟩
  · have hpads := hmirrored.load hload
    exact ⟨by rw [hpads]; rfl, hcounting.load hload⟩

end Transfer

end CaravelSoc
