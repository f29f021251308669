import CaravelSoc.Housekeeping.PadWrite
import CaravelSoc.Transfer.OneTransfer

/-!
# Configuration writes during a transfer

The loader copies a configuration word when it starts to send it, at a clock of
its own for each pair of pads, and nothing keeps the Wishbone from writing
`gpio_configure` at that time. What a pad is loaded with is what its word shows at
that clock: the last word completed before it, or a mixture if the clock falls
between the two bytes of a write to the same pad.
-/

open Sequential

namespace CaravelSoc.Transfer

/-! ## The clock of a pad -/

/-- The position of a pad's word among those sent on its chain. -/
def wordNumber (pad : Fin 38) : ℕ := if pad.val < 19 then 18 - pad else pad - 19

/-- The clock of a transfer at which the word of the pad is staged, counted from the one that
samples the request. -/
def startClock (pad : Fin 38) : ℕ := 1 + 26 * wordNumber pad

/-- The events before the clock number `n`. -/
def beforeClock : ℕ → List Event → List Event
  | _, [] => []
  | 0, .wbClk :: _ => []
  | n + 1, .wbClk :: rest => .wbClk :: beforeClock n rest
  | n, e :: rest => e :: beforeClock n rest

theorem beforeClock_of_ne_wbClk {e : Event} (he : e ≠ .wbClk) (n : ℕ) (rest : List Event) :
    beforeClock n (e :: rest) = e :: beforeClock n rest := by
  cases e with
  | wbClk => exact absurd rfl he
  | gpioIn | wishbone | status | wbRstn | porb => cases n <;> rfl

theorem exists_eq_beforeClock_append (n : ℕ) (es : List Event) :
    ∃ back, es = beforeClock n es ++ back := by
  induction es generalizing n with
  | nil => exact ⟨[], by cases n <;> rfl⟩
  | cons e rest ih =>
    by_cases he : e = .wbClk
    · subst he
      cases n with
      | zero => exact ⟨.wbClk :: rest, rfl⟩
      | succ n =>
        obtain ⟨back, hback⟩ := ih n
        exact ⟨back, congrArg (Event.wbClk :: ·) hback⟩
    · obtain ⟨back, hback⟩ := ih n
      rw [beforeClock_of_ne_wbClk he]
      exact ⟨back, congrArg (e :: ·) hback⟩

/-- Events after the clock make no difference. -/
theorem beforeClock_append {n : ℕ} {front : List Event} (h : n < front.count .wbClk)
    (back : List Event) : beforeClock n (front ++ back) = beforeClock n front := by
  induction front generalizing n with
  | nil => simp at h
  | cons e rest ih =>
    by_cases he : e = .wbClk
    · subst he
      rw [List.count_cons_self] at h
      cases n with
      | zero => rfl
      | succ n => exact congrArg (Event.wbClk :: ·) (ih (by omega))
    · rw [List.count_cons_of_ne he] at h
      rw [List.cons_append, beforeClock_of_ne_wbClk he, beforeClock_of_ne_wbClk he, ih h]

/-- The sample of a clock is the register block before it. -/
theorem getElem?_clockSamples {s : Soc} {es : List Event} {n : ℕ} {r : RegisterMap.Registers}
    (h : (trace Soc.step clockSamples s es)[n]? = some r) :
    r = (run Soc.step s (beforeClock n es)).hk.regs := by
  induction es generalizing s n with
  | nil => simp [trace] at h
  | cons e rest ih =>
    by_cases he : e = .wbClk
    · subst he
      rw [trace_clockSamples_wbClk] at h
      cases n with
      | zero =>
        rw [List.getElem?_cons_zero, Option.some.injEq] at h
        exact h.symm
      | succ n =>
        rw [List.getElem?_cons_succ] at h
        exact ih h
    · rw [trace, clockSamples, if_neg he, List.nil_append] at h
      rw [beforeClock_of_ne_wbClk he]
      exact ih h

/-! ## What a pad is loaded with -/

/-- The configuration made of the words that the samples show at their own clocks. -/
def stagedConfig (rs : List RegisterMap.Registers) (pad : Fin 38) : BitVec 13 :=
  match rs[26 * wordNumber pad]? with
  | some r => r.gpioConfigure pad
  | none => 0#13

theorem stages_stagedConfig {rs : List RegisterMap.Registers} {word : ℕ} (hword : word ≤ 18)
    {r : RegisterMap.Registers} (hr : rs[26 * word]? = some r) :
    Stages (stagedConfig rs) word r where
  first := by
    have hpad : 18 - word < 38 := by omega
    have hnumber : wordNumber ⟨18 - word, hpad⟩ = word := by
      rw [wordNumber, if_pos (by simp only; omega)]
      simp only
      omega
    rw [SerialLoader.configureAt, configWord, dif_pos hpad, dif_pos hpad, stagedConfig, hnumber, hr]
  second := by
    have hpad : 19 + word < 38 := by omega
    have hnumber : wordNumber ⟨19 + word, hpad⟩ = word := by
      rw [wordNumber, if_neg (by simp only; omega)]
      simp only
      omega
    rw [SerialLoader.configureAt, configWord, dif_pos hpad, dif_pos hpad, stagedConfig, hnumber, hr]

variable {s : Soc} {es : List Event} {pad : Fin 38}

/-- A transfer loads every pad with what its configuration word is at its own clock. -/
theorem config_of_start (hidle : s.hk.loader.xferState = .idle)
    (hxfer : s.hk.regs.serialXfer = true) (hrun : Always Soc.step Automatic s (.wbClk :: es))
    (hclocks : (Event.wbClk :: es).count .wbClk = 498) :
    ((run Soc.step s (.wbClk :: es)).pads pad).config =
      Pads.PadConfig.ofWord ((run Soc.step s
        (beforeClock (startClock pad) (.wbClk :: es))).hk.regs.gpioConfigure pad) := by
  obtain ⟨hproj, -⟩ := projects_run hrun
  have hbb : ∀ r ∈ trace Soc.step clockSamples s (.wbClk :: es), r.serialBbEnable = false :=
    forall_mem_clockSamples (hrun.mono fun _ h ↦ h.2)
  have hlength := length_trace_clockSamples s (.wbClk :: es)
  have hsample : ∀ n r, (trace Soc.step clockSamples s (.wbClk :: es))[n]? = some r →
      r = (run Soc.step s (beforeClock n (.wbClk :: es))).hk.regs :=
    fun _ _ ↦ getElem?_clockSamples
  rw [trace_clockSamples_wbClk] at hproj hbb hlength hsample
  rw [List.forall_mem_cons] at hbb
  rw [List.length_cons, hclocks] at hlength
  generalize trace Soc.step clockSamples (s.step .wbClk) es = rs at *
  have hstage : ∀ word ≤ 18, ∀ r, rs[26 * word]? = some r → Stages (stagedConfig rs) word r :=
    fun _ hword _ hr ↦ stages_stagedConfig hword hr
  have hconfig := transfer_config_of_stages (t := ⟨s.hk.loader, s.pads⟩) hidle hxfer rs
    (Nat.succ.inj hlength) hbb.2 hstage pad
  have hnumber : wordNumber pad ≤ 18 := by
    rw [wordNumber]
    split <;> omega
  obtain ⟨r, hr⟩ : ∃ r, rs[26 * wordNumber pad]? = some r :=
    ⟨_, List.getElem?_eq_getElem (by omega)⟩
  have hstart : (s.hk.regs :: rs)[startClock pad]? = some r := by
    rw [startClock, Nat.add_comm, List.getElem?_cons_succ, hr]
  rw [hproj.2, hconfig, ← hsample _ _ hstart, stagedConfig, hr]

/-- The last word completed for the pad before its clock, or the one it had from the start. -/
def completeWord (s : Soc) (es : List Event) (pad : Fin 38) : BitVec 13 :=
  (trace Housekeeping.step (Housekeeping.completedWords pad) s.hk
    (beforeClock (startClock pad) es)).getLastD (s.hk.regs.gpioConfigure pad)

/-- The module at the clock of the pad. -/
def atStart (s : Soc) (es : List Event) (pad : Fin 38) : Housekeeping :=
  run Housekeeping.step s.hk (beforeClock (startClock pad) es)

/-- The pads after a transfer under any interleaving of accesses. -/
theorem config_of_interleaved (hidle : s.hk.loader.xferState = .idle)
    (hxfer : s.hk.regs.serialXfer = true) (haccessed : s.hk.Accessed)
    (hrun : Along Housekeeping.step Housekeeping.Interleaved s.hk (.wbClk :: es))
    (hclocks : (Event.wbClk :: es).count .wbClk = 498) (hwhole : s.hk.halfWritten pad = false) :
    ((run Soc.step s (.wbClk :: es)).pads pad).config =
      Pads.PadConfig.ofWord ((atStart s (.wbClk :: es) pad).shownWord pad
        (completeWord s (.wbClk :: es) pad)) := by
  have hshown : s.hk.regs.gpioConfigure pad =
      s.hk.shownWord pad (s.hk.regs.gpioConfigure pad) := by
    rw [Housekeeping.shownWord, hwhole]
    rfl
  have halways := (Housekeeping.gpioConfigure_run haccessed hrun hshown).1
  have hquiet : Always Housekeeping.step
      (fun t ↦ t.porb = true ∧ t.regs.serialBbEnable = false) s.hk (.wbClk :: es) :=
    halways.mono fun _ ht ↦ ⟨ht.outOfReset.2, ht.bb⟩
  have hauto : Always Soc.step Automatic s (.wbClk :: es) := Soc.always_hk_iff.2 hquiet
  obtain ⟨back, hsplit⟩ := exists_eq_beforeClock_append (startClock pad) (.wbClk :: es)
  have hprefix : Along Housekeeping.step Housekeeping.Interleaved s.hk
      (beforeClock (startClock pad) (.wbClk :: es)) := by
    rw [hsplit, along_append] at hrun
    exact hrun.1
  rw [config_of_start hidle hxfer hauto hclocks, Soc.run_hk,
    (Housekeeping.gpioConfigure_run haccessed hprefix hshown).2]
  rfl

/-- **Configuration writes during a transfer.** Whatever whole accesses are interleaved with a
transfer, a pad is loaded with a complete value of its configuration word, unless the clock that
stages the word falls between the two bytes of a write to the pad: then it gets the upper bits of
the old value and the low byte of the new one. -/
theorem pad_word_loaded (s : Soc) (es : List Event) (hidle : s.hk.loader.xferState = .idle)
    (hxfer : s.hk.regs.serialXfer = true) (haccessed : s.hk.Accessed)
    (hrun : Along Housekeeping.step Housekeeping.Interleaved s.hk (.wbClk :: es))
    (hclocks : (Event.wbClk :: es).count .wbClk = 498) (pad : Fin 38)
    (hwhole : s.hk.halfWritten pad = false) :
    ((atStart s (.wbClk :: es) pad).halfWritten pad = false →
        ((run Soc.step s (.wbClk :: es)).pads pad).config =
          Pads.PadConfig.ofWord (completeWord s (.wbClk :: es) pad)) ∧
      ((atStart s (.wbClk :: es) pad).halfWritten pad = true →
        ((run Soc.step s (.wbClk :: es)).pads pad).config =
          Pads.PadConfig.ofWord (setPart (completeWord s (.wbClk :: es) pad) 0
            ((atStart s (.wbClk :: es) pad).bus.dat.extractLsb' 0 8))) := by
  have hconfig := config_of_interleaved hidle hxfer haccessed hrun hclocks hwhole
  constructor
  · intro hhalf
    rw [hconfig, Housekeeping.shownWord, hhalf]
    rfl
  · intro hhalf
    rw [hconfig, Housekeeping.shownWord, hhalf, if_pos rfl]

/-! ## A torn word -/

/-- A write of another word to the configuration of pad 17. -/
def tornBus : BackDoor.Bus where
  adr := Housekeeping.regMprjIo 17
  dat := 0x00001bfc#32
  sel := 0b1111#4
  we := true
  cyc := true
  stb := true

/-- The write is accepted at clock 24 of the transfer, three clocks before the word of pad 17 is
staged; the master lets go after the acknowledge. -/
def tornExample : List Event :=
  List.replicate 23 .wbClk ++ [.wishbone tornBus] ++ List.replicate 9 .wbClk ++
    [.wishbone default, .wbClk, .wbClk]

set_option maxRecDepth 10000 in
theorem tornExample_interleaved :
    Along Housekeeping.step Housekeeping.Interleaved requestedExample.hk (.wbClk :: tornExample) ∧
      (run Housekeeping.step requestedExample.hk (.wbClk :: tornExample)).Parked ∧
      trace Housekeeping.step (Housekeeping.completedWords 17) requestedExample.hk
        (.wbClk :: tornExample) = [0x1bfc#13] ∧
      (run Housekeeping.step requestedExample.hk
        (beforeClock (startClock 17) (.wbClk :: tornExample))).regs.gpioConfigure 17 =
        0x04fc#13 := by
  decide

set_option maxRecDepth 10000 in
/-- Pads 17 and 20 are staged at the same clock, between the bytes of the write to pad 17. -/
theorem atStart_tornExample :
    (atStart requestedExample (.wbClk :: tornExample) 20).halfWritten 20 = false ∧
      completeWord requestedExample (.wbClk :: tornExample) 20 = 0x0403#13 ∧
      (atStart requestedExample (.wbClk :: tornExample) 17).halfWritten 17 = true ∧
      setPart (completeWord requestedExample (.wbClk :: tornExample) 17) 0
        ((atStart requestedExample (.wbClk :: tornExample) 17).bus.dat.extractLsb' 0 8) =
        0x04fc#13 := by
  decide

theorem accessed_requestedExample : requestedExample.hk.Accessed where
  outOfReset := by decide
  held := ⟨fun hidle ↦ absurd rfl hidle, fun _ hrw ↦ BackDoor.State.noConfusion hrw⟩
  bb := rfl

/-- Clocks alone, with the back door parked. -/
theorem interleaved_of_parked {h : Housekeeping} (hparked : h.Parked) (pad : Fin 38) (n : ℕ) :
    Along Housekeeping.step Housekeeping.Interleaved h (List.replicate n .wbClk) ∧
      trace Housekeeping.step (Housekeeping.completedWords pad) h (List.replicate n .wbClk) =
        [] := by
  induction n generalizing h with
  | zero => exact ⟨trivial, rfl⟩
  | succ n ih =>
    obtain ⟨hnext, hedges, -⟩ := hparked.step_wbClk
    obtain ⟨hrest, htrace⟩ := ih hnext
    have hclock : h.Interleaved .wbClk := by
      refine ⟨trivial, .inl trivial, fun _ _ hreq ↦ ?_, ?_⟩
      · simp [hparked.noRequest] at hreq
      · simp [Housekeeping.spiEdges, hedges]
    have hnone : h.completedWords pad .wbClk = [] := by
      simp [Housekeeping.completedWords, hparked.idle]
    rw [List.replicate_succ, trace, hnone, htrace]
    exact ⟨⟨hclock, hrest⟩, rfl⟩

theorem tornExample_run (n : ℕ) :
    Along Housekeeping.step Housekeeping.Interleaved requestedExample.hk
        (.wbClk :: (tornExample ++ List.replicate n .wbClk)) ∧
      trace Housekeeping.step (Housekeeping.completedWords 17) requestedExample.hk
        (.wbClk :: (tornExample ++ List.replicate n .wbClk)) = [0x1bfc#13] ∧
      (.wbClk :: (tornExample ++ List.replicate n .wbClk)).count Event.wbClk = 35 + n := by
  obtain ⟨halong, hparked, hwords, -⟩ := tornExample_interleaved
  obtain ⟨hrest, hnone⟩ := interleaved_of_parked hparked 17 n
  rw [← List.cons_append, along_append, trace_append, List.count_append,
    List.count_replicate_self, hwords, hnone]
  exact ⟨⟨halong, hrest⟩, rfl, rfl⟩

theorem beforeClock_tornExample {n clock : ℕ} (h : clock < 35) :
    beforeClock clock (.wbClk :: (tornExample ++ List.replicate n .wbClk)) =
      beforeClock clock (.wbClk :: tornExample) :=
  have hcount : clock < List.count Event.wbClk (.wbClk :: tornExample) := h
  beforeClock_append hcount _

/-- The word of pad 17 at its own clock: the low byte of `0x1bfc` under the upper bits of
`0x0403`. -/
theorem config_tornExample {n : ℕ} (hn : n = 463) :
    ((run Soc.step requestedExample
        (.wbClk :: (tornExample ++ List.replicate n .wbClk))).pads 17).config =
      Pads.PadConfig.ofWord 0x04fc#13 := by
  obtain ⟨halong, -, hcount⟩ := tornExample_run n
  have hshown : requestedExample.hk.regs.gpioConfigure 17 =
      requestedExample.hk.shownWord 17 0x0403#13 := rfl
  have halways := (Housekeeping.gpioConfigure_run accessed_requestedExample halong hshown).1
  have hquiet : Always Housekeeping.step
      (fun t ↦ t.porb = true ∧ t.regs.serialBbEnable = false) requestedExample.hk
      (.wbClk :: (tornExample ++ List.replicate n .wbClk)) :=
    halways.mono fun _ ht ↦ ⟨ht.outOfReset.2, ht.bb⟩
  rw [config_of_start rfl rfl (Soc.always_hk_iff.2 hquiet) (by rw [hcount, hn]),
    beforeClock_tornExample (by decide), Soc.run_hk, tornExample_interleaved.2.2.2]

/-- A pad can be loaded with a word that was never written to it. -/
theorem torn_pad_word :
    ¬ ∀ (s : Soc) (es : List Event), s.hk.loader.xferState = .idle →
      s.hk.regs.serialXfer = true → s.hk.Accessed →
      Along Housekeeping.step Housekeeping.Interleaved s.hk (.wbClk :: es) →
      (Event.wbClk :: es).count .wbClk = 498 →
      ∀ pad : Fin 38, s.hk.halfWritten pad = false →
        ∃ word ∈ s.hk.regs.gpioConfigure pad ::
            trace Housekeeping.step (Housekeeping.completedWords pad) s.hk (.wbClk :: es),
          ((run Soc.step s (.wbClk :: es)).pads pad).config = Pads.PadConfig.ofWord word := by
  intro hcomplete
  obtain ⟨n, hn⟩ : ∃ n, n = 463 := ⟨_, rfl⟩
  obtain ⟨halong, hwords, hcount⟩ := tornExample_run n
  obtain ⟨word, hword, hconfig⟩ := hcomplete requestedExample
    (tornExample ++ List.replicate n .wbClk) rfl rfl accessed_requestedExample halong
    (by rw [hcount, hn]) 17 rfl
  rw [config_tornExample hn] at hconfig
  rw [hwords] at hword
  rw [List.mem_cons, List.mem_singleton] at hword
  rcases hword with rfl | rfl
  · exact absurd hconfig (by decide)
  · exact absurd hconfig (by decide)

theorem pad_word_loaded_tornExample :
    ((run Soc.step requestedExample
          (.wbClk :: (tornExample ++ List.replicate 463 .wbClk))).pads 20).config =
        Pads.PadConfig.ofWord 0x0403#13 ∧
      ((run Soc.step requestedExample
          (.wbClk :: (tornExample ++ List.replicate 463 .wbClk))).pads 17).config =
        Pads.PadConfig.ofWord 0x04fc#13 := by
  suffices h : ∀ n, n = 463 →
      ((run Soc.step requestedExample
          (.wbClk :: (tornExample ++ List.replicate n .wbClk))).pads 20).config =
        Pads.PadConfig.ofWord 0x0403#13 ∧
      ((run Soc.step requestedExample
          (.wbClk :: (tornExample ++ List.replicate n .wbClk))).pads 17).config =
        Pads.PadConfig.ofWord 0x04fc#13 from h 463 rfl
  intro n hn
  obtain ⟨halong, -, hcount⟩ := tornExample_run n
  have hloaded := fun pad ↦ pad_word_loaded requestedExample
    (tornExample ++ List.replicate n .wbClk) rfl rfl accessed_requestedExample halong
    (by rw [hcount, hn]) pad
  have hstart := fun (pad : Fin 38) (h : startClock pad < 35) ↦
    beforeClock_tornExample (n := n) h
  obtain ⟨hwhole, hword, hhalf, hmixed⟩ := atStart_tornExample
  rw [completeWord] at hword hmixed
  rw [atStart] at hwhole hhalf hmixed
  unfold atStart completeWord at hloaded
  constructor
  · have hcomplete := (hloaded 20 rfl).1
    rw [hstart 20 (by decide), hword] at hcomplete
    exact hcomplete hwhole
  · have htorn := (hloaded 17 rfl).2
    rw [hstart 17 (by decide), hmixed] at htorn
    exact htorn hhalf

end CaravelSoc.Transfer
