import CaravelSoc.Housekeeping.PadWrite
import CaravelSoc.Transfer.OneTransfer

/-!
# Transfers without reconfiguration

A pad comes out of power-on reset with its `gpio_defaults`, and keeps them until
the first load strobe, which gives it the reset value of its `gpio_configure`.
The two sets of values are meant to be the same. They are, except for the pads 36
and 37.
-/

open Sequential

namespace CaravelSoc.Transfer

/-! ## Load strobes and configurations -/

variable {cfg : Fin 38 → BitVec 13} {t : Machine} {r : RegisterMap.Registers}
  {rs : List RegisterMap.Registers}

theorem loadRise_mem_edges_iff {old new : Pads.SerialLines} :
    SerialEdge.loadRise ∈ old.edges new ↔ old.loadRises new = true := by
  unfold Pads.SerialLines.edges
  split <;> split <;> simp_all

/-- Without a load strobe every pad keeps its configuration. -/
theorem config_of_no_loadRise (h : SerialEdge.loadRise ∉ trace Machine.step Machine.edges t rs)
    (pad : Fin 38) : ((run Machine.step t rs).pads pad).config = (t.pads pad).config := by
  induction rs generalizing t with
  | nil => rfl
  | cons r rest ih =>
    rw [trace, List.mem_append, not_or] at h
    have hload : (autoLines t.loader).loadRises (autoLines (t.step r).loader) = false := by
      rw [← Bool.not_eq_true, ← loadRise_mem_edges_iff]
      exact h.1
    calc
      ((run Machine.step t (r :: rest)).pads pad).config
      _ = ((t.step r).pads pad).config := ih h.2
      _ = (t.pads pad).config :=
        Pads.follow_config_of_no_load (next_serialResetnPre _ _) hload pad

/-- The first 498 clocks of a transfer, possibly not all of them: the pads have their new words
from the load strobe on. The rest of the transfer is made up to see where this one is. -/
theorem config_within_transfer (hidle : t.loader.xferState = .idle) (hxfer : r.serialXfer = true)
    (hr : Quiet cfg r) (hquiet : ∀ r ∈ rs, Quiet cfg r) (hlen : rs.length ≤ 497) (pad : Fin 38) :
    ((run Machine.step t (r :: rs)).pads pad).config =
      if SerialEdge.loadRise ∈ trace Machine.step Machine.edges t (r :: rs) then
        Pads.PadConfig.ofWord (cfg pad)
      else (t.pads pad).config := by
  let more : List RegisterMap.Registers := List.replicate (497 - rs.length) r
  have hall : ∀ r' ∈ rs ++ more, Quiet cfg r' := by
    intro r' hr'
    rcases List.mem_append.1 hr' with hrs | hmore
    · exact hquiet r' hrs
    · rw [List.eq_of_mem_replicate hmore]
      exact hr
  have hlength : (rs ++ more).length = 497 := by
    rw [List.length_append, List.length_replicate]
    omega
  have hwhole := transfer_config hidle hxfer _ hlength hall pad
  obtain ⟨-, hedges⟩ := transfer_edges hidle hxfer hr.bb _ hlength fun r' hr' ↦ (hall r' hr').bb
  rw [← List.cons_append, trace_append] at hedges
  rw [← List.cons_append, run_append] at hwhole
  split
  · next hload =>
    -- the strobe is the last edge of the transfer, so none follows
    have hnone : SerialEdge.loadRise ∉
        trace Machine.step Machine.edges (run Machine.step t (r :: rs)) more := by
      intro hagain
      have htwo := congrArg (List.count SerialEdge.loadRise) hedges
      rw [List.count_append, List.count_append, List.count_replicate] at htwo
      have hfirst := List.count_pos_iff.2 hload
      have hsecond := List.count_pos_iff.2 hagain
      simp at htwo
      omega
    rw [← hwhole, config_of_no_loadRise hnone]
  · next hload => exact config_of_no_loadRise hload pad

theorem idle_step (hidle : t.loader.xferState = .idle) (hxfer : r.serialXfer = false) :
    (t.step r).loader.xferState = .idle ∧ SerialEdge.loadRise ∉ t.edges r := by
  have hnext : (t.step r).loader = SerialLoader.idleStep t.loader false := by
    rw [Machine.step_loader, SerialLoader.next, hidle, hxfer]
  refine ⟨by rw [hnext]; rfl, ?_⟩
  rw [Machine.edges, loadRise_mem_edges_iff, ← Machine.step_loader, hnext]
  simp [autoLines, Pads.SerialLines.loadRises, SerialLoader.idleStep]

/-- A clock without a request does not count. -/
theorem config_after_idle (hidle : t.loader.xferState = .idle) (hxfer : r.serialXfer = false)
    {pad : Fin 38}
    (hrest : ((run Machine.step (t.step r) rs).pads pad).config =
      if SerialEdge.loadRise ∈ trace Machine.step Machine.edges (t.step r) rs then
        Pads.PadConfig.ofWord (cfg pad)
      else ((t.step r).pads pad).config) :
    ((run Machine.step t (r :: rs)).pads pad).config =
      if SerialEdge.loadRise ∈ trace Machine.step Machine.edges t (r :: rs) then
        Pads.PadConfig.ofWord (cfg pad)
      else (t.pads pad).config := by
  have hnone := (idle_step hidle hxfer).2
  have hone : SerialEdge.loadRise ∉ trace Machine.step Machine.edges t [r] := by
    simpa only [trace, List.append_nil] using hnone
  have hkeep := config_of_no_loadRise hone pad
  simp only [trace, List.mem_append, or_iff_right hnone]
  rw [← hkeep]
  exact hrest

/-- A whole transfer loads the configuration, and later ones load it again. -/
theorem config_after_transfer (hidle : t.loader.xferState = .idle) (hxfer : r.serialXfer = true)
    (hr : Quiet cfg r) {front back : List RegisterMap.Registers} (hfront : front.length = 497)
    (hquiet : ∀ r ∈ front, Quiet cfg r) {pad : Fin 38}
    (hback : ((run Machine.step (run Machine.step t (r :: front)) back).pads pad).config =
      if SerialEdge.loadRise ∈
          trace Machine.step Machine.edges (run Machine.step t (r :: front)) back then
        Pads.PadConfig.ofWord (cfg pad)
      else ((run Machine.step t (r :: front)).pads pad).config) :
    ((run Machine.step t (r :: (front ++ back))).pads pad).config =
      if SerialEdge.loadRise ∈ trace Machine.step Machine.edges t (r :: (front ++ back)) then
        Pads.PadConfig.ofWord (cfg pad)
      else (t.pads pad).config := by
  have hfirst := transfer_config hidle hxfer front hfront hquiet pad
  obtain ⟨-, hedges⟩ :=
    transfer_edges hidle hxfer hr.bb front hfront fun r hr ↦ (hquiet r hr).bb
  have hload : SerialEdge.loadRise ∈
      trace Machine.step Machine.edges t (r :: (front ++ back)) := by
    rw [← List.cons_append, trace_append, hedges]
    exact List.mem_append_left _ (List.mem_append_right _ (List.mem_singleton_self _))
  rw [if_pos hload, ← List.cons_append, run_append, hback, hfirst, ite_self]

/-- From an idle loader on, any number of transfers of one configuration. -/
theorem config_run (n : ℕ) : ∀ (t : Machine) (rs : List RegisterMap.Registers), rs.length ≤ n →
    t.loader.xferState = .idle → (∀ r ∈ rs, Quiet cfg r) → ∀ pad,
    ((run Machine.step t rs).pads pad).config =
      if SerialEdge.loadRise ∈ trace Machine.step Machine.edges t rs then
        Pads.PadConfig.ofWord (cfg pad)
      else (t.pads pad).config := by
  induction n with
  | zero =>
    intro t rs hlen _ _ pad
    obtain rfl : rs = [] := List.eq_nil_of_length_eq_zero (Nat.le_zero.1 hlen)
    simp [run, trace]
  | succ n ih =>
    intro t rs hlen hidle hquiet pad
    cases rs with
    | nil => simp [run, trace]
    | cons r rest =>
      rw [List.forall_mem_cons] at hquiet
      have hlen' : rest.length ≤ n := Nat.le_of_succ_le_succ hlen
      cases hxfer : r.serialXfer with
      | false =>
        apply config_after_idle hidle hxfer
        exact ih (t.step r) rest hlen' (idle_step hidle hxfer).1 hquiet.2 pad
      | true =>
        by_cases hshort : rest.length ≤ 497
        · exact config_within_transfer hidle hxfer hquiet.1 hquiet.2 hshort pad
        · obtain ⟨front, back, rfl, hfront, -⟩ :=
            exists_append_of_length (show rest.length = 497 + (rest.length - 497) by omega)
          rw [List.length_append] at hlen'
          rw [List.forall_mem_append] at hquiet
          have hdone := (transfer_edges hidle hxfer hquiet.1.bb front hfront
            fun r hr ↦ (hquiet.2.1 r hr).bb).1
          apply config_after_transfer hidle hxfer hquiet.1 hfront hquiet.2.1
          exact ih (run Machine.step t (r :: front)) back (by omega) hdone.idle hquiet.2.2 pad

/-! ## From power-on -/

theorem Quiet.foldl_apply (h : Quiet cfg r) {edges : List RegisterEdge}
    (hedges : ∀ x ∈ edges, x.reconfigures = false) :
    Quiet cfg (edges.foldl RegisterEdge.apply r) := by
  obtain ⟨hconfigure, hbb⟩ := RegisterEdge.foldl_apply_of_not_reconfigures (r := r) hedges
  exact ⟨hbb h.bb, hconfigure.trans h.configure⟩

section Soc

variable {s : Soc} {e : Event} {es : List Event}

/-- A run that does not reconfigure keeps the configuration. -/
theorem configured_run (hporb : s.hk.porb = true) (hquiet : Quiet cfg s.hk.regs)
    (hpower : ∀ e ∈ es, ∀ level, e ≠ .porb level)
    (hedges : ∀ x ∈ trace Soc.step Soc.registerEdges s es, x.reconfigures = false) :
    Always Soc.step (Configured cfg) s es := by
  rw [forall_mem_trace_iff] at hedges
  refine (always_of_invariant (I := fun t : Soc ↦ t.hk.porb = true ∧ Quiet cfg t.hk.regs)
    (P := fun t e ↦ (∀ level, e ≠ .porb level) ∧
      ∀ x ∈ t.registerEdges e, x.reconfigures = false)
    ?_ ⟨hporb, hquiet⟩ ((along_of_forall hpower).and hedges)).mono ?_
  · rintro t e ⟨ht, hregs⟩ ⟨he, hnone⟩
    have hporb' : (t.hk.step e).porb = true := by
      cases e with
      | porb level => exact absurd rfl (he level)
      | wbClk | gpioIn | wishbone | status | wbRstn => exact ht
    refine ⟨hporb', ?_⟩
    rw [Soc.step_hk, Housekeeping.step_regs hporb']
    exact hregs.foldl_apply hnone
  · rintro t ⟨ht, hregs⟩
    exact ⟨⟨ht, hregs.bb⟩, hregs.configure⟩

/-- Every pad as its reset leaves it. -/
def resetPads : Pads.Blocks := fun pad ↦ Pads.GpioControlBlock.reset (Pads.gpioDefaults pad)

theorem follow_reset {old new : Pads.SerialLines} (h : new.resetn = false) (blocks : Pads.Blocks) :
    Pads.follow old new blocks = resetPads := by
  funext pad
  simp [Pads.follow, Pads.GpioControlBlock.follow, h, resetPads]

/-- Before the first clock the loader holds the pads in reset. -/
theorem reset_run (hloader : s.hk.loader = SerialLoader.reset) (hpads : s.pads = resetPads)
    (hauto : Always Soc.step Automatic s es) (hclk : .wbClk ∉ es) :
    (run Soc.step s es).hk.loader = SerialLoader.reset ∧ (run Soc.step s es).pads = resetPads ∧
      trace Soc.step Soc.serialEdges s es = [] := by
  induction es generalizing s with
  | nil => exact ⟨hloader, hpads, rfl⟩
  | cons e rest ih =>
    rw [List.mem_cons, not_or] at hclk
    have hauto' := hauto.2.head
    have hkeep : (s.step e).hk.loader = SerialLoader.reset :=
      (loader_step_of_ne_wbClk (Ne.symm hclk.1) hauto'.1).trans hloader
    have hlines : s.hk.serialLines = autoLines SerialLoader.reset := by
      rw [serialLines_eq_autoLines hauto.1.2, hloader]
    have hlines' : (s.step e).hk.serialLines = autoLines SerialLoader.reset := by
      rw [serialLines_eq_autoLines hauto'.2, hkeep]
    have hpads' : (s.step e).pads = resetPads :=
      follow_reset (congrArg Pads.SerialLines.resetn hlines') s.pads
    have hnone : s.serialEdges e = [] := by
      rw [Soc.serialEdges, ← Soc.step_hk, hlines, hlines', Pads.SerialLines.edges_same]
    obtain ⟨hloaderRun, hpadsRun, hedges⟩ := ih hkeep hpads' hauto.2 hclk.2
    exact ⟨hloaderRun, hpadsRun, by rw [trace, hnone, hedges, List.nil_append]⟩

/-- From the reset on, a pad holds its default up to the first load strobe and its configuration
word from then on. -/
theorem config_from_reset (hloader : s.hk.loader = SerialLoader.reset)
    (hpads : s.pads = resetPads) (hrun : Always Soc.step (Configured cfg) s es) (pad : Fin 38) :
    ((run Soc.step s es).pads pad).config =
      if SerialEdge.loadRise ∈ trace Soc.step Soc.serialEdges s es then
        Pads.PadConfig.ofWord (cfg pad)
      else Pads.PadConfig.ofWord (Pads.gpioDefaults pad) := by
  have hauto : Always Soc.step Automatic s es := hrun.mono fun _ h ↦ h.1
  by_cases hclk : .wbClk ∈ es
  · obtain ⟨front, back, rfl, hfront⟩ := List.eq_append_cons_of_mem hclk
    rw [always_append] at hauto hrun
    obtain ⟨hloader', hpads', hnone⟩ := reset_run hloader hpads hauto.1 hfront
    obtain ⟨hproj, hedges⟩ := projects_run hauto.2
    have hquiet : ∀ r ∈ trace Soc.step clockSamples (run Soc.step s front) (.wbClk :: back),
        Quiet cfg r := forall_mem_clockSamples (hrun.2.mono fun _ h ↦ ⟨h.1.2, h.2⟩)
    have hidle : (run Soc.step s front).hk.loader.xferState = .idle := by
      rw [hloader']
      rfl
    have hconfig := config_run _ ⟨(run Soc.step s front).hk.loader, (run Soc.step s front).pads⟩
      _ le_rfl hidle hquiet pad
    simp only [run_append, trace_append, hnone, List.nil_append, hedges]
    rw [hproj.2, hconfig, hpads']
    rfl
  · obtain ⟨-, hpads', hnone⟩ := reset_run hloader hpads hauto hclk
    rw [if_neg (by rw [hnone]; simp), hpads']
    rfl

end Soc

/-- The two sets of reset values agree but for the last two pads. -/
theorem gpioConfigure_reset_eq_iff : ∀ pad,
    Pads.PadConfig.ofWord (RegisterMap.resetRegisters.gpioConfigure pad) =
      Pads.PadConfig.ofWord (Pads.gpioDefaults pad) ↔ pad ≠ 36 ∧ pad ≠ 37 := by
  decide

/-- The pad is configured as after its reset. -/
def HoldsDefault (s : Soc) (pad : Fin 38) : Prop :=
  (s.pads pad).config = Pads.PadConfig.ofWord (Pads.gpioDefaults pad)

/-- The pad is configured as `gpio_configure` says. -/
def Agrees (s : Soc) (pad : Fin 38) : Prop :=
  (s.pads pad).config = Pads.PadConfig.ofWord (s.hk.regs.gpioConfigure pad)

/-- Power is not good: the registers and the loader are reset, the pads in any state. -/
structure PowerOnReset (s : Soc) : Prop where
  porb : s.hk.porb = false
  regs : s.hk.regs = RegisterMap.resetRegisters
  loader : s.hk.loader = SerialLoader.reset

/-- Every loss of power, at any point of a run, is a power-on reset. -/
theorem powerOnReset_step (s : Soc) : PowerOnReset (s.step (.porb false)) where
  porb := rfl
  regs := rfl
  loader := rfl

section PowerOn

variable {s : Soc} {es : List Event}

/-- Power becomes good: the registers are reset, and the loader still holds the pads in reset. -/
theorem PowerOnReset.step (h : PowerOnReset s) :
    (s.step (.porb true)).hk.regs = RegisterMap.resetRegisters ∧
      (s.step (.porb true)).hk.loader = SerialLoader.reset ∧
      (s.step (.porb true)).pads = resetPads ∧ s.serialEdges (.porb true) = [] := by
  have hcsclk : (s.hk.drive (.porb true)).csclk = s.hk.csclk := rfl
  have hnone : s.hk.registerEdges (.porb true) = [] := by
    simp [Housekeeping.registerEdges, Housekeeping.csclkRises, hcsclk]
  have hregs : (s.hk.step (.porb true)).regs = RegisterMap.resetRegisters := by
    rw [Housekeeping.step_regs rfl, hnone, List.foldl_nil, h.regs]
  have hlines : s.hk.serialLines = autoLines SerialLoader.reset := by
    rw [serialLines_eq_autoLines (by rw [h.regs]; rfl), h.loader]
  have hlines' : (s.hk.step (.porb true)).serialLines = autoLines SerialLoader.reset :=
    (serialLines_eq_autoLines (by rw [hregs]; rfl)).trans (congrArg autoLines h.loader)
  refine ⟨hregs, h.loader, ?_, ?_⟩
  · exact follow_reset (congrArg Pads.SerialLines.resetn hlines') s.pads
  · exact (congrArg₂ Pads.SerialLines.edges hlines hlines').trans
      (Pads.SerialLines.edges_same _)

/-- The pads and `gpio_configure` in a run that does not reconfigure. -/
theorem config_from_powerOn (hreset : PowerOnReset s)
    (hpower : ∀ e ∈ es, ∀ level, e ≠ .porb level)
    (hedges : ∀ x ∈ trace Soc.step Soc.registerEdges s (.porb true :: es), x.reconfigures = false)
    (pad : Fin 38) :
    ((run Soc.step s (.porb true :: es)).pads pad).config =
        (if SerialEdge.loadRise ∈ trace Soc.step Soc.serialEdges s (.porb true :: es) then
          Pads.PadConfig.ofWord (RegisterMap.resetRegisters.gpioConfigure pad)
        else Pads.PadConfig.ofWord (Pads.gpioDefaults pad)) ∧
      (run Soc.step s (.porb true :: es)).hk.regs.gpioConfigure =
        RegisterMap.resetRegisters.gpioConfigure := by
  obtain ⟨hregs, hloader, hpads, hnone⟩ := hreset.step
  have hquiet : Quiet RegisterMap.resetRegisters.gpioConfigure (s.step (.porb true)).hk.regs := by
    rw [hregs]
    exact ⟨rfl, rfl⟩
  rw [trace, List.forall_mem_append] at hedges
  have hrun := configured_run rfl hquiet hpower hedges.2
  refine ⟨?_, hrun.last.2⟩
  simp only [trace, hnone, List.nil_append]
  exact config_from_reset hloader hpads hrun pad

/-- **Transfers without reconfiguration.** In a run from a power-on reset that writes no byte of
`gpio_configure` and does not enable bit-bang, a pad holds its default after a load strobe exactly
if it is neither pad 36 nor pad 37; and it holds its default and agrees with `gpio_configure`, at
any time, exactly then. -/
theorem defaults_kept_iff (s : Soc) (es : List Event) (hreset : PowerOnReset s)
    (hpower : ∀ e ∈ es, ∀ level, e ≠ .porb level)
    (hedges : ∀ x ∈ trace Soc.step Soc.registerEdges s (.porb true :: es), x.reconfigures = false)
    (pad : Fin 38) :
    (SerialEdge.loadRise ∈ trace Soc.step Soc.serialEdges s (.porb true :: es) →
      (HoldsDefault (run Soc.step s (.porb true :: es)) pad ↔ pad ≠ 36 ∧ pad ≠ 37)) ∧
      (HoldsDefault (run Soc.step s (.porb true :: es)) pad ∧
          Agrees (run Soc.step s (.porb true :: es)) pad ↔ pad ≠ 36 ∧ pad ≠ 37) := by
  obtain ⟨hconfig, hshadow⟩ := config_from_powerOn hreset hpower hedges pad
  have hagree := gpioConfigure_reset_eq_iff pad
  rw [HoldsDefault, Agrees, hconfig, hshadow]
  constructor
  · intro hload
    rw [if_pos hload, hagree]
  · split
    · rw [← hagree, and_iff_left rfl]
    · rw [← hagree, and_iff_right rfl, eq_comm]

end PowerOn

/-! ## A transfer that moves a pad -/

/-- Power-on with CSB high and an idle bus. -/
def powerOnExample : Soc where
  hk := Housekeeping.powerOn 0x8#38 default default 0#32
  pads := resetPads

theorem powerOnReset_powerOnExample : PowerOnReset powerOnExample := ⟨rfl, rfl, rfl⟩

/-- The reset is released, and the SPI requests a transfer. -/
def transferExample : List Event :=
  .wbRstn true :: Housekeeping.csbFalls :: (Housekeeping.sendByte 0x80#8 ++
    Housekeeping.sendByte 0x13#8 ++ Housekeeping.sendByte 0x01#8 ++ [Housekeeping.csbRises])

set_option maxRecDepth 10000 in
theorem transferExample_requested :
    (∀ e ∈ transferExample, ∀ level, e ≠ .porb level) ∧
      (∀ x ∈ trace Soc.step Soc.registerEdges powerOnExample (.porb true :: transferExample),
        x.reconfigures = false) ∧
      (run Soc.step powerOnExample (.porb true :: transferExample)).hk.loader.xferState = .idle ∧
      (run Soc.step powerOnExample (.porb true :: transferExample)).hk.regs.serialXfer = true ∧
      (run Soc.step powerOnExample (.porb true :: transferExample)).hk.Parked ∧
      (run Soc.step powerOnExample (.porb true :: transferExample)).hk.regs.serialBbEnable =
        false := by
  decide

/-- The transfer itself, clocked to its end. -/
def transferredExample (n : ℕ) : List Event := transferExample ++ List.replicate n .wbClk

/-- A run with a whole transfer, up to the load strobe and beyond. -/
theorem transferredExample_loads : ∃ n,
    (∀ e ∈ transferredExample n, ∀ level, e ≠ .porb level) ∧
      (∀ x ∈ trace Soc.step Soc.registerEdges powerOnExample (.porb true :: transferredExample n),
        x.reconfigures = false) ∧
      SerialEdge.loadRise ∈
        trace Soc.step Soc.serialEdges powerOnExample (.porb true :: transferredExample n) := by
  obtain ⟨hpower, hedges, hidle, hxfer, hparked, hbb⟩ := transferExample_requested
  -- The number of clocks stays a variable, so that no list of this length is ever written out.
  obtain ⟨n, hn⟩ : ∃ n, n = 497 := ⟨497, rfl⟩
  have hsplit : Event.porb true :: transferredExample (n + 1) =
      (.porb true :: transferExample) ++ List.replicate (n + 1) .wbClk := rfl
  have hrun := automatic_of_parked hparked hbb (n + 1)
  rw [List.replicate_succ] at hrun
  obtain ⟨later, htransfer, -⟩ := serialEdges_of_request hidle hxfer hrun
    (by rw [List.count_replicate_self, hn])
  refine ⟨n + 1, fun e he ↦ ?_, ?_, ?_⟩
  · rcases List.mem_append.1 he with hfirst | hclock
    · exact hpower e hfirst
    · rw [List.eq_of_mem_replicate hclock]
      simp
  · rw [hsplit, trace_append, registerEdges_of_parked hparked, List.append_nil]
    exact hedges
  · rw [hsplit, trace_append, List.replicate_succ, htransfer]
    exact List.mem_append_right _
      (List.mem_append_left _ (List.mem_append_right _ (List.mem_singleton_self _)))

/-- After the transfer pad 36 is no longer what its reset made it. -/
theorem transfer_moves_pad :
    ¬∀ (s : Soc) (es : List Event), PowerOnReset s → (∀ e ∈ es, ∀ level, e ≠ .porb level) →
      (∀ x ∈ trace Soc.step Soc.registerEdges s (.porb true :: es), x.reconfigures = false) →
      SerialEdge.loadRise ∈ trace Soc.step Soc.serialEdges s (.porb true :: es) →
        ∀ pad, HoldsDefault (run Soc.step s (.porb true :: es)) pad := by
  intro h
  obtain ⟨n, hpower, hedges, hload⟩ := transferredExample_loads
  have hkept := h powerOnExample _ powerOnReset_powerOnExample hpower hedges hload 36
  have hconfig := (config_from_powerOn powerOnReset_powerOnExample hpower hedges 36).1.trans
    (if_pos hload)
  exact absurd (hconfig.symm.trans hkept) (by decide)

/-- Through the transfer pad 35 keeps its default, in agreement with its word in `gpio_configure`,
and pad 36 does not. -/
theorem defaults_kept_iff_transferExample : ∃ n,
    SerialEdge.loadRise ∈
        trace Soc.step Soc.serialEdges powerOnExample (.porb true :: transferredExample n) ∧
      HoldsDefault (run Soc.step powerOnExample (.porb true :: transferredExample n)) 35 ∧
      Agrees (run Soc.step powerOnExample (.porb true :: transferredExample n)) 35 ∧
      ¬HoldsDefault (run Soc.step powerOnExample (.porb true :: transferredExample n)) 36 := by
  obtain ⟨n, hpower, hedges, hload⟩ := transferredExample_loads
  have hpads := defaults_kept_iff powerOnExample _ powerOnReset_powerOnExample hpower hedges
  refine ⟨n, hload, ((hpads 35).1 hload).2 (by decide), ((hpads 35).2.2 (by decide)).2, ?_⟩
  rw [(hpads 36).1 hload]
  decide

end CaravelSoc.Transfer
