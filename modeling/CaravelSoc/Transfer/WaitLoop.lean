import CaravelSoc.Housekeeping.PadAccess
import CaravelSoc.Transfer.EndToEnd
import Mathlib.Data.Fintype.Basic

/-!
# Waiting for a transfer

Firmware writes one to `reg_mprj_xfer` and reads it back until it is no longer
one. The byte it reads is register `0x13`, whose bit 0 is the busy flag of the
loader; bits 5 and 6 of the same byte are the serial data lines. The word read
during a transfer is one exactly while both lines carry a zero, which is settled
by the two configuration words under way and the bit that has been reached.
-/

open Sequential Sequential.ShiftRegister

namespace CaravelSoc.Transfer

open Housekeeping BackDoor RegisterMap

/-- `reg_mprj_xfer`. -/
def regMprjXfer : BitVec 32 := 0x26000000#32

/-- A word access to `reg_mprj_xfer`, up to its acknowledge. The clock after `wait` leaves the
access state of byte 0. -/
structure XferAccess (s : Housekeeping) (wait rest : List Event) : Prop where
  access : AccessRun s (wait ++ .wbClk :: rest)
  held : ∀ e ∈ wait ++ .wbClk :: rest, e.Held
  adr : s.bus.adr = regMprjXfer
  byteZero : (run step s (.wbClk :: wait)).wbbd.state = .rw 0

/-- Bits 1 to 4 of register `0x13`. -/
structure ControlClear (r : RegisterMap.Registers) : Prop where
  enable : r.serialBbEnable = false
  resetn : r.serialBbResetn = false
  load : r.serialBbLoad = false
  clock : r.serialBbClock = false

/-- Besides the busy flag, register `0x13` reads zero. -/
structure DataLow (s : Housekeeping) : Prop where
  control : ControlClear s.regs
  data1 : s.loader.serialDataStaging1.getLsbD 12 = false
  data2 : s.loader.serialDataStaging2.getLsbD 12 = false

/-! ## One read -/

theorem spiaddr_regMprjXfer :
    spiaddr (regMprjXfer + BitVec.ofNat 32 (0 : Fin 4)) = 0x13#8 ∧
      spiaddr (regMprjXfer + BitVec.ofNat 32 (1 : Fin 4)) = 0x00#8 ∧
      spiaddr (regMprjXfer + BitVec.ofNat 32 (2 : Fin 4)) = 0x00#8 ∧
      spiaddr (regMprjXfer + BitVec.ofNat 32 (3 : Fin 4)) = 0x00#8 := by
  decide

section Access

variable {s : Housekeeping} {wait rest : List Event}

/-- The bus is the one of the acceptance in every lane. -/
theorem XferAccess.laneAddr_eq (h : XferAccess s wait rest) (lane : Fin 4) :
    laneAddr s.bus lane = spiaddr (regMprjXfer + BitVec.ofNat 32 lane) := by
  rw [laneAddr, h.adr]

/-- When byte 0 is sampled, its edge is being made and all four edges are still to come. -/
theorem XferAccess.sampled (h : XferAccess s wait rest) :
    (run step s (.wbClk :: wait)).OutOfReset ∧
      (∃ x, (run step s (.wbClk :: wait)).backDoorEdges .wbClk = [x]) ∧
      (trace step backDoorEdges (run step s (.wbClk :: wait)) (.wbClk :: rest)).length = 4 := by
  obtain ⟨hacc, -⟩ := inAccess_accept h.access.outOfReset h.access.idle h.access.request
  have hrst := h.access.outOfReset.step (e := .wbClk) trivial
  have hrunning := List.forall_mem_append.1 h.access.running
  obtain ⟨hwait, hwait'⟩ := (along_append _ _ _ _ _).1 h.access.waiting
  obtain ⟨pending, hin⟩ := (inAccess_along hrst hrunning.1 hacc hwait).last
  have hstate : (run step (s.step .wbClk) wait).wbbd.state = .rw 0 := h.byteZero
  have hrst' := (hrst.always hrunning.1).last
  have hack := h.access.acked
  rw [run, run_append] at hack
  obtain ⟨hlanes, hall, -⟩ := access_run hrst' hrunning.2 hin hwait' hack
  unfold InAccess at hin
  simp only [hstate] at hin
  obtain ⟨bus, rfl, -, hbusy, hsck, -⟩ := hin
  refine ⟨hrst', ⟨_, backDoorEdges_rw hrst' hstate hbusy hsck⟩, ?_⟩
  rw [run, ← hall.length_eq, ← List.length_map (f := Prod.fst), hlanes, hstate]
  rfl

/-- The four edges of the access, the first of them at the sample of byte 0. -/
theorem XferAccess.edges (h : XferAccess s wait rest) :
    ∃ x₀ x₁ x₂ x₃,
      trace step backDoorEdges s (.wbClk :: (wait ++ .wbClk :: rest)) = [x₀, x₁, x₂, x₃] ∧
        (run step s (.wbClk :: wait)).backDoorEdges .wbClk = [x₀] ∧
        IsLane (run step s (.wbClk :: (wait ++ .wbClk :: rest))).wbbd.datO (0, s.bus) x₀ ∧
        ∀ lane : Fin 4, lane ≠ 0 → ∃ x ∈ [x₁, x₂, x₃],
          IsLane (run step s (.wbClk :: (wait ++ .wbClk :: rest))).wbbd.datO (lane, s.bus) x := by
  obtain ⟨x₀, x₁, x₂, x₃, hedges, h₀, h₁, h₂, h₃⟩ := h.access.four_edges h.held
  obtain ⟨-, ⟨x, hfirst⟩, hlength⟩ := h.sampled
  have hsplit : trace step backDoorEdges s (.wbClk :: (wait ++ .wbClk :: rest)) =
      trace step backDoorEdges s (.wbClk :: wait) ++
        trace step backDoorEdges (run step s (.wbClk :: wait)) (.wbClk :: rest) := by
    rw [← List.cons_append, trace_append]
  have hnone : trace step backDoorEdges s (.wbClk :: wait) = [] := by
    apply List.eq_nil_of_length_eq_zero
    have htotal := congrArg List.length (hsplit.symm.trans hedges)
    rw [List.length_append, hlength] at htotal
    simpa using htotal
  rw [hnone, List.nil_append, hedges, trace, hfirst, List.singleton_append, List.cons.injEq]
    at hsplit
  refine ⟨x₀, x₁, x₂, x₃, hedges, ?_, h₀, fun lane hlane ↦ ?_⟩
  · rw [hfirst, hsplit.1]
  · have hlanes : ∀ lane : Fin 4, lane ≠ 0 → lane = 1 ∨ lane = 2 ∨ lane = 3 := by decide
    rcases hlanes lane hlane with rfl | rfl | rfl
    · exact ⟨x₁, by simp, h₁⟩
    · exact ⟨x₂, by simp, h₂⟩
    · exact ⟨x₃, by simp, h₃⟩

theorem registerEdges_of_backDoorEdges {t : Housekeeping} {e : Event} {x : RegisterEdge}
    (h : t.backDoorEdges e = [x]) : t.registerEdges e = [x] := by
  have hmem : x ∈ t.registerEdges e := List.mem_of_mem_filter (h ▸ List.mem_singleton_self x)
  rcases registerEdges_cases t e with hnone | ⟨y, hone⟩
  · simp [hnone] at hmem
  · rw [hone] at hmem ⊢
    rw [List.mem_singleton.1 hmem]

/-- The word read is register `0x13` as it is when byte 0 is sampled, above it zeros. -/
theorem XferAccess.read (h : XferAccess s wait rest) :
    (run step s (.wbClk :: (wait ++ .wbClk :: rest))).wbbd.datO =
      ((run step s (.wbClk :: wait)).fdata 0x13#8).setWidth 32 := by
  obtain ⟨x₀, x₁, x₂, x₃, hedges, hfirst, h₀, hothers⟩ := h.edges
  obtain ⟨ha₀, ha₁, ha₂, ha₃⟩ := spiaddr_regMprjXfer
  have hbefore : x₀.before = (run step s (.wbClk :: wait)).fdata 0x13#8 := by
    have hmem := registerEdges_of_backDoorEdges hfirst
    rw [before_eq (hmem ▸ List.mem_singleton_self x₀), h₀.caddr, h.laneAddr_eq]
    exact congrArg _ ha₀
  have hzero : ∀ x ∈ trace step backDoorEdges s (.wbClk :: (wait ++ .wbClk :: rest)),
      x.caddr = 0x00#8 → x.before = 0x00#8 := by
    rw [forall_mem_trace_iff]
    refine (along_of_forall (E := fun _ ↦ True) fun _ _ ↦ trivial).mono fun t e _ x hx haddr ↦ ?_
    rw [before_eq (List.mem_of_mem_filter hx), haddr, fdata_zero]
  have hupper : ∀ lane : Fin 4, lane ≠ 0 → spiaddr (regMprjXfer + BitVec.ofNat 32 lane) = 0x00#8 →
      (run step s (.wbClk :: (wait ++ .wbClk :: rest))).wbbd.datO.extractLsb' (8 * lane) 8 =
        0x00#8 := by
    intro lane hlane haddr
    obtain ⟨x, hx, hlaneEdge⟩ := hothers lane hlane
    rw [hlaneEdge.read]
    refine hzero x ?_ (by rw [hlaneEdge.caddr, h.laneAddr_eq, haddr])
    rw [hedges]
    exact List.mem_cons_of_mem _ hx
  apply eq_of_bytes
  intro byte
  match byte with
  | 0 =>
    calc
      (run step s (.wbClk :: (wait ++ .wbClk :: rest))).wbbd.datO.extractLsb' 0 8
      _ = (run step s (.wbClk :: wait)).fdata 0x13#8 := h₀.read.trans hbefore
      _ = ((run step s (.wbClk :: wait)).fdata 0x13#8).extractLsb' 0 8 :=
        BitVec.extractLsb'_eq_self.symm
      _ = _ := low_byte _
  | 1 =>
    rw [hupper 1 (by decide) ha₁]
    exact upper_byte _ (by decide)
  | 2 =>
    rw [hupper 2 (by decide) ha₂]
    exact upper_byte _ (by decide)
  | 3 =>
    rw [hupper 3 (by decide) ha₃]
    exact upper_byte _ (by decide)

theorem byteOf_eq_one : ∀ data2 data1 clock load resetn enable : Bool,
    byteOf false data2 data1 clock load resetn enable true = 0x01#8 ↔
      (enable = false ∧ resetn = false ∧ load = false ∧ clock = false) ∧ data1 = false ∧
        data2 = false := by
  decide

/-- While the loader is busy, register `0x13` is one exactly when everything else in it is zero. -/
theorem fdata_eq_one_iff {t : Housekeeping} (hbusy : t.loader.serialBusy = true) :
    t.fdata 0x13#8 = 0x01#8 ↔ DataLow t := by
  have hread : t.fdata 0x13#8 =
      byteOf false t.serialData2 t.serialData1 t.regs.serialBbClock t.regs.serialBbLoad
        t.regs.serialBbResetn t.regs.serialBbEnable true := by
    rw [← hbusy]
    rfl
  have hlines : t.regs.serialBbEnable = false →
      t.serialData1 = t.loader.serialDataStaging1.getLsbD 12 ∧
        t.serialData2 = t.loader.serialDataStaging2.getLsbD 12 := by
    intro henable
    simp [Housekeeping.serialData1, Housekeeping.serialData2, RegisterMap.serialData1,
      RegisterMap.serialData2, henable, nets]
  rw [hread, byteOf_eq_one]
  constructor
  · rintro ⟨⟨henable, hresetn, hload, hclock⟩, hdata1, hdata2⟩
    obtain ⟨hline1, hline2⟩ := hlines henable
    exact ⟨⟨henable, hresetn, hload, hclock⟩, hline1 ▸ hdata1, hline2 ▸ hdata2⟩
  · rintro ⟨⟨henable, hresetn, hload, hclock⟩, hdata1, hdata2⟩
    obtain ⟨hline1, hline2⟩ := hlines henable
    exact ⟨⟨henable, hresetn, hload, hclock⟩, hline1.trans hdata1, hline2.trans hdata2⟩

theorem setWidth_eq_one_iff (byte : BitVec 8) : byte.setWidth 32 = 1#32 ↔ byte = 0x01#8 := by
  have hlt := byte.isLt
  rw [← BitVec.toNat_inj, ← BitVec.toNat_inj, BitVec.toNat_setWidth, Nat.mod_eq_of_lt (by omega)]
  rfl

/-- A word of one written to `reg_mprj_xfer` requests a transfer and clears the control bits. -/
theorem XferAccess.write (h : XferAccess s wait rest) (hwe : s.bus.we = true)
    (hsel : s.bus.sel.getLsbD 0 = true) (hdat : s.bus.dat = 1#32) :
    (run step s (.wbClk :: (wait ++ [.wbClk]))).regs.serialXfer = true ∧
      ControlClear (run step s (.wbClk :: (wait ++ [.wbClk]))).regs := by
  obtain ⟨x₀, _, _, _, _, hfirst, h₀, _⟩ := h.edges
  have hlast : run step s (.wbClk :: (wait ++ [.wbClk])) =
      (run step s (.wbClk :: wait)).step .wbClk := by
    rw [← List.cons_append, run_append]
    rfl
  obtain ⟨hrst, -, -⟩ := h.sampled
  have hstrobe : laneWrite s.bus 0 = true := by
    rw [laneWrite, hwe, Bool.and_true]
    exact hsel
  have hrow : writeRow (laneAddr s.bus 0) = .gpioControl := by
    rw [h.laneAddr_eq]
    rfl
  have hdata : laneData s.bus 0 = 0x01#8 := by
    rw [laneData, hdat]
    rfl
  have hregs := calc
    (run step s (.wbClk :: (wait ++ [.wbClk]))).regs
    _ = x₀.apply (run step s (.wbClk :: wait)).regs := by
      rw [hlast, step_regs (hrst.step (e := .wbClk) trivial).2,
        registerEdges_of_backDoorEdges hfirst]
      rfl
    _ = Row.gpioControl.write (run step s (.wbClk :: wait)).regs 0x01#8 x₀.spiIsActive := by
      rw [h₀.apply_of_strobed hstrobe, hrow, hdata]
  rw [hregs]
  exact ⟨rfl, rfl, rfl, rfl, rfl⟩

end Access

/-! ## The clocks of a transfer -/

/-- The number of the word under way, `clocks` clocks after the one that samples the request. -/
def wordAt (clocks : ℕ) : ℕ := min ((clocks - 1) / 26) 18

/-- The bit of that word on the data lines, counted from the most significant one. -/
def bitAt (clocks : ℕ) : ℕ := min ((clocks - 1 - 26 * wordAt clocks) / 2) 12

/-- The loader, a number of clocks after the one that samples the request. -/
inductive Sending (cfg : Fin 38 → BitVec 13) : ℕ → SerialLoader.Registers → Prop
  | low {word bit : ℕ} (hword : word ≤ 18) (hbit : bit ≤ 12) :
    Sending cfg (26 * word + 2 * bit + 1) (atBit cfg word bit)
  | high {word bit : ℕ} (hword : word ≤ 18) (hbit : bit < 12) :
    Sending cfg (26 * word + 2 * bit + 2) (raised cfg word bit)
  | done {word : ℕ} (hword : word ≤ 18) : Sending cfg (26 * word + 26) (wordDone cfg word)
  | load {count : ℕ} (hfirst : 1 ≤ count) (hlast : count ≤ 2) :
    Sending cfg (494 + count) (loading cfg count)

section Clocks

variable {cfg : Fin 38 → BitVec 13} {clocks : ℕ} {l : SerialLoader.Registers}
  {r : RegisterMap.Registers} {s : Housekeeping} {es : List Event}

theorem Sending.next (h : Sending cfg clocks l) (hr : Quiet cfg r) (hclocks : clocks < 496) :
    Sending cfg (clocks + 1) (SerialLoader.next l r) := by
  cases h with
  | @low word bit hword hbit =>
    rcases Nat.lt_or_eq_of_le hbit with hbit | rfl
    · rw [next_atBit hr.bb word hbit]
      exact .high hword hbit
    · rw [next_atBit_last hr.bb hword]
      exact .done hword
  | @high word bit hword hbit =>
    rw [next_raised hr.bb]
    exact .low hword hbit
  | @done word hword =>
    rcases Nat.lt_or_eq_of_le hword with hword | rfl
    · rw [next_wordDone (hr.stages _) hword]
      exact .low hword (Nat.zero_le _)
    · exact .load le_rfl (by omega)
  | @load count hfirst hlast =>
    obtain rfl : count = 1 := by omega
    exact .load (by omega) le_rfl

/-- What the loader shows of the configuration. -/
theorem Sending.shows (h : Sending cfg clocks l) :
    l.serialBusy = true ∧
      l.serialDataStaging1.getLsbD 12 =
        (configWord cfg (18 - wordAt clocks)).getMsbD (bitAt clocks) ∧
      l.serialDataStaging2.getLsbD 12 =
        (configWord cfg (19 + wordAt clocks)).getMsbD (bitAt clocks) := by
  have hshows : ∀ word bit, word ≤ 18 → bit ≤ 12 → wordAt clocks = word → bitAt clocks = bit →
      (shiftOut (configWord cfg (18 - word)) bit).getLsbD 12 =
          (configWord cfg (18 - wordAt clocks)).getMsbD (bitAt clocks) ∧
        (shiftOut (configWord cfg (19 + word)) bit).getLsbD 12 =
          (configWord cfg (19 + wordAt clocks)).getMsbD (bitAt clocks) := by
    rintro word bit - hbit rfl rfl
    exact ⟨getLsbD_shiftOut_top _ _ (by omega), getLsbD_shiftOut_top _ _ (by omega)⟩
  cases h with
  | @low word bit hword hbit =>
    have hat : wordAt (26 * word + 2 * bit + 1) = word := by simp only [wordAt]; omega
    exact ⟨rfl, hshows word bit hword hbit hat (by simp only [bitAt, hat]; omega)⟩
  | @high word bit hword hbit =>
    have hat : wordAt (26 * word + 2 * bit + 2) = word := by simp only [wordAt]; omega
    exact ⟨rfl, hshows word bit hword hbit.le hat (by simp only [bitAt, hat]; omega)⟩
  | @done word hword =>
    have hat : wordAt (26 * word + 26) = word := by simp only [wordAt]; omega
    exact ⟨rfl, hshows word 12 hword le_rfl hat (by simp only [bitAt, hat]; omega)⟩
  | @load count hfirst hlast =>
    have hat : wordAt (494 + count) = 18 := by simp only [wordAt]; omega
    exact ⟨rfl, hshows 18 12 le_rfl le_rfl hat (by simp only [bitAt, hat]; omega)⟩

/-- Power is good and the loader is quiet with the configuration `cfg`. -/
def Steady (cfg : Fin 38 → BitVec 13) (s : Housekeeping) : Prop :=
  s.porb = true ∧ Quiet cfg s.regs

theorem sending_run (h : Sending cfg clocks s.loader)
    (hrun : Always step (Steady cfg) s es)
    (hclocks : clocks + es.count .wbClk ≤ 496) :
    Sending cfg (clocks + es.count .wbClk) (run step s es).loader := by
  induction es generalizing s clocks with
  | nil => exact h
  | cons e rest ih =>
    by_cases he : e = .wbClk
    · subst he
      rw [List.count_cons_self] at hclocks ⊢
      have hnext : Sending cfg (clocks + 1) (s.step .wbClk).loader := by
        rw [loader_step_wbClk hrun.1.1]
        exact h.next hrun.1.2 (by omega)
      have hall := ih hnext hrun.2 (by omega)
      rwa [Nat.add_assoc, Nat.add_comm 1] at hall
    · rw [List.count_cons_of_ne he] at hclocks ⊢
      have hnext : Sending cfg clocks (s.step e).loader := by
        rw [loader_step_of_ne_wbClk he hrun.2.head.1]
        exact h
      exact ih hnext hrun.2 hclocks

/-- Without a clock the loader holds still. -/
theorem loader_run_of_no_clock (hclock : .wbClk ∉ es)
    (hrun : Always step (Steady cfg) s es) :
    (run step s es).loader = s.loader := by
  induction es generalizing s with
  | nil => rfl
  | cons e rest ih =>
    rw [List.mem_cons, not_or] at hclock
    rw [run, ih hclock.2 hrun.2,
      loader_step_of_ne_wbClk (Ne.symm hclock.1) hrun.2.head.1]

/-- The clock after the one that samples the request stages the first words. -/
theorem sending_of_started (hstart : ∃ l, s.loader = SerialLoader.idleStep l true)
    (hrun : Always step (Steady cfg) s es) (hpos : 1 ≤ es.count .wbClk)
    (hclocks : es.count .wbClk ≤ 496) :
    Sending cfg (es.count .wbClk) (run step s es).loader := by
  induction es generalizing s with
  | nil => simp at hpos
  | cons e rest ih =>
    obtain ⟨l, hl⟩ := hstart
    by_cases he : e = .wbClk
    · subst he
      rw [List.count_cons_self] at hclocks ⊢
      have hfirst : (s.step .wbClk).loader = atBit cfg 0 0 := by
        rw [loader_step_wbClk hrun.1.1, hl]
        simp [SerialLoader.next, SerialLoader.idleStep, SerialLoader.startStep,
          hrun.1.2.configureAt, atBit, shiftOut_zero]
      have hsending : Sending cfg 1 (s.step .wbClk).loader := by
        rw [hfirst]
        exact .low (Nat.zero_le _) (Nat.zero_le _)
      have hall := sending_run hsending hrun.2 (by omega)
      rwa [Nat.add_comm 1] at hall
    · rw [List.count_cons_of_ne he] at hpos hclocks ⊢
      exact ih ⟨l, (loader_step_of_ne_wbClk he hrun.2.head.1).trans hl⟩ hrun.2 hpos hclocks

/-! ## The control bits -/

theorem ControlClear.write (h : ControlClear r) {row : Row} (hrow : row ≠ .gpioControl)
    (cdata : BitVec 8) (spiIsActive : Bool) : ControlClear (row.write r cdata spiIsActive) := by
  obtain ⟨henable, hresetn, hload, hclock⟩ := h
  cases row with
  | gpioControl => exact absurd rfl hrow
  | gpioDataByte byte =>
    obtain ⟨data, buf, hwrite⟩ := write_gpioDataByte r cdata spiIsActive byte
    rw [hwrite]
    exact ⟨henable, hresetn, hload, hclock⟩
  | _ => exact ⟨henable, hresetn, hload, hclock⟩

theorem ControlClear.foldl (h : ControlClear r) {edges : List RegisterEdge}
    (hedges : ∀ x ∈ edges, x.cwstb = true → x.caddr ≠ 0x13#8) :
    ControlClear (edges.foldl RegisterEdge.apply r) := by
  induction edges generalizing r with
  | nil => exact h
  | cons x rest ih =>
    rw [List.forall_mem_cons] at hedges
    refine ih ?_ hedges.2
    rw [RegisterEdge.apply, posedgeCsclk]
    split
    · next hstrobe =>
      exact h.write (fun hrow ↦ hedges.1 hstrobe ((writeRow_eq_gpioControl_iff _).1 hrow)) _ _
    · exact ⟨h.enable, h.resetn, h.load, h.clock⟩

/-- The control bits stay clear while nothing else is written to register `0x13`. -/
theorem ControlClear.always (h : ControlClear s.regs)
    (hporb : Always step (fun t ↦ t.porb = true) s es)
    (hedges : ∀ x ∈ trace step registerEdges s es,
      x.cwstb = true → x.caddr ≠ 0x13#8) :
    Always step (fun t ↦ ControlClear t.regs) s es := by
  rw [forall_mem_trace_iff] at hedges
  refine always_of_invariant ?_ h (hporb.along.and hedges)
  rintro t e ht ⟨⟨-, hporb'⟩, hquiet⟩
  rw [step_regs hporb']
  exact ht.foldl hquiet

end Clocks

/-- What register `0x13` shows at a number of clocks after a request that finds the control bits
clear. -/
theorem shown_of_requested {cfg : Fin 38 → BitVec 13} {s : Housekeeping} {gap es : List Event}
    (hidle : s.loader.xferState = .idle) (hcontrol : ControlClear s.regs)
    (hgap : .wbClk ∉ gap) (hxfer : (run step s gap).regs.serialXfer = true)
    (hrun : Always step (fun t ↦ t.porb = true ∧ t.regs.gpioConfigure = cfg) s
      (gap ++ .wbClk :: es))
    (hedges : ∀ x ∈ trace step registerEdges s (gap ++ .wbClk :: es),
      x.cwstb = true → x.caddr ≠ 0x13#8)
    (hpos : 1 ≤ es.count .wbClk) (hclocks : es.count .wbClk ≤ 496) :
    ControlClear (run step s (gap ++ .wbClk :: es)).regs ∧
      Sending cfg (es.count .wbClk) (run step s (gap ++ .wbClk :: es)).loader := by
  have hclear := hcontrol.always (hrun.mono fun _ h ↦ h.1) hedges
  have hsteady : Always step (Steady cfg) s (gap ++ .wbClk :: es) :=
    (hrun.and hclear).mono fun _ h ↦ ⟨h.1.1, h.2.enable, h.1.2⟩
  refine ⟨hclear.last, ?_⟩
  obtain ⟨hbefore, hafter⟩ := (always_append _ _ _ _ _).1 hsteady
  have hstart : ((run step s gap).step .wbClk).loader =
      SerialLoader.idleStep s.loader true := by
    rw [loader_step_wbClk hafter.1.1, loader_run_of_no_clock hgap hbefore, SerialLoader.next, hidle,
      hxfer]
  rw [run_append]
  exact sending_of_started ⟨_, hstart⟩ hafter.2 hpos hclocks

/-- **What the wait loop reads.** A word access of `reg_mprj_xfer` whose byte 0 is sampled while the
loader is busy returns one exactly if the control bits and both serial data lines are zero there. If
a word of one was written with the loader idle, and neither the configuration nor register `0x13`
was written since, then from the second to the 497th clock of the transfer this is so exactly if the
two configuration bits that the number of clocks names are zero. -/
theorem wait_loop_reads_one_iff (s : Housekeeping) (wait rest : List Event)
    (h : XferAccess s wait rest)
    (hbusy : (run step s (.wbClk :: wait)).loader.serialBusy = true) :
    ((run step s (.wbClk :: (wait ++ .wbClk :: rest))).wbbd.datO = 1#32 ↔
        DataLow (run step s (.wbClk :: wait))) ∧
      ∀ (cfg : Fin 38 → BitVec 13) (start : Housekeeping) (wait' rest' gap es : List Event),
        XferAccess start wait' rest' → start.bus.we = true → start.bus.sel.getLsbD 0 = true →
        start.bus.dat = 1#32 →
        let written := run step start (.wbClk :: (wait' ++ [.wbClk]))
        written.loader.xferState = .idle →
        .wbClk ∉ gap → (run step written gap).regs.serialXfer = true →
        run step s (.wbClk :: wait) =
          run step written (gap ++ .wbClk :: es) →
        Always step (fun t ↦ t.porb = true ∧ t.regs.gpioConfigure = cfg) written
          (gap ++ .wbClk :: es) →
        (∀ x ∈ trace step registerEdges written (gap ++ .wbClk :: es),
          x.cwstb = true → x.caddr ≠ 0x13#8) →
        1 ≤ es.count .wbClk → es.count .wbClk ≤ 496 →
          let clocks := es.count .wbClk
          (DataLow (run step s (.wbClk :: wait)) ↔
            (configWord cfg (18 - wordAt clocks)).getMsbD (bitAt clocks) = false ∧
              (configWord cfg (19 + wordAt clocks)).getMsbD (bitAt clocks) = false) := by
  constructor
  · rw [h.read, setWidth_eq_one_iff]
    exact fdata_eq_one_iff hbusy
  · intro cfg start wait' rest' gap es hwrite hwe hsel hdat written hidle hgap hxfer hsampled hrun
      hedges hpos hclocks
    obtain ⟨hcontrol, hsending⟩ :=
      shown_of_requested hidle (hwrite.write hwe hsel hdat).2 hgap hxfer hrun hedges hpos hclocks
    obtain ⟨-, hdata1, hdata2⟩ := hsending.shows
    rw [hsampled]
    refine ⟨fun hlow ↦ ⟨?_, ?_⟩, fun hbits ↦ ⟨hcontrol, ?_, ?_⟩⟩
    · exact hdata1.symm.trans hlow.data1
    · exact hdata2.symm.trans hlow.data2
    · exact hdata1.trans hbits.1
    · exact hdata2.trans hbits.2

/-- The word access of the loop. -/
def xferExample (we : Bool) : Bus where
  adr := regMprjXfer
  dat := 1#32
  sel := 0b1111#4
  we := we
  cyc := true
  stb := true

/-- After the acknowledge of the write, `idle` clocks pass until the first read. -/
def pollExample (idle : ℕ) : List Event :=
  List.replicate 6 .wbClk ++ [.wishbone default] ++ List.replicate idle .wbClk ++
    [.wishbone (xferExample false)]

theorem xferAccess_write :
    XferAccess (released 0x8#38 (xferExample true)) [.wbClk] (List.replicate 6 .wbClk) where
  access :=
    { outOfReset := by decide
      idle := by decide
      request := by decide
      running := by decide
      waiting := by decide
      acked := by decide }
  held := by decide
  adr := rfl
  byteZero := by decide

/-- The state after byte 0 of the write. -/
def writtenExample : Housekeeping :=
  run step (released 0x8#38 (xferExample true)) [.wbClk, .wbClk, .wbClk]

set_option maxRecDepth 10000 in
theorem xferAccess_read :
    ∀ idle ∈ [1, 16], XferAccess (run step writtenExample (pollExample idle))
      [.wbClk] (List.replicate 6 .wbClk) := by
  intro idle hidle
  simp only [List.mem_cons, List.not_mem_nil, or_false] at hidle
  refine ⟨⟨?_, ?_, ?_, ?_, ?_, ?_⟩, ?_, ?_, ?_⟩
  all_goals rcases hidle with rfl | rfl <;> decide

theorem wait_loop_reads_one_iff_example :
    (run step (run step writtenExample (pollExample 1))
      (.wbClk :: ([.wbClk] ++ .wbClk :: List.replicate 6 .wbClk))).wbbd.datO = 1#32 := by
  obtain ⟨hread, hshown⟩ := wait_loop_reads_one_iff _ _ _ (xferAccess_read 1 (by decide))
    (by decide)
  have hsampled : run step (run step writtenExample (pollExample 1))
      [.wbClk, .wbClk] = run step writtenExample
        ([] ++ .wbClk :: ((pollExample 1).tail ++ [.wbClk, .wbClk])) := by
    rw [← run_append]
    rfl
  refine hread.2 ((hshown resetRegisters.gpioConfigure _ _ _ [] _ xferAccess_write rfl rfl rfl
    (by decide) (by decide) (by decide) hsampled (by decide) (by decide) (by decide)
    (by decide)).2 ?_)
  decide

/-- The loop `while (reg_mprj_xfer == 1)` can exit before the load strobe. -/
theorem wait_loop_exits_early :
    ¬∀ (s : Housekeeping) (wait rest later wait' rest' : List Event),
      XferAccess s wait rest → s.bus.we = true → s.bus.sel = 0b1111#4 → s.bus.dat = 1#32 →
      let written := run step s (.wbClk :: (wait ++ [.wbClk]))
      written.loader.xferState = .idle →
      let polled := run step written later
      XferAccess polled wait' rest' → polled.bus.we = false →
      Always step (fun t ↦ t.OutOfReset ∧ t.regs.serialBbEnable = false) written
        (later ++ .wbClk :: wait') →
      (run step polled (.wbClk :: wait')).loader.serialBusy = true →
        (run step polled (.wbClk :: (wait' ++ .wbClk :: rest'))).wbbd.datO = 1#32 := by
  intro h
  have hread := h (released 0x8#38 (xferExample true)) [.wbClk] (List.replicate 6 .wbClk)
    (pollExample 16) [.wbClk] (List.replicate 6 .wbClk) xferAccess_write rfl rfl rfl (by decide)
    (xferAccess_read 16 (by decide)) (by decide) (by decide) (by decide)
  revert hread
  decide

end CaravelSoc.Transfer
