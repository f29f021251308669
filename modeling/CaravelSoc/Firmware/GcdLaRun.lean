import CaravelSoc.Firmware.GcdLa
import Mathlib.Tactic.IntervalCases

/-!
# The test passes

The window in which the user project loads the operands is open from the sixth write of
a row to the thirteenth. A computation takes 47 clocks at most, since operands of 32
bits are less than the 48th Fibonacci number, and so the computation of one row is over
before the window of the next row closes. From there on the result is on its way to the
processor, and fourteen polls take longer than that.
-/

open Sequential

namespace CaravelSoc.Firmware

open Management
open User (SeqGcd)

/-- What the unit has to find. -/
def TestVector.gcd (v : TestVector) : BitVec 32 := BitVec.ofNat 32 (Nat.gcd v.a.toNat v.b.toNat)

theorem expect_of_vectors : ∀ v ∈ vectors, v.expect = v.gcd := by decide +kernel

/-! ## The unit -/

/-- The clocks up to the end of a computation. -/
def busyClocks (u : SeqGcd) : ℕ := if u.cs then divisions u.aQ.toNat u.bQ.toNat + 1 else 0

/-- The unit shows `g`, or it will. -/
def Computes (u : SeqGcd) (g : BitVec 32) : Prop :=
  if u.cs then BitVec.ofNat 32 (Nat.gcd u.aQ.toNat u.bQ.toNat) = g else u.gcdO = g

section Unit

variable {u : SeqGcd} {g : BitVec 32} (byZero : BitVec 32 → BitVec 32)
  {laWriteA laWriteB : BitVec 32} (aI bI : BitVec 32)

theorem busyClocks_le (u : SeqGcd) : busyClocks u ≤ 47 := by
  have hdivisions : divisions u.aQ.toNat u.bQ.toNat ≤ 46 := by
    apply divisions_le_of_lt_fib
    exact Nat.lt_of_lt_of_le u.bQ.isLt (by decide)
  rw [busyClocks]
  split <;> omega

theorem Computes.gcdO (h : Computes u g) (hidle : u.cs = false) : u.gcdO = g := by
  rwa [Computes, hidle, if_neg (by decide)] at h

theorem busyClocks_of_idle (h : u.cs = false) : busyClocks u = 0 := by
  rw [busyClocks, h, if_neg (by decide)]

theorem busyClocks_pos (h : u.cs = true) : 0 < busyClocks u := by
  rw [busyClocks, if_pos h]
  exact Nat.succ_pos _

/-- A busy unit comes one clock nearer to its result. -/
theorem Computes.step_busy (h : Computes u g) (hbusy : u.cs = true) :
    Computes (u.clockEdge byZero laWriteA laWriteB aI bI) g ∧
      busyClocks (u.clockEdge byZero laWriteA laWriteB aI bI) + 1 = busyClocks u ∧
      ((u.clockEdge byZero laWriteA laWriteB aI bI).gcdO = u.gcdO ∨
        (u.clockEdge byZero laWriteA laWriteB aI bI).gcdO = g) := by
  rw [Computes, if_pos hbusy] at h
  by_cases hb : u.bQ = 0#32
  · have hdone := SeqGcd.clockEdge_of_done byZero laWriteA laWriteB aI bI hbusy hb
    have hgcd : u.aQ = g := by
      rw [← h, hb, BitVec.toNat_zero, Nat.gcd_zero_right, BitVec.ofNat_toNat, BitVec.setWidth_eq]
    rw [Computes, busyClocks_of_idle hdone.1, busyClocks, if_pos hbusy, hb, BitVec.toNat_zero,
      divisions_zero, hdone.1, hdone.2, hgcd]
    exact ⟨rfl, rfl, .inr rfl⟩
  · have hb' : u.bQ.toNat ≠ 0 := fun hzero ↦ hb (BitVec.eq_of_toNat_eq hzero)
    have hgcd : Nat.gcd u.aQ.toNat u.bQ.toNat =
        Nat.gcd u.bQ.toNat (u.aQ.toNat % u.bQ.toNat) := by
      rw [Nat.gcd_comm, Nat.gcd_rec, Nat.gcd_comm]
    rw [SeqGcd.clockEdge_of_divisor byZero laWriteA laWriteB aI bI hbusy hb, Computes, busyClocks,
      busyClocks, if_pos hbusy, if_pos hbusy, if_pos hbusy, BitVec.toNat_umod,
      divisions_of_ne_zero hb', ← hgcd]
    exact ⟨h, rfl, .inl rfl⟩

/-- An idle unit that loads nothing stays as it is. -/
theorem clockEdge_of_idle (hidle : u.cs = false)
    (hload : SeqGcd.laLoad laWriteA laWriteB = false) :
    (u.clockEdge byZero laWriteA laWriteB aI bI).cs = false ∧
      (u.clockEdge byZero laWriteA laWriteB aI bI).gcdO = u.gcdO := by
  simp [SeqGcd.clockEdge, SeqGcd.computeNS, hidle, hload]

/-- A unit that loads nothing, busy or idle. -/
theorem Computes.step_closed (h : Computes u g)
    (hload : SeqGcd.laLoad laWriteA laWriteB = false) :
    Computes (u.clockEdge byZero laWriteA laWriteB aI bI) g ∧
      busyClocks (u.clockEdge byZero laWriteA laWriteB aI bI) = busyClocks u - 1 ∧
      ((u.clockEdge byZero laWriteA laWriteB aI bI).gcdO = u.gcdO ∨
        (u.clockEdge byZero laWriteA laWriteB aI bI).gcdO = g) := by
  cases hcs : u.cs with
  | true =>
    obtain ⟨hnext, hclocks, hshown⟩ := h.step_busy byZero aI bI hcs
    exact ⟨hnext, by omega, hshown⟩
  | false =>
    obtain ⟨hidle, hkept⟩ := clockEdge_of_idle byZero aI bI hcs hload
    rw [Computes, hidle, hkept, busyClocks_of_idle hidle, busyClocks_of_idle hcs]
    exact ⟨h.gcdO hcs, rfl, .inl rfl⟩

/-- An idle unit that loads. -/
theorem Computes.step_load (h : Computes u g) (hidle : u.cs = false)
    (hload : SeqGcd.laLoad laWriteA laWriteB = true) :
    Computes (u.clockEdge byZero laWriteA laWriteB aI bI)
        (BitVec.ofNat 32 (Nat.gcd aI.toNat bI.toNat)) ∧
      (u.clockEdge byZero laWriteA laWriteB aI bI).gcdO = g := by
  rw [SeqGcd.clockEdge_of_load byZero laWriteA laWriteB aI bI hidle hload, Computes, if_pos rfl]
  exact ⟨rfl, h.gcdO hidle⟩

end Unit

/-! ## The place in the body -/

/-- The clocks from the access at a place up to the one that closes the window, at the least. -/
def closeClocks (k : ℕ) : ℕ :=
  if k ≤ 9 then 35 - 3 * k
  else if k ≤ 10 then 5
  else if k ≤ 11 then 3
  else if k ≤ 12 then 0
  else if k ≤ 16 then 87 - 3 * k
  else 71 - 2 * k

/-- What the unit is at while the access at place `k` is the next one and the window does not close
before `left` clocks: it still computes for the row before, or it has loaded the operands. -/
def UnitAt (g next : BitVec 32) (k left : ℕ) (u : SeqGcd) : Prop :=
  k ≤ 12 ∧ Computes u g ∧ busyClocks u ≤ left ∨
  6 ≤ k ∧ Computes u next ∧ (u.gcdO = g ∨ u.gcdO = next) ∧ (13 ≤ k → busyClocks u ≤ left)

/-- The registers of the logic analyzer while the access at place `k` is the next one. -/
structure ProbesAt (v : TestVector) (k : ℕ) (storage : Registers) : Prop where
  a : 1 ≤ k → GcdLa.laOut storage 0 = v.a
  b : 2 ≤ k → GcdLa.laOut storage 1 = v.b
  oe0 : GcdLa.laOe storage 0 = if 4 ≤ k ∧ k ≤ 12 then 0xFFFFFFFF#32 else 0#32
  oe1 : GcdLa.laOe storage 1 = if 6 ≤ k ∧ k ≤ 14 then 0xFFFFFFFF#32 else 0#32
  oe2 : GcdLa.laOe storage 2 = 0#32

section Place

variable {g next : BitVec 32} {v : TestVector} {k k' left left' : ℕ} {u : SeqGcd}
  {storage : Registers}

theorem ProbesAt.laLoad (h : ProbesAt v k storage) :
    SeqGcd.laLoad (GcdLa.laOe storage 0) (GcdLa.laOe storage 1) =
      decide (6 ≤ k ∧ k ≤ 12) := by
  rw [SeqGcd.laLoad, h.oe0, h.oe1]
  by_cases h0 : 4 ≤ k ∧ k ≤ 12
  · rw [if_pos h0]
    by_cases h1 : 6 ≤ k ∧ k ≤ 14
    · rw [if_pos h1, decide_eq_true (by omega)]
      decide
    · rw [if_neg h1, decide_eq_false (by omega)]
      decide
  · rw [if_neg h0, decide_eq_false (by omega), Bool.and_eq_false_iff]
    exact .inl (by decide)

/-- The probes stay at their values while the place goes on without them. -/
theorem ProbesAt.move (h : ProbesAt v k storage)
    (ha : 1 ≤ k' → 1 ≤ k) (hb : 2 ≤ k' → 2 ≤ k) (hoe0 : 4 ≤ k ∧ k ≤ 12 ↔ 4 ≤ k' ∧ k' ≤ 12)
    (hoe1 : 6 ≤ k ∧ k ≤ 14 ↔ 6 ≤ k' ∧ k' ≤ 14) : ProbesAt v k' storage := by
  refine ⟨fun hk ↦ h.a (ha hk), fun hk ↦ h.b (hb hk), ?_, ?_, h.oe2⟩
  · rw [h.oe0]
    simp only [hoe0]
  · rw [h.oe1]
    simp only [hoe1]

/-- One clock of the unit: the place goes on, and the window comes nearer by one clock at most. -/
theorem UnitAt.step (h : UnitAt g v.gcd k left u) (hprobes : ProbesAt v k storage)
    (byZero : BitVec 32 → BitVec 32) (hopen : 6 ≤ k → 6 ≤ k') (hleft : left ≤ left' + 1)
    (hclose : 13 ≤ k' → 13 ≤ k ∨ k = 12 ∧ left = 0 ∧ 47 ≤ left') :
    UnitAt g v.gcd k' left'
      (u.clockEdge byZero (GcdLa.laOe storage 0) (GcdLa.laOe storage 1) (GcdLa.laOut storage 0)
        (GcdLa.laOut storage 1)) := by
  have hload := hprobes.laLoad
  by_cases hwindow : 6 ≤ k ∧ k ≤ 12
  · rw [decide_eq_true hwindow] at hload
    have ha := hprobes.a (by omega)
    have hb := hprobes.b (by omega)
    have hlate : ∀ u, 13 ≤ k' → busyClocks u ≤ left' := by
      intro u hk'
      have hle := busyClocks_le u
      have hnow := hclose hk'
      omega
    rw [ha, hb]
    cases hcs : u.cs with
    | false =>
      -- it loads the operands, again or for the first time
      have hloads : ∀ g', Computes u g' → (g' = g ∨ g' = v.gcd) →
          UnitAt g v.gcd k' left'
            (u.clockEdge byZero (GcdLa.laOe storage 0) (GcdLa.laOe storage 1) v.a v.b) := by
        rintro g' hcomputes hg'
        obtain ⟨hnext, hshown⟩ := hcomputes.step_load byZero v.a v.b hcs hload
        exact .inr ⟨hopen hwindow.1, hnext, hshown ▸ hg', hlate _⟩
      rcases h with ⟨-, hcomputes, -⟩ | ⟨-, hcomputes, -, -⟩
      · exact hloads g hcomputes (.inl rfl)
      · exact hloads v.gcd hcomputes (.inr rfl)
    | true =>
      rcases h with ⟨-, hcomputes, hbusy⟩ | ⟨-, hcomputes, hshown, -⟩
      · obtain ⟨hnext, hclocks, -⟩ := hcomputes.step_busy byZero v.a v.b hcs
        have hpos := busyClocks_pos hcs
        refine .inl ⟨?_, hnext, by omega⟩
        by_contra hk'
        have hnow := hclose (by omega)
        omega
      · obtain ⟨hnext, -, hkept⟩ := hcomputes.step_busy byZero v.a v.b hcs
        refine .inr ⟨hopen hwindow.1, hnext, ?_, hlate _⟩
        rcases hkept with hkept | hkept
        · rw [hkept]
          exact hshown
        · exact .inr hkept
  · rw [decide_eq_false hwindow] at hload
    rcases h with ⟨hk, hcomputes, hbusy⟩ | ⟨hk, hcomputes, hshown, hbusy⟩
    · obtain ⟨hnext, hclocks, -⟩ := hcomputes.step_closed byZero
        (GcdLa.laOut storage 0) (GcdLa.laOut storage 1) hload
      refine .inl ⟨?_, hnext, by omega⟩
      by_contra hk'
      have hnow := hclose (by omega)
      omega
    · obtain ⟨hnext, hclocks, hkept⟩ := hcomputes.step_closed byZero
        (GcdLa.laOut storage 0) (GcdLa.laOut storage 1) hload
      have hle := hbusy (by omega)
      refine .inr ⟨hopen hk, hnext, ?_, fun _ ↦ by omega⟩
      rcases hkept with hkept | hkept
      · rw [hkept]
        exact hshown
      · exact .inr hkept

/-- The row behind starts where this one ends. -/
theorem UnitAt.next_row (h : UnitAt g next 18 left u) (g' : BitVec 32) :
    UnitAt next g' 0 left u := by
  rcases h with ⟨hk, -, -⟩ | ⟨-, hcomputes, -, hbusy⟩
  · exact absurd hk (by decide)
  · exact .inl ⟨Nat.zero_le _, hcomputes, hbusy (by decide)⟩

end Place

/-! ## The accesses of the body -/

theorem wordAdr_regLaData (n : Fin 4) :
    wordAdr (regLaData n) = (CsrRegister.laOut n).busAddress := by
  revert n
  decide

theorem wordAdr_regLaDataIn (n : Fin 4) :
    wordAdr (regLaDataIn n) = (CsrRegister.laIn n).busAddress := by
  revert n
  decide

theorem wordAdr_regLaOenb (n : Fin 4) :
    wordAdr (regLaOenb n) = (CsrRegister.laOe n).busAddress := by
  revert n
  decide

theorem wordAdr_regLaIena (n : Fin 4) :
    wordAdr (regLaIena n) = (CsrRegister.laIen n).busAddress := by
  revert n
  decide

theorem slaveSel_regMprjDatal : slaveSel (wordAdr regMprjDatal) .hk = true := by decide

section Body

variable {v : TestVector} {n : ℕ} {d : DeviceAccess} {r : Request}

/-- The places of the flags. -/
def IsFlag (n : ℕ) : Prop := n = 10 ∨ n = 16 ∨ n = 17

theorem body_drop (v : TestVector) (hn : n < 18) :
    ∃ d, v.body[n]? = some d ∧ v.body.drop n = d :: v.body.drop (n + 1) := by
  have hlength : n < v.body.length := hn
  exact ⟨v.body[n], List.getElem?_eq_getElem hlength, List.drop_eq_getElem_cons hlength⟩

theorem body_write (hd : v.body[n]? = some d) (hn : n ≠ 15) :
    ∃ adr value, d = .write adr value := by
  have hlt : n < 18 := (List.getElem?_eq_some_iff.1 hd).1
  interval_cases n <;> first
    | exact absurd rfl hn
    | exact ⟨_, _, (Option.some.inj hd).symm⟩

/-- An access is one of the registers of the logic analyzer, or a flag for the pads. -/
theorem body_slave (hd : v.body[n]? = some d) (hasks : d.Asks r) :
    IsFlag n ∧ slaveSel r.adr .hk = true ∨ ¬IsFlag n ∧ slaveSel r.adr .csr = true := by
  have hn : n < 18 := (List.getElem?_eq_some_iff.1 hd).1
  by_cases hpoll : n = 15
  · subst hpoll
    obtain rfl := Option.some.inj hd
    rw [hasks.1, wordAdr_regLaDataIn]
    exact .inr ⟨by simp [IsFlag], CsrRegister.slaveSel_busAddress _⟩
  · interval_cases n <;> first
      | exact absurd rfl hpoll
      | (obtain rfl := Option.some.inj hd
         obtain rfl := hasks
         simp only [IsFlag, wordAdr_regLaData, wordAdr_regLaOenb, wordAdr_regLaIena,
           CsrRegister.slaveSel_busAddress, slaveSel_regMprjDatal]
         decide)

theorem not_isFlag_of_csr (hd : v.body[n]? = some d) (hasks : d.Asks r)
    (hcsr : slaveSel r.adr .csr = true) : ¬IsFlag n := by
  rcases body_slave hd hasks with ⟨-, hhk⟩ | ⟨hno, -⟩
  · cases slaveSel_unique hhk hcsr
  · exact hno

section Update

variable (storage : Registers) (m : Fin 4) (value : BitVec 32)

@[simp]
theorem laOut_update_laOut (n : Fin 4) :
    GcdLa.laOut (Function.update storage (.laOut n)
      (value.setWidth (CsrRegister.laOut n).storageWidth)) m =
      if m = n then value else GcdLa.laOut storage m := by
  by_cases h : m = n
  · subst h
    rw [if_pos rfl, GcdLa.laOut, Function.update_self]
    exact BitVec.setWidth_eq value
  · rw [if_neg h, GcdLa.laOut, Function.update_of_ne (by simpa using h)]
    rfl

@[simp]
theorem laOe_update_laOe (n : Fin 4) :
    GcdLa.laOe (Function.update storage (.laOe n)
      (value.setWidth (CsrRegister.laOe n).storageWidth)) m =
      if m = n then value else GcdLa.laOe storage m := by
  by_cases h : m = n
  · subst h
    rw [if_pos rfl, GcdLa.laOe, Function.update_self]
    exact BitVec.setWidth_eq value
  · rw [if_neg h, GcdLa.laOe, Function.update_of_ne (by simpa using h)]
    rfl

theorem laOut_update_of_ne {reg : CsrRegister} (x : BitVec reg.storageWidth)
    (h : reg ≠ .laOut m) : GcdLa.laOut (Function.update storage reg x) m =
      GcdLa.laOut storage m := by
  rw [GcdLa.laOut, Function.update_of_ne h.symm]
  rfl

theorem laOe_update_of_ne {reg : CsrRegister} (x : BitVec reg.storageWidth)
    (h : reg ≠ .laOe m) : GcdLa.laOe (Function.update storage reg x) m =
      GcdLa.laOe storage m := by
  rw [GcdLa.laOe, Function.update_of_ne h.symm]
  rfl

end Update

/-- What the registers of the logic analyzer hold behind an access. -/
theorem ProbesAt.perform {storage : Registers} (h : ProbesAt v n storage)
    (hd : v.body[n]? = some d) (hasks : d.Asks r) (hcsr : slaveSel r.adr .csr = true)
    (datR : BitVec 32) :
    ProbesAt v (n + 1) ((CsrAccess.of r datR).elim storage storage.perform) := by
  have hn : n < 18 := (List.getElem?_eq_some_iff.1 hd).1
  by_cases hpoll : n = 15
  · subst hpoll
    obtain rfl := Option.some.inj hd
    rw [CsrAccess.elim_of_read hasks.2]
    exact ⟨fun _ ↦ h.a (by decide), fun _ ↦ h.b (by decide), h.oe0, h.oe1, h.oe2⟩
  have hflag := not_isFlag_of_csr hd hasks hcsr
  rw [IsFlag, not_or, not_or] at hflag
  obtain ⟨ha, hb, hoe0, hoe1, hoe2⟩ := h
  interval_cases n <;> first
    | exact absurd rfl hpoll
    | exact absurd rfl hflag.1
    | exact absurd rfl hflag.2.1
    | exact absurd rfl hflag.2.2
    | skip
  all_goals
    obtain rfl := Option.some.inj hd
    obtain rfl := hasks
    simp only [wordAdr_regLaData, wordAdr_regLaOenb, wordAdr_regLaIena, CsrAccess.elim_of_write]
    constructor <;>
      simp [laOut_update_of_ne, laOe_update_of_ne, ha, hb, hoe0, hoe1, hoe2, -BitVec.setWidth_zero]

end Body

namespace GcdLa

/-! ## The place of a run -/

/-- The place of the next access that is not yet at its registers, while the program is at `n`. -/
def place (n : ℕ) (s : GcdLa) : ℕ := n + s.strobed.toNat

/-- A value that is shown while a row is polled: the result of the row before, or its own. -/
def Shows (g : BitVec 32) (v : TestVector) (x : BitVec 128) : Prop :=
  x = g.setWidth 128 ∨ x = v.gcd.setWidth 128

/-- How the program goes on from `n` in a clock. -/
inductive Moves (v : TestVector) (s : GcdLa) (e : Event) (n : ℕ) : ℕ → Prop
  | quiet (accesses : s.accesses e = []) (strobed : s.strobed = false)
      (next : (s.step e).strobed = false) : Moves v s e n n
  | perform (accesses : s.accesses e = []) (strobed : s.strobed = false) (pace : s.pace = 0)
      (next : (s.step e).strobed = true) (noFlag : ¬IsFlag n)
      (datR : n = 15 → (s.step e).soc.csr.busDatR = s.regs1.extractLsb' 0 32) : Moves v s e n n
  | finish (accesses : (s.accesses e).length = 1) (strobed : s.strobed = true)
      (next : (s.step e).strobed = false) (after : (s.step e).pace = 1) (noFlag : ¬IsFlag n)
      (found : n = 15 → s.soc.csr.busDatR = v.expect) : Moves v s e n (n + 1)
  | again (accesses : (s.accesses e).length = 1) (strobed : s.strobed = true)
      (next : (s.step e).strobed = false) (after : (s.step e).pace = 1) (poll : n = 15)
      (missed : s.soc.csr.busDatR ≠ v.expect) : Moves v s e n n
  | flag (accesses : (s.accesses e).length = 1) (strobed : s.strobed = false) (pace : s.pace = 0)
      (next : (s.step e).strobed = false) (after : (s.step e).pace = 1) (isFlag : IsFlag n) :
      Moves v s e n (n + 1)

/-- The program is at place `n` of a row; `g` is the result of the row before. -/
structure At (g : BitVec 32) (v : TestVector) (vs : List TestVector) (n : ℕ) (s : GcdLa) :
    Prop where
  tracks : ∃ busy, s.soc.Tracks busy
  follows : s.Follows
  todo : s.todo = v.body.drop n ++ program vs
  probes : ProbesAt v (place n s) s.soc.csr.storage
  unit : UnitAt g v.gcd (place n s) (s.pace + closeClocks (place n s)) s.user.seqGcd
  regs0 : 13 ≤ n → Shows g v s.regs0
  regs1 : 13 ≤ n → n ≠ 13 ∨ s.pace ≠ 1 → Shows g v s.regs1
  polled : n = 15 → s.strobed = true → s.soc.csr.busDatR = g ∨ s.soc.csr.busDatR = v.gcd
  found : 16 ≤ n → v.expect = g ∨ v.expect = v.gcd

section Moves

variable {g : BitVec 32} {v : TestVector} {vs : List TestVector} {n n' : ℕ} {s : GcdLa} {e : Event}

theorem pace_of_strobed (h : s.strobed = true) : s.pace = 2 := by
  rw [pace, if_pos h]

theorem strobed_of_pace (h : s.pace = 0) : s.strobed = false := by
  rw [Bool.eq_false_iff]
  exact fun hyes ↦ absurd ((pace_of_strobed hyes).symm.trans h) (by decide)

theorem pace_le_one (h : s.strobed = false) : s.pace ≤ 1 := by
  rw [pace, h, if_neg (by decide)]
  split <;> decide

theorem place_of_strobed (n : ℕ) (h : s.strobed = true) : place n s = n + 1 := by
  rw [place, h]
  rfl

theorem place_of_not_strobed (n : ℕ) (h : s.strobed = false) : place n s = n := by
  rw [place, h]
  rfl

theorem todo_step (s : GcdLa) (e : Event) :
    (s.step e).todo =
      (s.accesses e).foldl (fun todo access ↦ advance access.2.2 todo) s.todo := rfl

/-- The value that a poll reads. -/
theorem shown_of_poll {r : Request} {expect : BitVec 32}
    (hasks : (DeviceAccess.poll (regLaDataIn 0) expect).Asks r) :
    s.soc.csr.shown ⟨r, true, true⟩ (s.status e) = s.regs1.extractLsb' 0 32 := by
  have hdecode : CsrRegister.decode (r.adr.setWidth 14) = some (.laIn 0) := by
    rw [hasks.1, wordAdr_regLaDataIn, CsrRegister.setWidth_busAddress, CsrRegister.decode_address]
  simp only [Csr.shown, hdecode]
  exact (if_neg (by decide)).trans (BitVec.setWidth_eq _)

/-- One clock, at the place where the program is. -/
theorem At.moves (h : At g v vs n s) (hn : n < 18) (hregular : s.Regular e) :
    ∃ n', Moves v s e n n' ∧ (s.step e).todo = v.body.drop n' ++ program vs ∧
      ProbesAt v (place n' (s.step e)) (s.step e).soc.csr.storage := by
  obtain ⟨busy, htracks⟩ := h.tracks
  obtain ⟨d, hd, hdrop⟩ := body_drop v hn
  have htodo : s.todo = d :: (v.body.drop (n + 1) ++ program vs) := by
    rw [h.todo, hdrop]
    rfl
  have hprobes := h.probes
  cases h.follows.clock htracks hregular with
  | quiet haccesses hstrobed hnext hstorage =>
    refine ⟨n, .quiet haccesses hstrobed hnext, ?_, ?_⟩
    · rw [todo_step, haccesses, h.todo]
      rfl
    · rw [place_of_not_strobed n hstrobed] at hprobes
      rwa [place_of_not_strobed n hnext, hstorage]
  | perform d' rest r htodo' hasks hcsr haccesses hpace hnext hstorage hdatR =>
    obtain ⟨rfl, -⟩ := List.cons.inj (htodo.symm.trans htodo')
    have hstrobed := strobed_of_pace hpace
    have hnoFlag := not_isFlag_of_csr hd hasks hcsr
    refine ⟨n, .perform haccesses hstrobed hpace hnext hnoFlag ?_, ?_, ?_⟩
    · rintro rfl
      obtain rfl := Option.some.inj hd
      exact hdatR.trans (shown_of_poll hasks)
    · rw [todo_step, haccesses, h.todo]
      rfl
    · rw [place_of_not_strobed n hstrobed] at hprobes
      rw [place_of_strobed n hnext, hstorage]
      exact hprobes.perform hd hasks hcsr _
  | finish d' rest r htodo' hasks hcsr haccesses hstrobed hnext hafter hstorage =>
    obtain ⟨rfl, -⟩ := List.cons.inj (htodo.symm.trans htodo')
    have hnoFlag := not_isFlag_of_csr hd hasks hcsr
    have htodo'' : (s.step e).todo = advance s.soc.csr.busDatR s.todo := by
      rw [todo_step, haccesses]
      rfl
    rw [place_of_strobed n hstrobed] at hprobes
    have hlength : (s.accesses e).length = 1 := by rw [haccesses]; rfl
    have hgo : ProbesAt v (place (n + 1) (s.step e)) (s.step e).soc.csr.storage := by
      rwa [place_of_not_strobed (n + 1) hnext, hstorage]
    by_cases hpoll : n = 15
    · subst hpoll
      obtain rfl := Option.some.inj hd
      by_cases hfound : s.soc.csr.busDatR = v.expect
      · refine ⟨16, .finish hlength hstrobed hnext hafter hnoFlag fun _ ↦ hfound, ?_, hgo⟩
        rw [htodo'', htodo]
        exact if_pos hfound
      · refine ⟨15, .again hlength hstrobed hnext hafter rfl hfound, ?_, ?_⟩
        · rw [htodo'', htodo]
          exact if_neg hfound
        · rw [place_of_not_strobed 15 hnext, hstorage]
          exact hprobes.move (by decide) (by decide) (by decide) (by decide)
    · obtain ⟨adr, value, rfl⟩ := body_write hd hpoll
      refine ⟨n + 1, .finish hlength hstrobed hnext hafter hnoFlag (absurd · hpoll), ?_, hgo⟩
      rw [htodo'', htodo]
      rfl
  | other d' rest r data htodo' hasks haway haccesses hpace hnext hafter hstorage =>
    obtain ⟨rfl, -⟩ := List.cons.inj (htodo.symm.trans htodo')
    have hstrobed := strobed_of_pace hpace
    have hflag : IsFlag n := by
      rcases body_slave hd hasks with ⟨hyes, -⟩ | ⟨-, hcsr⟩
      · exact hyes
      · exact absurd (hcsr.symm.trans haway) (by decide)
    have hlength : (s.accesses e).length = 1 := by rw [haccesses]; rfl
    refine ⟨n + 1, .flag hlength hstrobed hpace hnext hafter hflag, ?_, ?_⟩
    · have hpoll : n ≠ 15 := by
        rcases hflag with rfl | rfl | rfl <;> decide
      obtain ⟨adr, value, rfl⟩ := body_write hd hpoll
      rw [todo_step, haccesses, htodo]
      rfl
    · rw [place_of_not_strobed n hstrobed] at hprobes
      rw [place_of_not_strobed (n + 1) hnext, hstorage]
      rcases hflag with rfl | rfl | rfl <;>
        exact hprobes.move (by decide) (by decide) (by decide) (by decide)

theorem closeClocks_le (hn : n < 18) : closeClocks n ≤ closeClocks (n + 1) + 3 := by
  interval_cases n <;> decide

theorem closeClocks_le_of_flag (h : IsFlag n) : closeClocks n ≤ closeClocks (n + 1) + 2 := by
  rcases h with rfl | rfl | rfl <;> decide

/-- The window does not close before its time. -/
theorem Moves.left_le (h : Moves v s e n n') (hn : n < 18) :
    s.pace + closeClocks (place n s) ≤
      (s.step e).pace + closeClocks (place n' (s.step e)) + 1 := by
  cases h with
  | quiet _ hstrobed hnext =>
    have hpace := pace_le_one hstrobed
    rw [place_of_not_strobed n hstrobed, place_of_not_strobed n hnext]
    omega
  | perform _ hstrobed hpace hnext =>
    have hclose := closeClocks_le hn
    rw [place_of_not_strobed n hstrobed, place_of_strobed n hnext, hpace, pace_of_strobed hnext]
    omega
  | finish _ hstrobed hnext hafter =>
    rw [place_of_strobed n hstrobed, place_of_not_strobed (n + 1) hnext, hafter,
      pace_of_strobed hstrobed]
    omega
  | again _ hstrobed hnext hafter hpoll =>
    subst hpoll
    rw [place_of_strobed 15 hstrobed, place_of_not_strobed 15 hnext, hafter,
      pace_of_strobed hstrobed]
    decide
  | flag _ hstrobed hpace hnext hafter hflag =>
    have hclose := closeClocks_le_of_flag hflag
    rw [place_of_not_strobed n hstrobed, place_of_not_strobed (n + 1) hnext, hpace, hafter]
    omega

/-- The window stays open once it is, up to the clock that closes it. -/
theorem Moves.open_le (h : Moves v s e n n') (hopen : 6 ≤ place n s) :
    6 ≤ place n' (s.step e) := by
  cases h with
  | quiet _ hstrobed hnext =>
    rw [place_of_not_strobed n hstrobed] at hopen
    rwa [place_of_not_strobed n hnext]
  | perform _ hstrobed _ hnext =>
    rw [place_of_not_strobed n hstrobed] at hopen
    rw [place_of_strobed n hnext]
    omega
  | finish _ hstrobed hnext =>
    rw [place_of_strobed n hstrobed] at hopen
    rwa [place_of_not_strobed (n + 1) hnext]
  | again _ _ hnext _ hpoll =>
    subst hpoll
    rw [place_of_not_strobed 15 hnext]
    decide
  | flag _ hstrobed _ hnext =>
    rw [place_of_not_strobed n hstrobed] at hopen
    rw [place_of_not_strobed (n + 1) hnext]
    omega

/-- The clock that closes the window. -/
theorem Moves.close (h : Moves v s e n n') (hclose : 13 ≤ place n' (s.step e)) :
    13 ≤ place n s ∨ place n s = 12 ∧ s.pace + closeClocks (place n s) = 0 ∧
      47 ≤ (s.step e).pace + closeClocks (place n' (s.step e)) := by
  cases h with
  | quiet _ hstrobed hnext =>
    rw [place_of_not_strobed n hnext] at hclose
    rw [place_of_not_strobed n hstrobed]
    exact .inl hclose
  | perform _ hstrobed hpace hnext =>
    rw [place_of_strobed n hnext] at hclose
    rw [place_of_not_strobed n hstrobed]
    by_cases hn : n = 12
    · subst hn
      rw [place_of_strobed 12 hnext, pace_of_strobed hnext, hpace]
      exact .inr ⟨rfl, rfl, by decide⟩
    · exact .inl (by omega)
  | finish _ hstrobed hnext =>
    rw [place_of_not_strobed (n + 1) hnext] at hclose
    rw [place_of_strobed n hstrobed]
    exact .inl hclose
  | again _ hstrobed _ _ hpoll =>
    subst hpoll
    rw [place_of_strobed 15 hstrobed]
    exact .inl (by decide)
  | flag _ hstrobed _ hnext _ hflag =>
    rw [place_of_not_strobed (n + 1) hnext] at hclose
    rw [place_of_not_strobed n hstrobed]
    rcases hflag with rfl | rfl | rfl
    · exact absurd hclose (by decide)
    · exact .inl (by decide)
    · exact .inl (by decide)

/-- Behind the window the program is not ahead of its place. -/
theorem Moves.le_place (h : Moves v s e n n') (hn' : 13 ≤ n') : 13 ≤ place n s := by
  cases h with
  | quiet _ hstrobed => rwa [place_of_not_strobed n hstrobed]
  | perform _ hstrobed => rwa [place_of_not_strobed n hstrobed]
  | finish _ hstrobed => rwa [place_of_strobed n hstrobed]
  | again _ hstrobed _ _ hpoll =>
    rw [place_of_strobed n hstrobed]
    omega
  | flag _ hstrobed _ _ _ hflag =>
    rw [place_of_not_strobed n hstrobed]
    rcases hflag with rfl | rfl | rfl
    · exact absurd hn' (by decide)
    · decide
    · decide

/-- No access of a row goes to the user project. -/
theorem program_devices (vs : List TestVector) {d : DeviceAccess} (hd : d ∈ program vs)
    (r : Request) (hasks : d.Asks r) : slaveSel r.adr .mprj = false := by
  rw [program, List.mem_flatMap] at hd
  obtain ⟨v, -, hd⟩ := hd
  obtain ⟨n, hn⟩ := List.mem_iff_getElem?.1 hd
  rw [Bool.eq_false_iff]
  intro hmprj
  rcases body_slave hn hasks with ⟨-, hhk⟩ | ⟨-, hcsr⟩
  · cases slaveSel_unique hhk hmprj
  · cases slaveSel_unique hcsr hmprj

theorem At.devices (h : At g v vs n s) (d : DeviceAccess) (hd : d ∈ s.todo) (r : Request)
    (hasks : d.Asks r) : slaveSel r.adr .mprj = false := by
  refine program_devices (v :: vs) ?_ r hasks
  rw [h.todo, List.mem_append] at hd
  rw [program, List.flatMap_cons, List.mem_append]
  exact hd.imp List.mem_of_mem_drop id

/-- **One clock of the test.** -/
theorem At.step (h : At g v vs n s) (hn : n < 18) (hregular : s.Regular e) :
    ∃ n', Moves v s e n n' ∧ At g v vs n' (s.step e) := by
  obtain ⟨n', hmoves, htodo, hprobes⟩ := h.moves hn hregular
  obtain ⟨busy, htracks⟩ := h.tracks
  have huser : (s.step e).user.seqGcd = _ :=
    user_step (fun clk ↦ h.follows.valid_eq hregular h.devices clk) h.probes.oe2
  refine ⟨n', hmoves, htracks.step hregular.onlySelected, h.follows.step hregular, htodo, hprobes,
    ?_, ?_, ?_, ?_, ?_⟩
  · rw [huser]
    exact h.unit.step h.probes e.byZero hmoves.open_le (hmoves.left_le hn) hmoves.close
  · -- the user project has its operands
    intro hn'
    have hplace := hmoves.le_place hn'
    change Shows g v (s.user.seqGcd.gcdO.setWidth 128)
    rcases h.unit with ⟨hle, -, -⟩ | ⟨-, -, hshown, -⟩
    · omega
    · rw [Shows]
      exact hshown.imp (congrArg _) (congrArg _)
  · intro hn' hlater
    refine h.regs0 ?_
    cases hmoves with
    | quiet => exact hn'
    | perform => exact hn'
    | finish _ _ _ hafter =>
      rcases hlater with hlater | hlater
      · omega
      · exact absurd hafter hlater
    | again => exact hn'
    | flag _ _ _ _ _ hflag => rcases hflag with rfl | rfl | rfl <;> omega
  · intro hn' hstrobed
    cases hmoves with
    | perform _ hnot _ _ _ hdatR =>
      have hregs1 := h.regs1 (by omega) (.inl (by omega))
      have hword : ∀ x : BitVec 32, (x.setWidth 128).extractLsb' 0 32 = x := by
        intro x
        rw [BitVec.extractLsb'_setWidth_of_le (by decide), BitVec.extractLsb'_eq_self]
      rw [hdatR hn']
      rcases hregs1 with hregs1 | hregs1
      · exact .inl (by rw [hregs1, hword])
      · exact .inr (by rw [hregs1, hword])
    | quiet _ _ hnext => exact absurd (hstrobed.symm.trans hnext) (by decide)
    | finish _ _ hnext => exact absurd (hstrobed.symm.trans hnext) (by decide)
    | again _ _ hnext => exact absurd (hstrobed.symm.trans hnext) (by decide)
    | flag _ _ _ hnext => exact absurd (hstrobed.symm.trans hnext) (by decide)
  · intro hn'
    cases hmoves with
    | quiet => exact h.found hn'
    | perform => exact h.found hn'
    | finish _ hstrobed _ _ _ hfound =>
      by_cases hpoll : n = 15
      · rw [← hfound hpoll]
        exact h.polled hpoll hstrobed
      · exact h.found (by omega)
    | again => exact h.found hn'
    | flag _ _ _ _ _ hflag =>
      apply h.found
      rcases hflag with rfl | rfl | rfl <;> omega

/-- The row behind. -/
theorem At.next_row {w : TestVector} (h : At g v (w :: vs) 18 s) (hstrobed : s.strobed = false) :
    At v.gcd w vs 0 s := by
  have hprobes := h.probes
  have hunit := h.unit
  rw [place_of_not_strobed 18 hstrobed] at hprobes hunit
  refine ⟨h.tracks, h.follows, ?_, ?_, ?_, by simp, by simp, by simp, by simp⟩
  · exact h.todo
  · rw [place_of_not_strobed 0 hstrobed]
    exact ⟨by simp, by simp, hprobes.oe0, hprobes.oe1, hprobes.oe2⟩
  · rw [place_of_not_strobed 0 hstrobed]
    exact hunit.next_row w.gcd

/-! ## The polls -/

/-- The clocks until the processor reads `g` from a unit that computes it. -/
def late (g : BitVec 32) (s : GcdLa) : ℕ :=
  if s.user.seqGcd.cs then busyClocks s.user.seqGcd + 2
  else if s.regs0 ≠ g.setWidth 128 then 2
  else if s.regs1 ≠ g.setWidth 128 then 1 else 0

/-- The polls of a row that may still miss its result. -/
def polls (v : TestVector) (n : ℕ) (s : GcdLa) : ℕ :=
  if place n s ≤ 12 then 14
  else if n = 15 ∧ s.strobed = true then
    if s.soc.csr.busDatR = v.gcd then 0 else late v.gcd s / 3 + 1
  else if n ≤ 15 then (late v.gcd s + 2 - (s.pace + 3 * (15 - place n s))) / 3
  else 0

theorem late_le (g : BitVec 32) (s : GcdLa) : late g s ≤ 49 := by
  have hbusy := busyClocks_le s.user.seqGcd
  rw [late]
  split_ifs <;> omega

theorem regs1_of_late (h : late g s = 0) : s.regs1 = g.setWidth 128 := by
  rw [late] at h
  split_ifs at h with _ _ hregs1
  exact not_not.1 hregs1

/-- Behind the window every clock brings the result nearer. -/
theorem At.late_step (h : At g v vs n s) (hregular : s.Regular e) (hplace : 13 ≤ place n s) :
    late v.gcd (s.step e) ≤ late v.gcd s - 1 := by
  have huser : (s.step e).user.seqGcd = _ :=
    user_step (fun clk ↦ h.follows.valid_eq hregular h.devices clk) h.probes.oe2
  have hload := h.probes.laLoad
  rw [decide_eq_false (by omega)] at hload
  have hcomputes : Computes s.user.seqGcd v.gcd := by
    rcases h.unit with ⟨hle, -, -⟩ | ⟨-, hcomputes, -, -⟩
    · omega
    · exact hcomputes
  have hregs0 : (s.step e).regs0 = s.user.seqGcd.gcdO.setWidth 128 := rfl
  have hregs1 : (s.step e).regs1 = s.regs0 := rfl
  rw [late, late, huser, hregs0, hregs1]
  cases hcs : s.user.seqGcd.cs with
  | true =>
    have hpos := busyClocks_pos hcs
    obtain ⟨-, hbusy, -⟩ := hcomputes.step_closed e.byZero (laOut s.soc.csr.storage 0)
      (laOut s.soc.csr.storage 1) hload
    rw [hbusy, if_pos rfl]
    split_ifs <;> omega
  | false =>
    obtain ⟨hidle, -⟩ := clockEdge_of_idle e.byZero (laOut s.soc.csr.storage 0)
      (laOut s.soc.csr.storage 1) hcs hload
    rw [hidle, hcomputes.gcdO hcs, if_neg Bool.false_ne_true, if_neg Bool.false_ne_true]
    split_ifs <;> first | decide | contradiction

/-- What ends in a clock is paid for by the place and by the polls. -/
theorem At.polls_step (h : At g v vs n s) (hn : n < 18) (hregular : s.Regular e)
    (hexpect : v.expect = v.gcd) (hmoves : Moves v s e n n') :
    polls v n' (s.step e) + (s.accesses e).length + n ≤ polls v n s + n' := by
  have hlate : 13 ≤ place n s → late v.gcd (s.step e) ≤ late v.gcd s - 1 := h.late_step hregular
  have hmost := late_le v.gcd (s.step e)
  cases hmoves with
  | quiet haccesses hstrobed hnext =>
    rw [place_of_not_strobed n hstrobed] at hlate
    have hpace := pace_le_one hstrobed
    rw [polls, polls, place_of_not_strobed n hstrobed, place_of_not_strobed n hnext, haccesses,
      hstrobed, hnext, List.length_nil]
    simp only [Bool.false_eq_true, and_false, if_false]
    split_ifs <;> omega
  | perform haccesses hstrobed hpace hnext hnoFlag hdatR =>
    rw [place_of_not_strobed n hstrobed] at hlate
    rw [IsFlag, not_or, not_or] at hnoFlag
    have hread : n = 15 → late v.gcd s = 0 → (s.step e).soc.csr.busDatR = v.gcd := by
      intro hpoll hzero
      rw [hdatR hpoll, regs1_of_late hzero, BitVec.extractLsb'_setWidth_of_le (by decide),
        BitVec.extractLsb'_eq_self]
    rw [polls, polls, place_of_not_strobed n hstrobed, place_of_strobed n hnext, haccesses,
      hstrobed, hnext, hpace, pace_of_strobed hnext, List.length_nil]
    simp only [Bool.false_eq_true, and_false, and_true, if_false]
    split_ifs <;> first | omega | grind
  | finish haccesses hstrobed hnext hafter hnoFlag =>
    rw [place_of_strobed n hstrobed] at hlate
    rw [IsFlag, not_or, not_or] at hnoFlag
    rw [polls, polls, place_of_strobed n hstrobed, place_of_not_strobed (n + 1) hnext, haccesses,
      hstrobed, hnext, hafter, pace_of_strobed hstrobed]
    simp only [Bool.false_eq_true, and_false, and_true, if_false]
    split_ifs <;> omega
  | again haccesses hstrobed hnext hafter hpoll hmissed =>
    subst hpoll
    rw [place_of_strobed 15 hstrobed] at hlate
    rw [hexpect] at hmissed
    rw [polls, polls, place_of_strobed 15 hstrobed, place_of_not_strobed 15 hnext, haccesses,
      hstrobed, hnext, hafter, if_neg hmissed]
    simp
    omega
  | flag haccesses hstrobed hpace hnext hafter hflag =>
    rw [place_of_not_strobed n hstrobed] at hlate
    rw [polls, polls, place_of_not_strobed n hstrobed, place_of_not_strobed (n + 1) hnext,
      haccesses, hstrobed, hnext, hafter]
    simp only [Bool.false_eq_true, and_false, if_false]
    rcases hflag with rfl | rfl | rfl <;> simp

end Moves

/-! ## The rows -/

/-- The program has ended. -/
structure Over (s : GcdLa) : Prop where
  tracks : ∃ busy, s.soc.Tracks busy
  follows : s.Follows
  todo : s.todo = []

/-- The rows `rest` are left, of the first one the accesses from place `n` on. -/
inductive Stands (g : BitVec 32) (s : GcdLa) : List TestVector → ℕ → Prop
  | ended (h : Over s) : Stands g s [] 0
  | row {v : TestVector} {vs : List TestVector} {n : ℕ} (h : At g v vs n s) (hn : n < 18) :
      Stands g s (v :: vs) n

/-- The accesses that may still end. -/
def budget (s : GcdLa) : List TestVector → ℕ → ℕ
  | [], _ => 0
  | v :: vs, n => 18 - n + polls v n s + 32 * vs.length

/-- The result of the last row, `g` when there is none. -/
def lastGcd (g : BitVec 32) (rows : List TestVector) : BitVec 32 :=
  run (fun _ v ↦ v.gcd) g rows

/-- What a row that has passed expects: the result of its own operands, or the one that the user
project still shows from the row before. -/
def Passed (g : BitVec 32) (rows : List TestVector) : Prop :=
  Along (fun _ v ↦ v.gcd) (fun g v ↦ v.expect = g ∨ v.expect = v.gcd) g rows

section Stands

variable {g : BitVec 32} {rest : List TestVector} {n : ℕ} {s : GcdLa} {e : Event}

theorem Over.step (h : Over s) (hregular : s.Regular e) :
    Over (s.step e) ∧ s.accesses e = [] := by
  obtain ⟨busy, htracks⟩ := h.tracks
  have hnil : ∀ {d : DeviceAccess} {rest : List DeviceAccess}, s.todo ≠ d :: rest := by
    intro d rest hcons
    rw [h.todo] at hcons
    cases hcons
  cases h.follows.clock htracks hregular with
  | quiet haccesses =>
    refine ⟨⟨htracks.step hregular.onlySelected, h.follows.step hregular, ?_⟩, haccesses⟩
    rw [todo_step, haccesses, h.todo]
    rfl
  | perform _ _ _ htodo => exact absurd htodo hnil
  | finish _ _ _ htodo => exact absurd htodo hnil
  | other _ _ _ _ htodo => exact absurd htodo hnil

theorem budget_start (h : Stands g s rest 0) : s.budget rest 0 = 32 * rest.length := by
  cases h with
  | ended => rfl
  | row h =>
    have hpolls : ∀ v, polls v 0 s = 14 := by
      intro v
      refine if_pos ?_
      rw [place]
      cases s.strobed <;> decide
    rw [budget, hpolls, List.length_cons]
    omega

/-- **One clock of the test, over all rows.** -/
theorem Stands.step (h : Stands g s rest n) (hregular : s.Regular e) :
    ∃ passed rest' n', rest = passed ++ rest' ∧ Passed g passed ∧
      Stands (lastGcd g passed) (s.step e) rest' n' ∧
      ((∀ v ∈ rest, v.expect = v.gcd) →
        (s.step e).budget rest' n' + (s.accesses e).length ≤ s.budget rest n) := by
  cases h with
  | ended h =>
    obtain ⟨hover, haccesses⟩ := h.step hregular
    refine ⟨[], [], 0, rfl, trivial, .ended hover, fun _ ↦ ?_⟩
    rw [haccesses]
    rfl
  | @row v vs _ h hn =>
    obtain ⟨n', hmoves, hnext⟩ := h.step hn hregular
    have hpolls := fun hexpect ↦ h.polls_step hn hregular hexpect hmoves
    by_cases hlast : n' < 18
    · refine ⟨[], v :: vs, n', rfl, trivial, .row hnext hlast, fun hall ↦ ?_⟩
      have hle := hpolls (hall v List.mem_cons_self)
      rw [budget, budget]
      omega
    · -- the last flag of the row
      have hstrobed : (s.step e).strobed = false ∧ n' = 18 := by
        cases hmoves with
        | finish _ _ hidle => exact ⟨hidle, by omega⟩
        | flag _ _ _ hidle => exact ⟨hidle, by omega⟩
        | _ => exact absurd hn hlast
      obtain ⟨hstrobed, rfl⟩ := hstrobed
      have hstands : Stands v.gcd (s.step e) vs 0 := by
        cases vs with
        | nil => exact .ended ⟨hnext.tracks, hnext.follows, hnext.todo⟩
        | cons w ws => exact .row (hnext.next_row hstrobed) (by decide)
      refine ⟨[v], vs, 0, rfl, ⟨hnext.found (by decide), trivial⟩, hstands, fun hall ↦ ?_⟩
      have hle := hpolls (hall v List.mem_cons_self)
      rw [budget_start hstands, budget]
      omega

end Stands

/-! ## From the reset on -/

/-- After a reset, at the start of the loop. The probes are the management's inputs; the other
registers have any values. -/
structure IsReset (vectors : List TestVector) (s : GcdLa) : Prop where
  soc : s.soc.IsReset
  probes : ∀ n, laOe s.soc.csr.storage n = 0#32
  seqGcd : s.user.seqGcd = .reset
  todo : s.todo = program vectors

/-- The chip at the start of the test. -/
def start : GcdLa where
  soc := CsrBus.atReset
  regs0 := 0#128
  regs1 := 0#128
  user := ⟨false, .reset⟩
  todo := program vectors

/-- The data bus writes the first operand, and lets go. -/
def firstWrite : List Event :=
  let quiet : Event := ⟨fun _ ↦ false, fun _ ↦ ⟨0#30, 0#32, 0#4, false⟩, fun _ ↦ ⟨false, 0#32⟩,
    fun r ↦ 0#r.statusWidth, fun _ ↦ 0#32⟩
  let write : Request := ⟨wordAdr (regLaData 0), 10312050#32, 15#4, true⟩
  [{ quiet with request := fun master ↦ master == .dbus, lines := fun _ ↦ write },
    quiet, quiet, quiet]

theorem isReset_start : IsReset vectors start :=
  ⟨⟨rfl, rfl⟩, fun _ ↦ rfl, rfl, rfl⟩

theorem regular_firstWrite : Along step Regular start firstWrite := by
  have hquiet : ∀ s e, (∀ master, e.request master = false) →
      (∀ slave, (e.outside slave).ack = false) → Regular s e := by
    intro s e hrequest hack
    refine ⟨?_, fun _ ↦ hrequest .dbus, ?_⟩
    · intro slave _ hyes
      exact absurd (hyes.symm.trans (hack slave)) (by decide)
    · intro master _ hyes
      exact absurd (hyes.symm.trans (hrequest master)) (by decide)
  refine ⟨⟨?_, ?_, ?_⟩, hquiet _ _ ?_ ?_, hquiet _ _ ?_ ?_, hquiet _ _ ?_ ?_, trivial⟩ <;>
    try exact fun _ ↦ rfl
  · intro slave _ hyes
    cases hyes
  · intro hreleased
    cases hreleased
  · rintro master - hrequest
    obtain rfl := eq_of_beq hrequest
    rw [Allowed, if_pos rfl]
    exact fun _ ↦ ⟨_, rfl, rfl⟩

section FromReset

variable {rows : List TestVector} {s : GcdLa}

theorem IsReset.stands (h : IsReset rows s) : Stands 0#32 s rows 0 := by
  have hstrobed : s.strobed = false := by
    rw [strobed, h.soc.state]
    rfl
  have hfollows : s.Follows := by
    intro master r hwaiting
    rw [h.soc.core] at hwaiting
    cases hwaiting
  cases rows with
  | nil => exact .ended ⟨⟨none, h.soc.tracks⟩, hfollows, h.todo⟩
  | cons v vs =>
    refine .row ⟨⟨none, h.soc.tracks⟩, hfollows, h.todo, ?_, ?_, by simp, by simp, by simp,
      by simp⟩ (by decide)
    · rw [place_of_not_strobed 0 hstrobed]
      exact ⟨by simp, by simp, h.probes 0, h.probes 1, h.probes 2⟩
    · rw [place_of_not_strobed 0 hstrobed, h.seqGcd]
      exact .inl ⟨by decide, rfl, Nat.zero_le _⟩

/-- **The test ends.** When every row expects the greatest common divisor of its operands, its
program ends within 32 accesses for each row, whatever the other masters do and however long the
accesses take. -/
theorem test_ends (h : IsReset rows s) (hexpect : ∀ v ∈ rows, v.expect = v.gcd)
    (events : List Event) (hregular : Along step Regular s events) :
    (trace step accesses s events).length ≤ 32 * rows.length ∧
      ((run step s events).todo ≠ [] →
        (trace step accesses s events).length < 32 * rows.length) := by
  have hbudget : ∃ m, (∃ g rest n, Stands g (run step s events) rest n ∧
      (∀ v ∈ rest, v.expect = v.gcd) ∧ (run step s events).budget rest n ≤ m) ∧
      m + (trace step accesses s events).length ≤ 32 * rows.length := by
    refine trace_length_le (B := fun s m ↦ ∃ g rest n, Stands g s rest n ∧
      (∀ v ∈ rest, v.expect = v.gcd) ∧ s.budget rest n ≤ m) ?_ ?_ hregular
    · rintro s m e ⟨g, rest, n, hstands, hall, hle⟩ hregular
      obtain ⟨passed, rest', n', rfl, -, hnext, hpays⟩ := hstands.step hregular
      refine ⟨_, ⟨_, rest', n', hnext, ?_, Nat.le_refl _⟩, (hpays hall).trans hle⟩
      exact fun v hv ↦ hall v (List.mem_append_right _ hv)
    · exact ⟨0#32, rows, 0, h.stands, hexpect, (budget_start h.stands).le⟩
  obtain ⟨m, ⟨g, rest, n, hstands, -, hle⟩, hlength⟩ := hbudget
  refine ⟨by omega, fun htodo ↦ ?_⟩
  cases hstands with
  | ended hover => exact absurd hover.todo htodo
  | row _ hn =>
    rw [budget] at hle
    omega

theorem test_ends_firstWrite :
    (trace step accesses start firstWrite).length ≤ 32 * vectors.length ∧
      ((run step start firstWrite).todo ≠ [] →
        (trace step accesses start firstWrite).length < 32 * vectors.length) :=
  test_ends isReset_start expect_of_vectors firstWrite regular_firstWrite

/-- **The test checks.** Whatever the rows expect, the program is past those only that expect the
greatest common divisor of their operands or of the operands of the row before. -/
theorem test_checks (h : IsReset rows s) (events : List Event)
    (hregular : Along step Regular s events) :
    ∃ passed rest n, rows = passed ++ rest ∧ Passed 0#32 passed ∧ n < 18 ∧
      (run step s events).todo = (program rest).drop n := by
  have hstands : ∃ passed rest n, rows = passed ++ rest ∧ Passed 0#32 passed ∧
      Stands (lastGcd 0#32 passed) (run step s events) rest n := by
    refine invariant_run (I := fun s ↦ ∃ passed rest n, rows = passed ++ rest ∧
      Passed 0#32 passed ∧ Stands (lastGcd 0#32 passed) s rest n) ?_
      ⟨[], rows, 0, rfl, trivial, h.stands⟩ hregular
    rintro s e ⟨passed, rest, n, hrows, hpassed, hstands⟩ hregular
    obtain ⟨more, rest', n', hrest, hmore, hnext, -⟩ := hstands.step hregular
    refine ⟨passed ++ more, rest', n', ?_, ?_, ?_⟩
    · rw [hrows, hrest, List.append_assoc]
    · exact (along_append _ _ _ _ _).2 ⟨hpassed, hmore⟩
    · rwa [lastGcd, run_append]
  obtain ⟨passed, rest, n, hrows, hpassed, hstands⟩ := hstands
  refine ⟨passed, rest, n, hrows, hpassed, ?_⟩
  cases hstands with
  | ended hover => exact ⟨by decide, hover.todo⟩
  | row hat hn =>
    refine ⟨hn, ?_⟩
    rw [hat.todo]
    exact (List.drop_append_of_le_length (Nat.le_of_lt hn)).symm

theorem test_checks_firstWrite :
    ∃ passed rest n, vectors = passed ++ rest ∧ Passed 0#32 passed ∧ n < 18 ∧
      (run step start firstWrite).todo = (program rest).drop n :=
  test_checks isReset_start firstWrite regular_firstWrite

example : trace step accesses start firstWrite =
    [(.dbus, ⟨wordAdr (regLaData 0), 10312050#32, 15#4, true⟩, 0#32)] := by
  decide +kernel

end FromReset

end GcdLa

end CaravelSoc.Firmware
