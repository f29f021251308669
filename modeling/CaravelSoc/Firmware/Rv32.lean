import Mathlib.Logic.Function.Iterate

/-!
# Assembly programs on RV32

A program is its lines: instructions, labels and branches to labels. What is left
to be executed is a list of lines again, so that a branch leads to the lines after
its label. Loads and stores go byte by byte to a bus, of which nothing is assumed.
Straight-line code is a fold over its instructions; runs are composed of it and
of single branches.
-/

namespace Rv32

/-- The registers by the names of the calling convention. -/
inductive Reg where
  | zero | ra | sp | gp | tp
  | t0 | t1 | t2 | t3 | t4 | t5 | t6
  | a0 | a1 | a2 | a3 | a4 | a5 | a6 | a7
  | s0 | s1 | s2 | s3 | s4 | s5 | s6 | s7 | s8 | s9 | s10 | s11
  deriving DecidableEq, Repr

/-- Instructions that go on to the next line. -/
inductive Op where
  | li (rd : Reg) (imm : BitVec 32)
  | addi (rd rs : Reg) (imm : BitVec 12)
  | andi (rd rs : Reg) (imm : BitVec 12)
  | ori (rd rs : Reg) (imm : BitVec 12)
  | slli (rd rs : Reg) (shamt : ℕ)
  | srli (rd rs : Reg) (shamt : ℕ)
  | or (rd rs rs' : Reg)
  | lw (rd : Reg) (offset : BitVec 12) (base : Reg)
  | lbu (rd : Reg) (offset : BitVec 12) (base : Reg)
  | sw (rs : Reg) (offset : BitVec 12) (base : Reg)
  | sh (rs : Reg) (offset : BitVec 12) (base : Reg)
  | sb (rs : Reg) (offset : BitVec 12) (base : Reg)
  deriving DecidableEq, Repr

/-- The lines of a program. -/
inductive Line (Label : Type) where
  | op (op : Op)
  | label (label : Label)
  | beqz (rs : Reg) (label : Label)
  | bnez (rs : Reg) (label : Label)
  | ret
  deriving DecidableEq, Repr

/-- What loads and stores reach, one byte at an address. -/
class Bus (B : Type) where
  read : B → BitVec 32 → BitVec 8
  write : B → BitVec 32 → BitVec 8 → B

section Bus

variable {B : Type} [Bus B]

/-- Four bytes, the lowest address lowest. -/
def loadWord (b : B) (a : BitVec 32) : BitVec 32 :=
  Bus.read b (a + 3#32) ++ Bus.read b (a + 2#32) ++ Bus.read b (a + 1#32) ++ Bus.read b a

def storeByte (b : B) (a v : BitVec 32) : B := Bus.write b a (v.extractLsb' 0 8)

def storeHalf (b : B) (a v : BitVec 32) : B :=
  Bus.write (storeByte b a v) (a + 1#32) (v.extractLsb' 8 8)

def storeWord (b : B) (a v : BitVec 32) : B :=
  Bus.write (Bus.write (storeHalf b a v) (a + 2#32) (v.extractLsb' 16 8)) (a + 3#32)
    (v.extractLsb' 24 8)

/-- The addresses of a region hold what is written to them, and a write to one of them changes no
other byte. -/
structure IsMemory (B : Type) [Bus B] (region : BitVec 32 → Prop) : Prop where
  read_write_self : ∀ (b : B) (a : BitVec 32) (v : BitVec 8), region a →
    Bus.read (Bus.write b a v) a = v
  read_write_of_ne : ∀ (b : B) (a a' : BitVec 32) (v : BitVec 8), region a → a' ≠ a →
    Bus.read (Bus.write b a v) a' = Bus.read b a'

variable {region : BitVec 32 → Prop} {b : B} {a a' v : BitVec 32}

/-- What holds of the addresses of all bytes of a word. -/
theorem forall_bytes {P : BitVec 32 → Prop} (h : ∀ k < 4, P (a + BitVec.ofNat 32 k)) :
    P a ∧ P (a + 1#32) ∧ P (a + 2#32) ∧ P (a + 3#32) := by
  have hfirst := h 0 (by decide)
  rw [show a + BitVec.ofNat 32 0 = a from BitVec.add_zero a] at hfirst
  exact ⟨hfirst, h 1 (by decide), h 2 (by decide), h 3 (by decide)⟩

theorem IsMemory.read_storeWord_of_ne (h : IsMemory B region)
    (hregion : ∀ k < 4, region (a + BitVec.ofNat 32 k))
    (hne : ∀ k < 4, a' ≠ a + BitVec.ofNat 32 k) :
    Bus.read (storeWord b a v) a' = Bus.read b a' := by
  obtain ⟨hregion₀, hregion₁, hregion₂, hregion₃⟩ := forall_bytes hregion
  obtain ⟨hne₀, hne₁, hne₂, hne₃⟩ := forall_bytes hne
  unfold storeWord storeHalf storeByte
  rw [h.read_write_of_ne _ _ _ _ hregion₃ hne₃, h.read_write_of_ne _ _ _ _ hregion₂ hne₂,
    h.read_write_of_ne _ _ _ _ hregion₁ hne₁, h.read_write_of_ne _ _ _ _ hregion₀ hne₀]

/-- A word that is stored is loaded again. -/
theorem IsMemory.loadWord_storeWord_self (h : IsMemory B region)
    (hregion : ∀ k < 4, region (a + BitVec.ofNat 32 k)) : loadWord (storeWord b a v) a = v := by
  obtain ⟨hregion₀, hregion₁, hregion₂, hregion₃⟩ := forall_bytes hregion
  have hparts : v.extractLsb' 24 8 ++ v.extractLsb' 16 8 ++ v.extractLsb' 8 8 ++
      v.extractLsb' 0 8 = v := by
    rw [BitVec.extractLsb'_append_extractLsb'_eq_extractLsb' (by omega),
      BitVec.extractLsb'_append_extractLsb'_eq_extractLsb' (by omega),
      BitVec.extractLsb'_append_extractLsb'_eq_extractLsb' (by omega)]
    exact BitVec.extractLsb'_eq_self
  have hread : ∀ (b : B), Bus.read b (a + 3#32) = v.extractLsb' 24 8 →
      Bus.read b (a + 2#32) = v.extractLsb' 16 8 → Bus.read b (a + 1#32) = v.extractLsb' 8 8 →
      Bus.read b a = v.extractLsb' 0 8 → loadWord b a = v := by
    intro b h₃ h₂ h₁ h₀
    unfold loadWord
    rw [h₃, h₂, h₁, h₀, hparts]
  unfold storeWord storeHalf storeByte
  apply hread
  · exact h.read_write_self _ _ _ hregion₃
  · rw [h.read_write_of_ne _ _ _ _ hregion₃ (by bv_omega)]
    exact h.read_write_self _ _ _ hregion₂
  · rw [h.read_write_of_ne _ _ _ _ hregion₃ (by bv_omega),
      h.read_write_of_ne _ _ _ _ hregion₂ (by bv_omega)]
    exact h.read_write_self _ _ _ hregion₁
  · rw [h.read_write_of_ne _ _ _ _ hregion₃ (by bv_omega),
      h.read_write_of_ne _ _ _ _ hregion₂ (by bv_omega),
      h.read_write_of_ne _ _ _ _ hregion₁ (by bv_omega)]
    exact h.read_write_self _ _ _ hregion₀

/-- A word at other addresses is left alone. -/
theorem IsMemory.loadWord_storeWord_of_ne (h : IsMemory B region)
    (hregion : ∀ k < 4, region (a + BitVec.ofNat 32 k))
    (hne : ∀ k < 4, ∀ k' < 4, a' + BitVec.ofNat 32 k' ≠ a + BitVec.ofNat 32 k) :
    loadWord (storeWord b a v) a' = loadWord b a' := by
  have hbyte : ∀ k' < 4, Bus.read (storeWord b a v) (a' + BitVec.ofNat 32 k') =
      Bus.read b (a' + BitVec.ofNat 32 k') :=
    fun k' hk' ↦ h.read_storeWord_of_ne hregion fun k hk ↦ hne k hk k' hk'
  obtain ⟨hbyte₀, hbyte₁, hbyte₂, hbyte₃⟩ :=
    forall_bytes (P := fun x ↦ Bus.read (storeWord b a v) x = Bus.read b x) hbyte
  unfold loadWord
  rw [hbyte₃, hbyte₂, hbyte₁, hbyte₀]

end Bus

/-- The registers and the bus. -/
structure Cpu (B : Type) where
  regs : Reg → BitVec 32
  bus : B

namespace Cpu

variable {B : Type}

/-- The register `zero` reads as zero. -/
def get (c : Cpu B) (r : Reg) : BitVec 32 := if r = .zero then 0#32 else c.regs r

def set (c : Cpu B) (r : Reg) (v : BitVec 32) : Cpu B :=
  { c with regs := Function.update c.regs r v }

def setBus (c : Cpu B) (bus : B) : Cpu B := { c with bus := bus }

/-- The address of a load or a store. -/
def address (c : Cpu B) (base : Reg) (offset : BitVec 12) : BitVec 32 :=
  c.get base + offset.signExtend 32

def exec [Bus B] (c : Cpu B) : Op → Cpu B
  | .li rd imm => c.set rd imm
  | .addi rd rs imm => c.set rd (c.get rs + imm.signExtend 32)
  | .andi rd rs imm => c.set rd (c.get rs &&& imm.signExtend 32)
  | .ori rd rs imm => c.set rd (c.get rs ||| imm.signExtend 32)
  | .slli rd rs shamt => c.set rd (c.get rs <<< shamt)
  | .srli rd rs shamt => c.set rd (c.get rs >>> shamt)
  | .or rd rs rs' => c.set rd (c.get rs ||| c.get rs')
  | .lw rd offset base => c.set rd (loadWord c.bus (c.address base offset))
  | .lbu rd offset base => c.set rd ((Bus.read c.bus (c.address base offset)).setWidth 32)
  | .sw rs offset base => c.setBus (storeWord c.bus (c.address base offset) (c.get rs))
  | .sh rs offset base => c.setBus (storeHalf c.bus (c.address base offset) (c.get rs))
  | .sb rs offset base => c.setBus (storeByte c.bus (c.address base offset) (c.get rs))

@[simp]
theorem get_set (c : Cpu B) (r r' : Reg) (v : BitVec 32) :
    (c.set r v).get r' = if r' = r ∧ r ≠ .zero then v else c.get r' := by
  unfold get set
  by_cases hzero : r' = .zero
  · rw [if_pos hzero, if_pos hzero, if_neg]
    rintro ⟨rfl, hne⟩
    exact hne hzero
  · rw [if_neg hzero, if_neg hzero]
    change Function.update c.regs r v r' = _
    rw [Function.update_apply]
    by_cases hsame : r' = r
    · rw [if_pos hsame, if_pos ⟨hsame, fun h ↦ hzero (hsame.trans h)⟩]
    · rw [if_neg hsame, if_neg fun h ↦ hsame h.1]

@[simp]
theorem get_zero (c : Cpu B) : c.get .zero = 0#32 := rfl

@[simp]
theorem get_setBus (c : Cpu B) (r : Reg) (bus : B) : (c.setBus bus).get r = c.get r := rfl

@[simp]
theorem bus_set (c : Cpu B) (r : Reg) (v : BitVec 32) : (c.set r v).bus = c.bus := rfl

@[simp]
theorem bus_setBus (c : Cpu B) (bus : B) : (c.setBus bus).bus = bus := rfl

end Cpu

/-- What is left to be executed, and the machine it is executed on. -/
structure State (Label B : Type) where
  code : List (Line Label)
  cpu : Cpu B

section Program

variable {Label B : Type} [DecidableEq Label] [Bus B]

/-- The lines from a label on. -/
def goto (program : List (Line Label)) (label : Label) : List (Line Label) :=
  program.dropWhile (· ≠ .label label)

/-- One line. Nothing happens after a `ret`. -/
def step (program : List (Line Label)) (s : State Label B) : State Label B :=
  match s.code with
  | [] => s
  | .op op :: rest => { code := rest, cpu := s.cpu.exec op }
  | .label _ :: rest => { s with code := rest }
  | .beqz rs label :: rest =>
    { s with code := if s.cpu.get rs = 0#32 then goto program label else rest }
  | .bnez rs label :: rest =>
    { s with code := if s.cpu.get rs ≠ 0#32 then goto program label else rest }
  | .ret :: _ => { s with code := [] }

/-- `t` comes up in the execution from `s`. -/
def Reaches (program : List (Line Label)) (s t : State Label B) : Prop :=
  ∃ n, (step program)^[n] s = t

variable {program : List (Line Label)} {s t u : State Label B} {c : Cpu B}
  {rest : List (Line Label)}

theorem Reaches.refl (s : State Label B) : Reaches program s s := ⟨0, rfl⟩

theorem Reaches.trans (h : Reaches program s t) (h' : Reaches program t u) :
    Reaches program s u := by
  obtain ⟨n, rfl⟩ := h
  obtain ⟨n', rfl⟩ := h'
  exact ⟨n' + n, Function.iterate_add_apply _ _ _ _⟩

theorem Reaches.head (h : Reaches program (step program s) t) : Reaches program s t :=
  Reaches.trans ⟨1, rfl⟩ h

/-- An execution ends once at most. -/
theorem Reaches.ret_unique (h : Reaches program s t) (h' : Reaches program s u)
    (ht : t.code = []) (hu : u.code = []) : t = u := by
  have hstay : ∀ v : State Label B, v.code = [] → ∀ k, (step program)^[k] v = v := by
    intro v hv k
    apply Function.iterate_fixed
    simp [step, hv]
  obtain ⟨n, rfl⟩ := h
  obtain ⟨n', rfl⟩ := h'
  rcases Nat.le_total n n' with hle | hle
  · obtain ⟨k, rfl⟩ := Nat.exists_eq_add_of_le hle
    rw [Nat.add_comm, Function.iterate_add_apply, hstay _ ht]
  · obtain ⟨k, rfl⟩ := Nat.exists_eq_add_of_le hle
    rw [Nat.add_comm, Function.iterate_add_apply, hstay _ hu]

/-- Straight-line code. -/
theorem reaches_ops (ops : List Op) :
    Reaches program { code := ops.map .op ++ rest, cpu := c }
      { code := rest, cpu := ops.foldl Cpu.exec c } := by
  induction ops generalizing c with
  | nil => exact Reaches.refl _
  | cons op ops ih =>
    apply Reaches.head
    exact ih

theorem reaches_label (label : Label) :
    Reaches program { code := .label label :: rest, cpu := c } { code := rest, cpu := c } :=
  ⟨1, rfl⟩

theorem reaches_beqz (rs : Reg) (label : Label) :
    Reaches program { code := .beqz rs label :: rest, cpu := c }
      { code := if c.get rs = 0#32 then goto program label else rest, cpu := c } :=
  ⟨1, rfl⟩

theorem reaches_bnez (rs : Reg) (label : Label) :
    Reaches program { code := .bnez rs label :: rest, cpu := c }
      { code := if c.get rs ≠ 0#32 then goto program label else rest, cpu := c } :=
  ⟨1, rfl⟩

theorem reaches_ret :
    Reaches program { code := .ret :: rest, cpu := c } { code := [], cpu := c } :=
  ⟨1, rfl⟩

end Program

end Rv32
