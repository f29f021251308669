import CaravelSoc.Sequential.Run
import Mathlib.Data.BitVec
import Mathlib.Logic.Function.Basic

/-!
# Buffered ring FIFO

A ring of `2 ^ k` words with a produce and a consume pointer, a level counter and
an output register: the word at the head of the queue is fetched into the output
register as soon as that is free. The queue it implements is the output register
followed by the words of the ring, and a clock appends what is accepted and drops
what is taken, whatever happens at the same clock.
-/

namespace Sequential

variable {α : Type*} {k : ℕ}

/-- The registers of the FIFO. `readable` says that the output register is full. -/
structure Fifo (α : Type*) (k : ℕ) where
  storage : BitVec k → α
  produce : BitVec k
  consume : BitVec k
  level : BitVec (k + 1)
  readable : Bool
  dout : α

namespace Fifo

/-- What is asked of the FIFO at a clock: a word to be written, and to drop the one shown. -/
structure Request (α : Type*) where
  write : Option α
  re : Bool

def writable (f : Fifo α k) : Bool := f.level != BitVec.twoPow (k + 1) k

/-- The ring is not empty. -/
def ringReadable (f : Fifo α k) : Bool := f.level != 0#(k + 1)

/-- The head of the ring is fetched. -/
def doRead (f : Fifo α k) (re : Bool) : Bool := f.ringReadable && (!f.readable || re)

/-- The word that is stored in the ring. -/
def accepted (f : Fifo α k) (i : Request α) : List α := if f.writable then i.write.toList else []

/-- The word that is taken from the output register. -/
def taken (f : Fifo α k) (i : Request α) : List α := if i.re && f.readable then [f.dout] else []

/-- One clock. -/
def step (f : Fifo α k) (i : Request α) : Fifo α k where
  storage :=
    match f.accepted i with
    | [] => f.storage
    | word :: _ => Function.update f.storage f.produce word
  produce := if (f.accepted i).isEmpty then f.produce else f.produce + 1#k
  consume := if f.doRead i.re then f.consume + 1#k else f.consume
  level :=
    if !(f.accepted i).isEmpty then
      if !f.doRead i.re then f.level + 1#(k + 1) else f.level
    else if f.doRead i.re then f.level - 1#(k + 1)
    else f.level
  readable := if f.doRead i.re then true else if i.re then false else f.readable
  dout := if f.doRead i.re then f.storage f.consume else f.dout

/-- `count` words of the ring from a pointer on. -/
def ring (storage : BitVec k → α) (consume : BitVec k) (count : ℕ) : List α :=
  (List.range count).map fun i ↦ storage (consume + BitVec.ofNat k i)

/-- The queue. -/
def contents (f : Fifo α k) : List α :=
  (if f.readable then [f.dout] else []) ++ ring f.storage f.consume f.level.toNat

/-- The level counts the words between the pointers. -/
structure Valid (f : Fifo α k) : Prop where
  level_le : f.level.toNat ≤ 2 ^ k
  produce_eq : f.produce = f.consume + BitVec.ofNat k f.level.toNat

/-! ## The ring -/

section Ring

variable {storage : BitVec k → α} {consume : BitVec k} {count : ℕ} {word : α}

theorem ring_succ_left :
    ring storage consume (count + 1) = storage consume :: ring storage (consume + 1#k) count := by
  unfold ring
  rw [List.range_succ_eq_map, List.map_cons, List.map_map, BitVec.add_zero]
  congr 2
  funext i
  rw [Function.comp_apply, Nat.succ_eq_one_add, BitVec.ofNat_add, BitVec.add_assoc]

/-- A word stored behind the last one is the new last one. -/
theorem ring_update (hcount : count < 2 ^ k) :
    ring (Function.update storage (consume + BitVec.ofNat k count) word) consume (count + 1) =
      ring storage consume count ++ [word] := by
  unfold ring
  rw [List.range_succ, List.map_append, List.map_singleton, Function.update_self]
  congr 1
  apply List.map_congr_left
  intro i hi
  have hlt : i < count := List.mem_range.1 hi
  apply Function.update_of_ne
  intro heq
  have hsame := congrArg BitVec.toNat ((BitVec.add_right_inj consume).1 heq)
  rw [BitVec.toNat_ofNat, BitVec.toNat_ofNat, Nat.mod_eq_of_lt (by omega),
    Nat.mod_eq_of_lt hcount] at hsame
  exact hlt.ne hsame

theorem length_ring : (ring storage consume count).length = count := by simp [ring]

end Ring

/-! ## One clock -/

variable {f : Fifo α k} {i : Request α}

theorem accepted_cases (f : Fifo α k) (i : Request α) :
    f.accepted i = [] ∨
      f.writable = true ∧ ∃ word, i.write = some word ∧ f.accepted i = [word] := by
  unfold accepted
  cases hwritable : f.writable with
  | false => exact .inl rfl
  | true =>
    cases hwrite : i.write with
    | none => exact .inl rfl
    | some word => exact .inr ⟨rfl, word, rfl, rfl⟩

theorem Valid.level_lt (h : f.Valid) (hwritable : f.writable = true) : f.level.toNat < 2 ^ k := by
  refine lt_of_le_of_ne h.level_le fun heq ↦ ?_
  have hfull : f.level = BitVec.twoPow (k + 1) k := by
    apply BitVec.eq_of_toNat_eq
    rw [heq, BitVec.toNat_twoPow, Nat.mod_eq_of_lt (Nat.pow_lt_pow_succ (by decide))]
  simp [writable, hfull] at hwritable

theorem level_pos (h : f.ringReadable = true) : 0 < f.level.toNat := by
  apply Nat.pos_of_ne_zero
  intro hzero
  have hempty : f.level = 0#(k + 1) := BitVec.eq_of_toNat_eq (by rw [hzero, BitVec.toNat_zero])
  simp [ringReadable, hempty] at h

/-- How many words the ring loses to the output register. -/
def fetched (f : Fifo α k) (re : Bool) : ℕ := if f.doRead re then 1 else 0

theorem fetched_le (f : Fifo α k) (re : Bool) : f.fetched re ≤ f.level.toNat := by
  unfold fetched
  split
  · next hread =>
    rw [doRead, Bool.and_eq_true] at hread
    exact level_pos hread.1
  · exact Nat.zero_le _

theorem Valid.level_step (h : f.Valid) (i : Request α) :
    (f.step i).level.toNat = f.level.toNat + (f.accepted i).length - f.fetched i.re := by
  have hpow : 2 ^ k < 2 ^ (k + 1) := Nat.pow_lt_pow_succ (by decide)
  have hle := h.level_le
  have hfetch := f.fetched_le i.re
  have hone : (1#(k + 1)).toNat = 1 := Nat.mod_eq_of_lt (Nat.one_lt_two_pow (by omega))
  have hup : f.level.toNat < 2 ^ k → (f.level + 1#(k + 1)).toNat = f.level.toNat + 1 := by
    intro hlt
    rw [BitVec.toNat_add, hone, Nat.mod_eq_of_lt (by omega)]
  have hdown : 1 ≤ f.level.toNat → (f.level - 1#(k + 1)).toNat = f.level.toNat - 1 := by
    intro hpos
    rw [BitVec.toNat_sub_of_le (BitVec.le_def.2 (by rw [hone]; exact hpos)), hone]
  unfold fetched at hfetch ⊢
  rcases f.accepted_cases i with hnone | ⟨hwritable, word, -, hone⟩
  · simp only [step, hnone, List.isEmpty_nil, List.length_nil]
    cases hread : f.doRead i.re with
    | false => simp
    | true =>
      rw [hread] at hfetch
      simpa using hdown hfetch
  · have hlt := h.level_lt hwritable
    simp only [step, hone, List.isEmpty_cons, List.length_singleton]
    cases f.doRead i.re with
    | false => simpa using hup hlt
    | true => simp

/-- The ring with the word that is stored, before anything is fetched. -/
theorem Valid.ring_accept (h : f.Valid) (i : Request α) :
    ring (f.step i).storage f.consume (f.level.toNat + (f.accepted i).length) =
      ring f.storage f.consume f.level.toNat ++ f.accepted i := by
  rcases f.accepted_cases i with hnone | ⟨hwritable, word, -, hone⟩
  · simp [step, hnone]
  · simp only [step, hone, List.length_singleton, h.produce_eq]
    exact ring_update (h.level_lt hwritable)

theorem valid_step (h : f.Valid) (i : Request α) : (f.step i).Valid := by
  have hlevel := h.level_step i
  have hfetch := f.fetched_le i.re
  have hproduce : (f.step i).produce =
      f.consume + BitVec.ofNat k (f.level.toNat + (f.accepted i).length) := by
    rcases f.accepted_cases i with hnone | ⟨-, word, -, hone⟩
    · simp [step, hnone, h.produce_eq]
    · simp [step, hone, h.produce_eq, BitVec.ofNat_add, BitVec.add_assoc]
  have hconsume : (f.step i).consume = f.consume + BitVec.ofNat k (f.fetched i.re) := by
    unfold fetched
    simp only [step]
    split <;> simp
  constructor
  · rw [hlevel]
    rcases f.accepted_cases i with hnone | ⟨hwritable, word, -, hone⟩
    · rw [hnone, List.length_nil]
      exact (Nat.sub_le _ _).trans h.level_le
    · rw [hone, List.length_singleton]
      exact (Nat.sub_le _ _).trans (h.level_lt hwritable)
  · rw [hproduce, hconsume, hlevel, BitVec.add_assoc, ← BitVec.ofNat_add,
      Nat.add_sub_cancel' (hfetch.trans (Nat.le_add_right _ _))]

/-- The ring after a clock: the stored word behind the others, the fetched one dropped. -/
theorem Valid.ring_step (h : f.Valid) (i : Request α) :
    ring f.storage f.consume f.level.toNat ++ f.accepted i =
      (if f.doRead i.re then [f.storage f.consume] else []) ++
        ring (f.step i).storage (f.step i).consume (f.step i).level.toNat := by
  have hlevel := h.level_step i
  have hfetch := f.fetched_le i.re
  rw [← h.ring_accept i, hlevel]
  unfold fetched at hfetch ⊢
  cases hread : f.doRead i.re with
  | false => simp [step, hread]
  | true =>
    rw [hread, if_pos rfl] at hfetch
    obtain ⟨n, hn⟩ := Nat.exists_eq_add_of_le' hfetch
    -- the word fetched is not the one that is stored at this clock
    have hhead : (f.step i).storage f.consume = f.storage f.consume := by
      have hall := h.ring_accept i
      rw [hn, Nat.add_right_comm, ring_succ_left, ring_succ_left, List.cons_append] at hall
      exact (List.cons.inj hall).1
    rw [hn, Nat.add_right_comm, ring_succ_left, hhead]
    simp [step, hread]

/-- **The queue.** Over one clock what is accepted goes in behind and what is taken comes off the
front. -/
theorem contents_step (h : f.Valid) (i : Request α) :
    f.contents ++ f.accepted i = f.taken i ++ (f.step i).contents := by
  have hring := h.ring_step i
  unfold contents taken
  rw [List.append_assoc, hring]
  cases hreadable : f.readable with
  | true =>
    cases hre : i.re with
    | true =>
      cases hread : f.doRead true <;> simp [step, hre, hread]
    | false =>
      have hread : f.doRead false = false := by simp [doRead, hreadable]
      simp [step, hre, hread, hreadable]
  | false =>
    cases hread : f.doRead i.re with
    | true => simp [step, hread]
    | false => cases hre : i.re <;> simp_all [step]

/-- The word shown is the first of the queue. -/
theorem contents_of_readable (h : f.readable = true) :
    f.contents = f.dout :: ring f.storage f.consume f.level.toNat := by
  rw [contents, if_pos h, List.singleton_append]

theorem writable_of_level_lt (h : f.level.toNat < 2 ^ k) : f.writable = true := by
  rw [writable, bne_iff_ne]
  intro hfull
  rw [hfull, BitVec.toNat_twoPow, Nat.mod_eq_of_lt (Nat.pow_lt_pow_succ (by decide))] at h
  exact lt_irrefl _ h

/-- Room is lost only to a word that is written. -/
theorem writable_step (h : f.Valid) (hwritable : f.writable = true) (hnone : i.write = none) :
    (f.step i).writable = true := by
  have haccepted : f.accepted i = [] := by simp [accepted, hnone]
  have hlevel := h.level_step i
  rw [haccepted, List.length_nil] at hlevel
  apply writable_of_level_lt
  rw [hlevel]
  exact (Nat.sub_le _ _).trans_lt (h.level_lt hwritable)

/-- A queue shows its first word after every clock without a write. -/
theorem readable_of_contents (hnone : i.write = none) (hne : (f.step i).contents ≠ []) :
    (f.step i).readable = true := by
  have haccepted : f.accepted i = [] := by simp [accepted, hnone]
  cases hread : f.doRead i.re with
  | true => simp [step, hread]
  | false =>
    by_contra hempty
    rw [Bool.not_eq_true] at hempty
    have hshown : i.re = true ∨ f.readable = false := by
      cases hre : i.re with
      | true => exact .inl rfl
      | false =>
        rw [hre] at hread
        exact .inr (by simpa [step, hread, hre] using hempty)
    have hring : f.ringReadable = false := by
      rcases hshown with hre | hreadable
      · simpa [doRead, hre] using hread
      · simpa [doRead, hreadable] using hread
    rw [ringReadable, bne_eq_false_iff_eq] at hring
    apply hne
    rw [contents, hempty]
    simp [step, haccepted, hread, hring, ring]

theorem level_le_length_contents (f : Fifo α k) : f.level.toNat ≤ f.contents.length := by
  rw [contents, List.length_append, length_ring]
  exact Nat.le_add_left _ _

theorem length_contents_le (h : f.Valid) : f.contents.length ≤ 2 ^ k + 1 := by
  have hle := h.level_le
  rw [contents, List.length_append, length_ring]
  split
  · rw [List.length_singleton]
    omega
  · rw [List.length_nil]
    omega

end Fifo

end Sequential
