import Mathlib.Data.Fin.Basic
import Mathlib.Data.List.GetD
import Mathlib.Data.List.Induction
import Mathlib.Data.List.OfFn

/-!
# Shift registers and chains of them

`BitVec.shiftConcat` is the register update `{x[n-2:0], b}`. A word sent most significant
bit first overwrites a register of its own width, whatever the register held.
Registers connected head to tail behave as one long register: sending a word
moves every stored word one register further.
-/

namespace Sequential.ShiftRegister

/-- The bits of a word, most significant first. -/
def msbFirst {n : ℕ} (x : BitVec n) : List Bool := List.ofFn fun i : Fin n ↦ x.getMsbD i

section Register

variable {n : ℕ}

/-- After a list of bits the low end of the register holds the latest bits, last bit lowest. -/
theorem getLsbD_foldl_shiftConcat (x : BitVec n) (bits : List Bool) (i : ℕ) (hi : i < n) :
    (bits.foldl BitVec.shiftConcat x).getLsbD i =
      if i < bits.length then bits.reverse.getD i false else x.getLsbD (i - bits.length) := by
  induction bits using List.reverseRecOn generalizing i with
  | nil => simp
  | append_singleton bits b ih =>
    rw [List.foldl_append, List.foldl_cons, List.foldl_nil, BitVec.getLsbD_shiftConcat]
    cases i with
    | zero => simp [hi]
    | succ i =>
      have hlast := ih i (by omega)
      simp only [hi, decide_true, Bool.true_and, Nat.add_one_ne_zero, if_false,
        Nat.add_sub_cancel, hlast, List.length_append, List.length_singleton,
        List.reverse_append, List.reverse_singleton, List.singleton_append,
        List.getD_cons_succ, Nat.add_lt_add_iff_right, Nat.add_sub_add_right]

@[simp]
theorem length_msbFirst (x : BitVec n) : (msbFirst x).length = n := by
  simp [msbFirst]

theorem getElem_msbFirst (x : BitVec n) (i : ℕ) (hi : i < (msbFirst x).length) :
    (msbFirst x)[i] = x.getMsbD i := by
  simp [msbFirst]

theorem take_succ_msbFirst (x : BitVec n) (i : ℕ) (hi : i < n) :
    (msbFirst x).take (i + 1) = (msbFirst x).take i ++ [x.getMsbD i] := by
  rw [← List.take_append_getElem (by simpa using hi)]
  simp [msbFirst]

theorem getD_reverse_msbFirst (x : BitVec n) (i : ℕ) (hi : i < n) :
    (msbFirst x).reverse.getD i false = x.getLsbD i := by
  rw [List.getD_eq_getElem _ _ (by simpa using hi), List.getElem_reverse]
  simp only [msbFirst, List.length_ofFn, List.getElem_ofFn, BitVec.getMsbD_eq_getLsbD]
  have hindex : n - 1 - (n - 1 - i) = i := by omega
  simp only [hindex, show n - 1 - i < n by omega, decide_true, Bool.true_and]

theorem msbFirst_append {m : ℕ} (x : BitVec m) (y : BitVec n) :
    msbFirst (x ++ y) = msbFirst x ++ msbFirst y := by
  apply List.ext_getElem (by simp)
  intro i hi hi'
  rw [getElem_msbFirst, BitVec.getMsbD_append]
  by_cases hhigh : i < m
  · rw [if_neg (by omega), List.getElem_append_left (by simpa using hhigh), getElem_msbFirst]
  · rw [if_pos (by omega), List.getElem_append_right (by simpa using hhigh), getElem_msbFirst,
      length_msbFirst]

/-- What is left of a word once the bits above it are shifted out. -/
theorem take_msbFirst_shiftLeft {m : ℕ} (x : BitVec n) (hm : m ≤ n) :
    (msbFirst (x <<< (n - m))).take m = msbFirst (x.setWidth m) := by
  apply List.ext_getElem (by simpa using hm)
  intro i hi hi'
  rw [length_msbFirst] at hi'
  rw [List.getElem_take, getElem_msbFirst, getElem_msbFirst, BitVec.getMsbD_shiftLeft,
    BitVec.getMsbD_eq_getLsbD, BitVec.getMsbD_eq_getLsbD, BitVec.getLsbD_setWidth,
    decide_eq_true hi', decide_eq_true (show m - 1 - i < m by omega),
    decide_eq_true (show i + (n - m) < n by omega), show n - 1 - (i + (n - m)) = m - 1 - i by omega,
    Bool.true_and, Bool.true_and]

/-- As many bits as the register is wide leave nothing of what it held. -/
theorem foldl_shiftConcat_eq_of_length (old old' : BitVec n) (bits : List Bool)
    (h : n ≤ bits.length) :
    bits.foldl BitVec.shiftConcat old = bits.foldl BitVec.shiftConcat old' := by
  apply BitVec.eq_of_getLsbD_eq
  intro i hi
  rw [getLsbD_foldl_shiftConcat _ _ i hi, getLsbD_foldl_shiftConcat _ _ i hi,
    if_pos (by omega), if_pos (by omega)]

/-- The register after `sent` of its bits have been shifted out and zeros have come in. -/
def shiftOut (x : BitVec n) (sent : ℕ) : BitVec n :=
  (List.replicate sent false).foldl BitVec.shiftConcat x

@[simp]
theorem shiftOut_zero (x : BitVec n) : shiftOut x 0 = x := rfl

theorem shiftConcat_shiftOut (x : BitVec n) (sent : ℕ) :
    (shiftOut x sent).shiftConcat false = shiftOut x (sent + 1) := by
  simp [shiftOut, List.replicate_succ', List.foldl_append]

/-- The top bit of the register is the next one to be sent. -/
theorem getLsbD_shiftOut_top (x : BitVec (n + 1)) (sent : ℕ) (hsent : sent < n + 1) :
    (shiftOut x sent).getLsbD n = x.getMsbD sent := by
  rw [shiftOut, getLsbD_foldl_shiftConcat _ _ _ (by omega), List.length_replicate,
    if_neg (by omega), BitVec.getMsbD_eq_getLsbD]
  simp [hsent]

theorem eq_of_msbFirst {x y : BitVec n} (h : msbFirst x = msbFirst y) : x = y := by
  apply BitVec.eq_of_getMsbD_eq
  intro i hi
  exact congrFun (List.ofFn_injective h) ⟨i, hi⟩

theorem length_flatMap_msbFirst (k : ℕ) (word : ℕ → BitVec n) :
    ((List.range k).flatMap fun i ↦ msbFirst (word i)).length = n * k := by
  induction k with
  | zero => rfl
  | succ k ih =>
    rw [List.range_succ, List.flatMap_append, List.length_append, ih, List.flatMap_singleton,
      length_msbFirst, Nat.mul_succ]

/-- The words can be told from the bits sent. -/
theorem flatMap_msbFirst_eq_iff (k : ℕ) (word word' : ℕ → BitVec n) :
    ((List.range k).flatMap fun i ↦ msbFirst (word i)) =
        (List.range k).flatMap (fun i ↦ msbFirst (word' i)) ↔ ∀ i < k, word i = word' i := by
  induction k with
  | zero => simp
  | succ k ih =>
    rw [List.range_succ, List.flatMap_append, List.flatMap_append, List.flatMap_singleton,
      List.flatMap_singleton, Nat.forall_lt_succ_right, ← ih]
    constructor
    · intro h
      obtain ⟨hinit, hlast⟩ := List.append_inj h (by simp only [length_flatMap_msbFirst])
      exact ⟨hinit, eq_of_msbFirst hlast⟩
    · rintro ⟨hinit, hlast⟩
      rw [hinit, hlast]

end Register

/-! ## Chains -/

/-- `m` registers of `n` bits; register 0 is the one next to the data input. -/
abbrev Chain (m n : ℕ) := Fin m → BitVec n

namespace Chain

variable {m n : ℕ}

/-- One clock: register 0 takes the input bit, every other one the top bit of its predecessor. -/
def shift (chain : Chain m n) (b : Bool) : Chain m n := fun i ↦
  (chain i).shiftConcat (if h : i.val = 0 then b else (chain ⟨i.val - 1, by omega⟩).msb)

/-- Move every stored word one register further and store a new one in register 0. -/
def push (chain : Chain m n) (word : BitVec n) : Chain m n := fun i ↦
  if h : i.val = 0 then word else chain ⟨i.val - 1, by omega⟩

/-- After at most `n` clocks register `i` holds the tail of its own word and, below it, the head
of what was sent or of its predecessor's word. -/
theorem getLsbD_foldl_shift (chain : Chain m n) (bits : List Bool) (hbits : bits.length ≤ n)
    (i : Fin m) (j : ℕ) (hj : j < n) :
    (bits.foldl shift chain i).getLsbD j =
      if bits.length ≤ j then (chain i).getLsbD (j - bits.length)
      else if _h : i.val = 0 then bits.reverse.getD j false
      else (chain ⟨i.val - 1, by omega⟩).getLsbD (n + j - bits.length) := by
  induction bits using List.reverseRecOn generalizing i j with
  | nil => simp
  | append_singleton bits b ih =>
    have hlen : bits.length < n := by simp at hbits; omega
    rw [List.foldl_append, List.foldl_cons, List.foldl_nil, shift, BitVec.getLsbD_shiftConcat]
    cases j with
    | zero =>
      simp only [hj, decide_true, Bool.true_and, if_true, List.length_append,
        List.length_singleton, Nat.le_zero, Nat.add_one_ne_zero, if_false, List.reverse_append,
        List.reverse_singleton, List.singleton_append, List.getD_cons_zero, Nat.add_zero]
      split
      · rfl
      · rw [BitVec.msb_eq_getLsbD_last, ih hlen.le _ _ (by omega), if_pos (by omega)]
        congr 1
        omega
    | succ j =>
      have hlast := ih hlen.le i j (by omega)
      simp only [hj, decide_true, Bool.true_and, Nat.add_one_ne_zero, if_false,
        Nat.add_sub_cancel, hlast, List.length_append, List.length_singleton, List.reverse_append,
        List.reverse_singleton, List.singleton_append, List.getD_cons_succ,
        Nat.add_le_add_iff_right, Nat.add_sub_add_right]
      split
      · rfl
      · split
        · rfl
        · congr 1
          omega

/-- Sending one word is one push. -/
theorem foldl_shift_msbFirst (chain : Chain m n) (word : BitVec n) :
    (msbFirst word).foldl shift chain = chain.push word := by
  funext i
  apply BitVec.eq_of_getLsbD_eq
  intro j hj
  rw [getLsbD_foldl_shift chain _ (by simp) i j hj, length_msbFirst, if_neg (by omega), push]
  split
  · exact getD_reverse_msbFirst word j hj
  · rw [Nat.add_sub_cancel_left]

/-- Words pushed into a chain arrive in reverse order: the last one is nearest the input. -/
theorem foldl_push (chain : Chain m n) (words : List (BitVec n)) (i : Fin m)
    (hi : i.val < words.length) :
    words.foldl push chain i = words[words.length - 1 - i.val] := by
  induction words using List.reverseRecOn generalizing i with
  | nil => simp at hi
  | append_singleton words word ih =>
    rw [List.foldl_append, List.foldl_cons, List.foldl_nil, push]
    split
    next h => simp [h]
    next h =>
      have hlt : i.val - 1 < words.length := by simp at hi; omega
      have hbound : words.length - 1 - (i.val - 1) < (words ++ [word]).length := by simp; omega
      calc
        words.foldl push chain ⟨i.val - 1, by omega⟩
        _ = words[words.length - 1 - (i.val - 1)] := ih ⟨i.val - 1, by omega⟩ hlt
        _ = (words ++ [word])[words.length - 1 - (i.val - 1)] :=
          (List.getElem_append_left (by omega)).symm
        _ = (words ++ [word])[(words ++ [word]).length - 1 - i.val] := by
          congr 1
          simp
          omega

/-- Sending a list of words, each most significant bit first, pushes them one after another. -/
theorem foldl_shift_flatMap (chain : Chain m n) (words : List (BitVec n)) :
    (words.flatMap msbFirst).foldl shift chain = words.foldl push chain := by
  induction words generalizing chain with
  | nil => rfl
  | cons word rest ih =>
    calc
      ((word :: rest).flatMap msbFirst).foldl shift chain
      _ = (rest.flatMap msbFirst).foldl shift ((msbFirst word).foldl shift chain) := by
        rw [List.flatMap_cons, List.foldl_append]
      _ = (rest.flatMap msbFirst).foldl shift (chain.push word) := by rw [foldl_shift_msbFirst]
      _ = rest.foldl push (chain.push word) := ih _

end Chain

end Sequential.ShiftRegister
