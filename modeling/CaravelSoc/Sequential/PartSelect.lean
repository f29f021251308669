import Mathlib.Algebra.GroupWithZero.Nat

/-!
# Part-select assignment

`setPart x lo v` is the register update `x[lo+w-1:lo] <= v` for a value `v` of
width `w`. Reading a part back is `BitVec.extractLsb'`.
-/

namespace Sequential

variable {n w w' : ℕ}

/-- `x[lo+w-1:lo] <= v`: replace `w` bits from `lo` on and keep the others. -/
def setPart (x : BitVec n) (lo : ℕ) (v : BitVec w) : BitVec n :=
  (x &&& ~~~((BitVec.allOnes w).setWidth n <<< lo)) ||| (v.setWidth n <<< lo)

theorem getLsbD_setPart (x : BitVec n) (lo : ℕ) (v : BitVec w) (i : ℕ) (hi : i < n) :
    (setPart x lo v).getLsbD i =
      if lo ≤ i ∧ i < lo + w then v.getLsbD (i - lo) else x.getLsbD i := by
  simp only [setPart, BitVec.getLsbD_or, BitVec.getLsbD_and, BitVec.getLsbD_not,
    BitVec.getLsbD_shiftLeft, BitVec.getLsbD_setWidth, BitVec.getLsbD_allOnes, hi, decide_true,
    Bool.true_and]
  by_cases hlo : i < lo
  · simp [hlo, show ¬lo ≤ i by omega]
  · by_cases hw : i < lo + w
    · simp [hlo, hw, show lo ≤ i by omega, show i - lo < w by omega, show i - lo < n by omega]
    · have hzero : v.getLsbD (i - lo) = false := BitVec.getLsbD_of_ge v _ (by omega)
      simp [hw, hzero, show ¬i - lo < w by omega]

/-- The part just assigned reads back. -/
@[simp]
theorem extractLsb'_setPart_self (x : BitVec n) (lo : ℕ) (v : BitVec w) (h : lo + w ≤ n) :
    (setPart x lo v).extractLsb' lo w = v := by
  apply BitVec.eq_of_getLsbD_eq
  intro i hi
  rw [BitVec.getLsbD_extractLsb', getLsbD_setPart _ _ _ _ (by omega), if_pos (by omega)]
  simp [hi]

/-- A part disjoint from the one assigned is kept. -/
theorem extractLsb'_setPart_of_disjoint (x : BitVec n) (lo lo' : ℕ) (v : BitVec w)
    (h : lo' + w' ≤ lo ∨ lo + w ≤ lo') :
    (setPart x lo v).extractLsb' lo' w' = x.extractLsb' lo' w' := by
  apply BitVec.eq_of_getLsbD_eq
  intro i hi
  rw [BitVec.getLsbD_extractLsb', BitVec.getLsbD_extractLsb']
  by_cases hn : lo' + i < n
  · rw [getLsbD_setPart _ _ _ _ hn, if_neg (by omega)]
  · rw [BitVec.getLsbD_of_ge _ _ (by omega), BitVec.getLsbD_of_ge _ _ (by omega)]

/-- A low part of a register follows the assignments made inside it. -/
theorem extractLsb'_zero_setPart (x : BitVec n) (lo m : ℕ) (v : BitVec w) (hm : m ≤ n) :
    (setPart x lo v).extractLsb' 0 m = setPart (x.extractLsb' 0 m) lo v := by
  apply BitVec.eq_of_getLsbD_eq
  intro i hi
  rw [BitVec.getLsbD_extractLsb', getLsbD_setPart _ _ _ _ hi, Nat.zero_add,
    getLsbD_setPart _ _ _ _ (by omega)]
  by_cases hpart : lo ≤ i ∧ i < lo + w
  · simp [hi, hpart]
  · simp [hi, hpart]

/-- One byte of a register after another has been assigned. -/
theorem byte_setPart (x : BitVec n) (byte byte' : ℕ) (v : BitVec 8) (hn : 8 * byte + 8 ≤ n) :
    (setPart x (8 * byte) v).extractLsb' (8 * byte') 8 =
      if byte' = byte then v else x.extractLsb' (8 * byte') 8 := by
  by_cases hbyte : byte' = byte
  · subst hbyte
    rw [if_pos rfl, extractLsb'_setPart_self _ _ _ hn]
  · rw [if_neg hbyte]
    exact extractLsb'_setPart_of_disjoint _ _ _ _ (by omega)

/-- The low bits under zeros are a mask. -/
theorem zero_append_extractLsb' {k : ℕ} (x : BitVec (k + w)) :
    0#k ++ x.extractLsb' 0 w = x &&& (BitVec.allOnes w).setWidth (k + w) := by
  ext i hi
  simp only [BitVec.getElem_append, BitVec.getElem_and, BitVec.getElem_setWidth,
    BitVec.getLsbD_allOnes, BitVec.getElem_extractLsb', BitVec.getElem_zero, Nat.zero_add]
  by_cases hw : i < w
  · rw [dif_pos hw]
    simp [hw, BitVec.getLsbD_eq_getElem hi]
  · simp [hw]

/-- The bytes of a word are numbered by `Fin 4`. -/
instance neZeroBytes : NeZero 4 := ⟨by decide⟩

/-- One byte of four. -/
theorem extractLsb'_append_bytes (v : ℕ → BitVec 8) (byte : ℕ) (hbyte : byte < 4) :
    (v 3 ++ v 2 ++ v 1 ++ v 0 : BitVec 32).extractLsb' (8 * byte) 8 = v byte := by
  have hcases : byte = 0 ∨ byte = 1 ∨ byte = 2 ∨ byte = 3 := by omega
  ext i hi
  simp only [BitVec.getElem_extractLsb', BitVec.getLsbD_append]
  rcases hcases with rfl | rfl | rfl | rfl
  · simp [hi]
  · simp [hi]
  · simp [show ¬16 + i < 8 by omega, show ¬16 + i - 8 < 8 by omega,
      show 16 + i - 8 - 8 = i by omega, hi]
  · simp [show ¬24 + i < 8 by omega, show ¬24 + i - 8 < 8 by omega,
      show ¬24 + i - 8 - 8 < 8 by omega, show 24 + i - 8 - 8 - 8 = i by omega, hi]

/-- A word is determined by its four bytes. -/
theorem eq_of_bytes {x y : BitVec 32}
    (h : ∀ byte : Fin 4, x.extractLsb' (8 * byte) 8 = y.extractLsb' (8 * byte) 8) : x = y := by
  apply BitVec.eq_of_getLsbD_eq
  intro i hi
  have hbyte := congrArg (·.getLsbD (i % 8)) (h ⟨i / 8, by omega⟩)
  have hlt : i % 8 < 8 := Nat.mod_lt i (by omega)
  simpa [hlt, Nat.div_add_mod] using hbyte

end Sequential
