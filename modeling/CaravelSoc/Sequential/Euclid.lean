import Mathlib.Data.Nat.Fib.Basic
import Mathlib.Data.Nat.GCD.Basic

/-!
# The length of Euclid's algorithm

Two divisions at least halve the divisor, so operands of `n` bits need at most
`2 * n` divisions, in whatever order they are given.
-/

namespace Sequential

/-- The divisions that Euclid's algorithm makes until the divisor is zero. -/
def divisions (a b : ℕ) : ℕ :=
  if h : b = 0 then 0 else divisions b (a % b) + 1
termination_by b
decreasing_by exact Nat.mod_lt a (Nat.pos_of_ne_zero h)

@[simp]
theorem divisions_zero (a : ℕ) : divisions a 0 = 0 := by
  rw [divisions, dif_pos rfl]

theorem divisions_of_ne_zero {a b : ℕ} (h : b ≠ 0) :
    divisions a b = divisions b (a % b) + 1 := by
  rw [divisions, dif_neg h]

/-- A remainder by a smaller divisor is less than half of what was divided. -/
theorem two_mul_mod_lt {b r : ℕ} (hr : 0 < r) (hle : r ≤ b) : 2 * (b % r) < b := by
  have hquotient : 1 ≤ b / r := (Nat.one_le_div_iff hr).2 hle
  have hlt : b % r < r := Nat.mod_lt b hr
  calc
    2 * (b % r) = b % r + b % r := Nat.two_mul _
    _ < r * 1 + b % r := by omega
    _ ≤ r * (b / r) + b % r := Nat.add_le_add_right (Nat.mul_le_mul_left r hquotient) _
    _ = b := Nat.div_add_mod b r

theorem divisions_le {a b n : ℕ} (h : b < 2 ^ n) : divisions a b ≤ 2 * n := by
  induction n generalizing a b with
  | zero =>
    have hzero : b = 0 := by omega
    simp [hzero]
  | succ n ih =>
    by_cases hb : b = 0
    · simp [hb]
    rw [divisions_of_ne_zero hb]
    by_cases hr : a % b = 0
    · rw [hr, divisions_zero]
      omega
    -- the second division leaves less than half of `b`
    rw [divisions_of_ne_zero hr]
    have hless : a % b < b := Nat.mod_lt a (Nat.pos_of_ne_zero hb)
    have hhalf := two_mul_mod_lt (Nat.pos_of_ne_zero hr) (Nat.le_of_lt hless)
    have hnext : b % (a % b) < 2 ^ n := by omega
    have hrest := ih (a := a % b) hnext
    omega

/-- As many divisions take a divisor as large as a Fibonacci number: every remainder and the one
behind it fit into what was divided. -/
theorem fib_divisions_le {a b : ℕ} (h : b ≠ 0) : Nat.fib (divisions a b + 1) ≤ b := by
  induction b using Nat.strong_induction_on generalizing a with
  | _ b ih =>
    have hb := Nat.pos_of_ne_zero h
    rw [divisions_of_ne_zero h]
    by_cases hr : a % b = 0
    · rw [hr, divisions_zero]
      exact hb
    have hless : a % b < b := Nat.mod_lt a hb
    have hfirst := ih (a % b) hless (a := b) hr
    have hfits : a % b + b % (a % b) ≤ b := by
      have hquotient : 1 ≤ b / (a % b) :=
        (Nat.one_le_div_iff (Nat.pos_of_ne_zero hr)).2 (Nat.le_of_lt hless)
      calc
        a % b + b % (a % b) = a % b * 1 + b % (a % b) := by rw [Nat.mul_one]
        _ ≤ a % b * (b / (a % b)) + b % (a % b) :=
          Nat.add_le_add_right (Nat.mul_le_mul_left _ hquotient) _
        _ = b := Nat.div_add_mod b (a % b)
    rw [divisions_of_ne_zero hr] at hfirst ⊢
    by_cases hs : b % (a % b) = 0
    · rw [hs, divisions_zero]
      change 2 ≤ b
      omega
    · have hsecond := ih (b % (a % b)) (Nat.lt_trans (Nat.mod_lt b (Nat.pos_of_ne_zero hr)) hless)
        (a := a % b) hs
      rw [Nat.fib_add_two]
      omega

theorem divisions_le_of_lt_fib {a b n : ℕ} (h : b < Nat.fib (n + 2)) : divisions a b ≤ n := by
  by_cases hb : b = 0
  · simp [hb]
  by_contra hmore
  have hfib : Nat.fib (n + 2) ≤ Nat.fib (divisions a b + 1) := Nat.fib_mono (by omega)
  have hle := fib_divisions_le (a := a) hb
  omega

end Sequential
