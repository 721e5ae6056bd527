import Mathlib.Data.Nat.Bitwise
import Mathlib.Tactic.Ring

/-!
# 32-bit machine words over the naturals

A 32-bit unsigned word is a natural number below `2 ^ 32`, and the operations of
an unsigned C type are the natural ones reduced modulo `2 ^ 32`. Sums and
differences that stay in range are exact, which is what the lemmas below record;
masks of low bits and of the top bit become remainders and quotients, so that
linear arithmetic can finish.

## Main definitions

* `wadd`, `wsub`, `wnot` — wrapping addition, wrapping subtraction, complement

## Main results

* `wadd_of_lt`, `wsub_of_le` — no wrap, exact result
* `land_three`, `land_wnot_three` — alignment masks as remainders
* `land_top_eq_zero_iff`, `lor_top`, `land_wnot_top` — the tag bit
-/

namespace Components.Word

/-- Addition modulo `2 ^ 32`. -/
def wadd (a b : ℕ) : ℕ := (a + b) % 2 ^ 32

/-- Subtraction modulo `2 ^ 32`. -/
def wsub (a b : ℕ) : ℕ := (a + 2 ^ 32 - b) % 2 ^ 32

/-- The bitwise complement of a word. -/
def wnot (a : ℕ) : ℕ := 2 ^ 32 - 1 - a

variable {a b x : ℕ}

theorem wadd_of_lt (h : a + b < 2 ^ 32) : wadd a b = a + b :=
  Nat.mod_eq_of_lt h

theorem wsub_of_le (h : b ≤ a) (ha : a < 2 ^ 32) : wsub a b = a - b := by
  unfold wsub
  omega

/-! ### Alignment masks -/

theorem land_three (x : ℕ) : x &&& 3 = x % 4 :=
  Nat.and_two_pow_sub_one_eq_mod x 2

theorem wnot_three : wnot 3 = (2 ^ 30 - 1) <<< 2 := by decide

/-- Clearing the two low bits of a word rounds it down to a multiple of four. -/
theorem land_wnot_three (hx : x < 2 ^ 32) : x &&& wnot 3 = x / 4 * 4 := by
  have shifted : x / 4 * 4 = (x >>> 2) <<< 2 := by
    rw [Nat.shiftLeft_eq, Nat.shiftRight_eq_div_pow]
  rw [wnot_three, shifted]
  refine Nat.eq_of_testBit_eq fun i => ?_
  simp only [Nat.testBit_and, Nat.testBit_shiftLeft, Nat.testBit_shiftRight,
    Nat.testBit_two_pow_sub_one]
  by_cases low : 2 ≤ i
  · have index : 2 + (i - 2) = i := by omega
    simp only [low, index, decide_true, Bool.true_and]
    by_cases high : i - 2 < 30
    · simp [high]
    · have clear : x.testBit i = false :=
        Nat.testBit_lt_two_pow (hx.trans_le (Nat.pow_le_pow_right two_pos (by omega)))
      simp [clear]
  · simp [low]

/-! ### The top bit -/

theorem land_top_eq_zero_iff (hx : x < 2 ^ 32) : x &&& 2 ^ 31 = 0 ↔ x < 2 ^ 31 := by
  rw [Nat.and_two_pow]
  constructor
  · intro clear
    by_contra large
    have set : x.testBit 31 = true := by
      rw [Nat.testBit_eq_decide_div_mod_eq]
      simp only [decide_eq_true_eq]
      omega
    simp [set] at clear
  · intro small
    simp [Nat.testBit_lt_two_pow small]

/-- Setting the top bit of a word that has it clear adds `2 ^ 31`. -/
theorem lor_top (hx : x < 2 ^ 31) : x ||| 2 ^ 31 = x + 2 ^ 31 := by
  have sum := Nat.two_pow_add_eq_or_of_lt hx 1
  rw [mul_one] at sum
  rw [Nat.lor_comm, ← sum, Nat.add_comm]

theorem land_wnot_top (x : ℕ) : x &&& wnot (2 ^ 31) = x % 2 ^ 31 :=
  Nat.and_two_pow_sub_one_eq_mod x 31

end Components.Word
