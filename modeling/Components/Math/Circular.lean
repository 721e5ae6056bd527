import Mathlib.Data.List.Basic
import Mathlib.Logic.Function.Basic
import Mathlib.Tactic.Ring

/-!
# Counters and the indices they leave in a ring

A ring buffer with `m` slots keeps two indices below `m`. Each is the remainder of a
counter that only ever grows: `a` counts what was taken out and `b` what was put in,
with `a ≤ b < a + m`. The lemmas below say what the indices still reveal about the
counters, and the last section how a list lies in the ring.

## Main definitions

* `Window` — the elements of a list stand in consecutive slots

## Main results

* `mod_eq_mod_iff`, `succ_mod_eq_mod_iff` — when the indices meet
* `sub_of_mod_le`, `sub_of_mod_lt` — how far apart the counters are
* `Window.push`, `Window.pop` — writing behind the list, stepping past its head
-/

namespace Components.Circular

variable {a b m : ℕ}

/-! ### Two counters less than one round apart -/

section Counters

variable (low : a ≤ b) (high : b < a + m)
include low high

theorem div_le_succ : b / m ≤ a / m + 1 := by
  have pos : 0 < m := by omega
  calc b / m ≤ (a + m) / m := Nat.div_le_div_right high.le
    _ = a / m + 1 := Nat.add_div_right a pos

/-- The later counter is in the same round, or in the next one. -/
theorem round_cases : b / m = a / m ∨ b / m = a / m + 1 := by
  have lower : a / m ≤ b / m := Nat.div_le_div_right low
  have upper := div_le_succ low high
  omega

/-- Indices in order: the same round. -/
theorem sub_of_mod_le (le : a % m ≤ b % m) : b % m = a % m + (b - a) := by
  have hb := Nat.div_add_mod b m
  have ha := Nat.div_add_mod a m
  rcases round_cases low high with same | next
  · rw [same] at hb
    omega
  · rw [next, Nat.mul_add] at hb
    omega

/-- Indices out of order: the later counter is one round ahead. -/
theorem sub_of_mod_lt (lt : b % m < a % m) : m + b % m = a % m + (b - a) := by
  have hb := Nat.div_add_mod b m
  have ha := Nat.div_add_mod a m
  rcases round_cases low high with same | next
  · rw [same] at hb
    omega
  · rw [next, Nat.mul_add] at hb
    omega

theorem mod_eq_mod_iff : a % m = b % m ↔ a = b := by
  constructor
  · intro eq
    have apart := sub_of_mod_le low high eq.le
    omega
  · intro eq
    rw [eq]

end Counters

/-- The next index is the other one exactly when a whole round lies between. -/
theorem succ_mod_eq_mod_iff (low : a ≤ b) (high : b < a + m) :
    (b + 1) % m = a % m ↔ b + 1 = a + m := by
  constructor
  · intro eq
    by_contra ne
    have same := (mod_eq_mod_iff (a := a) (b := b + 1) (m := m) (by omega) (by omega)).mp eq.symm
    omega
  · intro eq
    rw [eq, Nat.add_mod_right]

theorem succ_mod (a m : ℕ) : (a % m + 1) % m = (a + 1) % m := Nat.mod_add_mod a m 1

/-! ### Lists in a ring -/

variable {α : Type*} {slots : ℕ → α} {x : α} {l : List α}

/-- The elements of the list stand in the slots from counter `a` on. -/
def Window (m : ℕ) (slots : ℕ → α) (a : ℕ) (l : List α) : Prop :=
  ∀ k (h : k < l.length), slots ((a + k) % m) = l.get ⟨k, h⟩

namespace Window

theorem nil (m : ℕ) (slots : ℕ → α) (a : ℕ) : Window m slots a [] := by
  intro k h
  simp at h

/-- Writing the slot behind the list appends to it, as long as the ring has room. -/
theorem push (h : Window m slots a l) (room : l.length < m) (x : α) :
    Window m (Function.update slots ((a + l.length) % m) x) a (l ++ [x]) := by
  intro k hk
  rw [List.length_append, List.length_singleton] at hk
  by_cases last : k = l.length
  · subst last
    simp
  · have old : k < l.length := by omega
    -- less than a round lies between the two counters, so the slots differ
    have ne : (a + k) % m ≠ (a + l.length) % m := by
      intro eq
      have same := (mod_eq_mod_iff (a := a + k) (b := a + l.length) (m := m) (by omega)
        (by omega)).mp eq
      omega
    rw [Function.update_of_ne ne, h k old]
    simp [List.getElem_append_left old]

/-- Stepping past the head drops it. -/
theorem pop (h : Window m slots a (x :: l)) : Window m slots (a + 1) l := by
  intro k hk
  have next := h (k + 1) (by simpa using hk)
  have index : a + 1 + k = a + (k + 1) := by ring
  rw [index, next]
  simp

theorem head (h : Window m slots a (x :: l)) : slots (a % m) = x := by
  simpa using h 0 (by simp)

theorem tail (h : Window m slots a l) : Window m slots (a + 1) l.tail := by
  cases l with
  | nil => exact nil m slots _
  | cons x l => exact h.pop

end Window

end Components.Circular
