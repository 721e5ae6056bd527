import Mathlib.Data.List.Basic
import Mathlib.Logic.Function.Iterate

/-!
# Cyclic redundancy checks

A register of `w` bits takes in a sequence of bits, lowest bit of each byte first. One
bit is added to the lowest bit of the register, and the register moves down one place;
when a one falls out, the polynomial is added. Addition is exclusive or, so the register
at the end is additive in the register at the start and the bits taken in, and an error
shows exactly when its own register, started at zero, does not end at zero.

## Main definitions

* `shift`, `bitStep`, `register` — one move, one bit, a sequence of bits
* `word`, `toBits` — up to `w` bits as a word, and the bits of a word
* `parity` — the sum of the lowest bits of a word

## Main results

* `iterate_shift_split` — several moves are a table entry for the lowest bits and a move of
  the others
* `register_eq_shift` — up to `w` bits taken in one after the other are taken in at once
* `register_xor` — additivity
* `register_burst_ne_zero` — an error within `w` consecutive bits shows
* `register_odd_ne_zero` — so does one in an odd number of bits, when the polynomial has
  an odd number of ones
-/

namespace Components.Crc

variable {w n : ℕ} {poly s t : BitVec w} {l m : List Bool}

/-- The register moves down one place. -/
def shift (poly s : BitVec w) : BitVec w :=
  if s.getLsbD 0 then (s >>> 1) ^^^ poly else s >>> 1

/-- The register takes in one bit. -/
def bitStep (poly s : BitVec w) (b : Bool) : BitVec w :=
  shift poly (s ^^^ (BitVec.ofBool b).setWidth w)

/-- The register after a sequence of bits. -/
def register (poly s : BitVec w) (l : List Bool) : BitVec w := l.foldl (bitStep poly) s

/-- The first `w` bits of a sequence as a word. -/
def word (w : ℕ) : List Bool → BitVec w
  | [] => 0
  | b :: l => (BitVec.ofBool b).setWidth w ^^^ (word w l) <<< 1

/-- The bits of a word, lowest first. -/
def toBits (c : BitVec n) : List Bool := (List.range n).map c.getLsbD

/-- The sum of the lowest `n` bits. -/
def parity : ℕ → BitVec w → Bool
  | 0, _ => false
  | n + 1, s => parity n s ^^ s.getLsbD n

/-! ### One move -/

theorem shift_xor (poly s t : BitVec w) : shift poly (s ^^^ t) = shift poly s ^^^ shift poly t := by
  unfold shift
  refine BitVec.eq_of_getLsbD_eq fun i _ => ?_
  -- the polynomial is added for either word, for both or for none
  cases low : s.getLsbD 0 <;> cases low' : t.getLsbD 0 <;>
    simp only [BitVec.getLsbD_xor, BitVec.ushiftRight_xor_distrib, low, low', Bool.xor_false,
      Bool.xor_true, Bool.not_true, Bool.not_false, if_true, if_false, Bool.false_eq_true] <;>
    cases (s >>> 1).getLsbD i <;> cases (t >>> 1).getLsbD i <;> cases poly.getLsbD i <;> rfl

theorem shift_zero (poly : BitVec w) : shift poly 0 = 0 := by
  simp [shift]

theorem shift_eq_zero (top : poly.getLsbD (w - 1) = true) (zero : shift poly s = 0) : s = 0 := by
  unfold shift at zero
  cases low : s.getLsbD 0 with
  | true =>
    -- the polynomial has set the highest bit
    rw [if_pos low] at zero
    have bit := congrArg (fun v => BitVec.getLsbD v (w - 1)) zero
    have high : s.getLsbD (1 + (w - 1)) = false := BitVec.getLsbD_of_ge _ _ (by omega)
    simp [BitVec.getLsbD_ushiftRight, high, top] at bit
  | false =>
    rw [if_neg (by simp [low])] at zero
    refine BitVec.eq_of_getLsbD_eq fun i _ => ?_
    cases i with
    | zero => simpa using low
    | succ i =>
      have bit := congrArg (fun v => BitVec.getLsbD v i) zero
      simpa [BitVec.getLsbD_ushiftRight, Nat.add_comm] using bit

theorem iterate_shift_xor (poly s t : BitVec w) (k : ℕ) :
    (shift poly)^[k] (s ^^^ t) = (shift poly)^[k] s ^^^ (shift poly)^[k] t := by
  induction k generalizing s t with
  | zero => rfl
  | succ k ih => simp only [Function.iterate_succ_apply, shift_xor, ih]

theorem iterate_shift_eq_zero (top : poly.getLsbD (w - 1) = true) {k : ℕ}
    (zero : (shift poly)^[k] s = 0) : s = 0 := by
  induction k with
  | zero => exact zero
  | succ k ih =>
    rw [Function.iterate_succ_apply'] at zero
    exact ih (shift_eq_zero top zero)

/-- What has been moved up one place is moved down again. -/
theorem shift_xor_shiftLeft (poly s : BitVec w) {v : BitVec w} (room : v.getLsbD (w - 1) = false) :
    shift poly (s ^^^ v <<< 1) = shift poly s ^^^ v := by
  have even : (v <<< 1).getLsbD 0 = false := by simp
  have back : (v <<< 1) >>> 1 = v := by
    refine BitVec.eq_of_getLsbD_eq fun i inside => ?_
    rw [BitVec.getLsbD_ushiftRight, BitVec.getLsbD_shiftLeft]
    by_cases last : 1 + i < w
    · simp [last]
    · obtain rfl : i = w - 1 := by omega
      simp [last, room]
  rw [shift_xor]
  congr 1
  simp [shift, even, back]

/-- A word whose lowest bits are clear only moves down. -/
theorem iterate_shift_of_clear {k : ℕ} (clear : ∀ i < k, s.getLsbD i = false) :
    (shift poly)^[k] s = s >>> k := by
  induction k generalizing s with
  | zero => simp
  | succ k ih =>
    have low : s.getLsbD 0 = false := clear 0 (Nat.succ_pos k)
    have moved : shift poly s = s >>> 1 := by simp [shift, low]
    rw [Function.iterate_succ_apply, moved, ih, Nat.add_comm k 1, BitVec.shiftRight_add]
    intro i inside
    rw [BitVec.getLsbD_ushiftRight, Nat.add_comm]
    exact clear (i + 1) (Nat.succ_lt_succ inside)

/-- The lowest bits are looked up and the others move down. -/
theorem iterate_shift_split (poly s mask : BitVec w) {k : ℕ}
    (low : ∀ i < w, mask.getLsbD i = decide (i < k)) :
    (shift poly)^[k] s = (s >>> k) ^^^ (shift poly)^[k] (s &&& mask) := by
  have split : s = (s &&& ~~~mask) ^^^ (s &&& mask) := by
    refine BitVec.eq_of_getLsbD_eq fun i inside => ?_
    simp only [BitVec.getLsbD_xor, BitVec.getLsbD_and, BitVec.getLsbD_not, inside, low i inside]
    cases s.getLsbD i <;> cases decide (i < k) <;> rfl
  have high : (shift poly)^[k] (s &&& ~~~mask) = s >>> k := by
    rw [iterate_shift_of_clear]
    · refine BitVec.eq_of_getLsbD_eq fun i _ => ?_
      rw [BitVec.getLsbD_ushiftRight, BitVec.getLsbD_ushiftRight, BitVec.getLsbD_and,
        BitVec.getLsbD_not]
      by_cases inside : k + i < w
      · rw [low _ inside]
        simp [inside]
      · simp [BitVec.getLsbD_of_ge s (k + i) (by omega)]
    · intro i below
      rw [BitVec.getLsbD_and, BitVec.getLsbD_not]
      by_cases inside : i < w
      · rw [low i inside]
        simp [below]
      · simp [inside]
  conv_lhs => rw [split]
  rw [iterate_shift_xor, high]

/-! ### A sequence of bits -/

@[simp] theorem register_nil (poly s : BitVec w) : register poly s [] = s := rfl

@[simp] theorem register_cons (poly s : BitVec w) (b : Bool) (l : List Bool) :
    register poly s (b :: l) = register poly (bitStep poly s b) l := rfl

theorem register_append (poly s : BitVec w) (l m : List Bool) :
    register poly s (l ++ m) = register poly (register poly s l) m := List.foldl_append

theorem bitStep_xor (poly s t : BitVec w) (b c : Bool) :
    bitStep poly (s ^^^ t) (b ^^ c) = bitStep poly s b ^^^ bitStep poly t c := by
  have sum : (BitVec.ofBool (b ^^ c)).setWidth w =
      (BitVec.ofBool b).setWidth w ^^^ (BitVec.ofBool c).setWidth w := by
    rw [← BitVec.setWidth_xor]
    cases b <;> cases c <;> rfl
  unfold bitStep
  rw [← shift_xor, sum]
  congr 1
  simp only [BitVec.xor_assoc]
  rw [← BitVec.xor_assoc t, BitVec.xor_comm t, BitVec.xor_assoc _ t]

/-- The register of a sum is the sum of the registers. -/
theorem register_xor (poly s t : BitVec w) (same : l.length = m.length) :
    register poly (s ^^^ t) (List.zipWith xor l m) = register poly s l ^^^ register poly t m := by
  induction l generalizing s t m with
  | nil =>
    obtain rfl : m = [] := by simpa using same.symm
    rfl
  | cons b l ih =>
    obtain ⟨c, m, rfl⟩ : ∃ c m', m = c :: m' := by
      cases m with
      | nil => simp at same
      | cons c m => exact ⟨c, m, rfl⟩
    rw [List.zipWith_cons_cons, register_cons, bitStep_xor, ih _ _ (by simpa using same)]
    rfl

theorem bitStep_false (poly s : BitVec w) : bitStep poly s false = shift poly s := by
  simp [bitStep]

theorem register_replicate_false (poly s : BitVec w) (k : ℕ) :
    register poly s (List.replicate k false) = (shift poly)^[k] s := by
  induction k generalizing s with
  | zero => rfl
  | succ k ih => rw [List.replicate_succ, register_cons, bitStep_false, ih,
      Function.iterate_succ_apply]

theorem iterate_shift_zero (poly : BitVec w) (k : ℕ) : (shift poly)^[k] 0 = 0 :=
  Function.iterate_fixed (shift_zero poly) k

theorem getLsbD_word_of_ge {i : ℕ} (past : l.length ≤ i) : (word w l).getLsbD i = false := by
  induction l generalizing i with
  | nil => simp [word]
  | cons b l ih =>
    obtain ⟨i, rfl⟩ : ∃ j, i = j + 1 := ⟨i - 1, by simp at past; omega⟩
    have rest : (word w l).getLsbD i = false := ih (by simpa using past)
    simp [word, rest]

/-- Taking in up to `w` bits one after the other is adding their word and moving down as
often. -/
theorem register_eq_shift (poly s : BitVec w) (short : l.length ≤ w) :
    register poly s l = (shift poly)^[l.length] (s ^^^ word w l) := by
  induction l generalizing s with
  | nil => simp [word]
  | cons b l ih =>
    have room : (word w l).getLsbD (w - 1) = false :=
      getLsbD_word_of_ge (by simp at short; omega)
    rw [register_cons, ih _ (by simp at short; omega), List.length_cons,
      Function.iterate_succ_apply, bitStep, ← shift_xor_shiftLeft _ _ room, BitVec.xor_assoc]
    rfl

/-- A word determines its bits. -/
theorem getLsbD_word {i : ℕ} (inside : i < w) : (word w l).getLsbD i = l.getD i false := by
  induction l generalizing i with
  | nil => simp [word]
  | cons b l ih =>
    cases i with
    | zero => simp [word, inside]
    | succ i =>
      have rest := ih (Nat.lt_of_succ_lt inside)
      rw [word, BitVec.getLsbD_xor, BitVec.getLsbD_shiftLeft, Nat.add_sub_cancel, rest]
      simp [inside]

theorem word_toBits (w : ℕ) (c : BitVec n) : word w (toBits c) = c.setWidth w := by
  refine BitVec.eq_of_getLsbD_eq fun i inside => ?_
  rw [getLsbD_word inside, BitVec.getLsbD_setWidth]
  by_cases low : i < n
  · simp [toBits, low, inside, List.getD_eq_getElem?_getD]
  · simp [toBits, low, List.getD_eq_getElem?_getD, BitVec.getLsbD_of_ge c i (by omega)]

/-- The lower word comes first. -/
theorem toBits_append {k : ℕ} (hi : BitVec n) (lo : BitVec k) :
    toBits (hi ++ lo) = toBits lo ++ toBits hi := by
  have range : List.range (n + k) = List.range k ++ (List.range n).map (k + ·) := by
    rw [Nat.add_comm, List.range_add]
  rw [toBits, range, List.map_append, List.map_map]
  congr 1
  · refine List.map_congr_left fun i inside => ?_
    simp [BitVec.getLsbD_append, List.mem_range.mp inside]
  · refine List.map_congr_left fun i _ => ?_
    simp [BitVec.getLsbD_append]

@[simp] theorem length_toBits (c : BitVec n) : (toBits c).length = n := by simp [toBits]

/-! ### Errors that show -/

/-- An error within `w` consecutive bits shows in the register. -/
theorem register_burst_ne_zero (top : poly.getLsbD (w - 1) = true) (short : l.length ≤ w)
    (some_one : true ∈ l) (before after : ℕ) :
    register poly 0 (List.replicate before false ++ l ++ List.replicate after false) ≠ 0 := by
  intro zero
  rw [register_append, register_append, register_replicate_false, register_replicate_false,
    iterate_shift_zero, register_eq_shift _ _ short] at zero
  have none : (0 : BitVec w) ^^^ word w l = 0 :=
    iterate_shift_eq_zero top (iterate_shift_eq_zero top zero)
  obtain ⟨i, inside, one⟩ := List.getElem_of_mem some_one
  have bit : (word w l).getLsbD i = true := by
    rw [getLsbD_word (by omega), List.getD_eq_getElem?_getD, List.getElem?_eq_getElem inside, one]
    rfl
  have clear := congrArg (fun v => BitVec.getLsbD v i) none
  simp [bit] at clear

theorem parity_xor (s t : BitVec w) (n : ℕ) : parity n (s ^^^ t) = (parity n s ^^ parity n t) := by
  induction n with
  | zero => rfl
  | succ n ih =>
    simp only [parity, ih, BitVec.getLsbD_xor]
    cases parity n s <;> cases parity n t <;> simp

theorem parity_ushiftRight (s : BitVec w) (n : ℕ) :
    parity n (s >>> 1) = (parity (n + 1) s ^^ s.getLsbD 0) := by
  induction n with
  | zero => simp [parity]
  | succ n ih =>
    rw [parity, ih, parity.eq_2 s (n + 1), BitVec.getLsbD_ushiftRight, Nat.add_comm 1 n]
    cases parity (n + 1) s <;> cases s.getLsbD 0 <;> simp

/-- A polynomial with an odd number of ones keeps the parity of the register. -/
theorem parity_shift (odd : parity w poly = true) (s : BitVec w) :
    parity w (shift poly s) = parity w s := by
  have past : parity (w + 1) s = parity w s := by simp [parity]
  unfold shift
  split
  · rename_i low
    rw [parity_xor, parity_ushiftRight, past, odd, low]
    cases parity w s <;> rfl
  · rename_i low
    rw [parity_ushiftRight, past]
    simp [low]

theorem parity_zero (n : ℕ) : parity n (0 : BitVec w) = false := by
  induction n with
  | zero => rfl
  | succ n ih =>
    rw [parity, ih]
    simp

/-- The word of a single one has odd parity. -/
theorem parity_one (pos : 0 < w) (positive : 0 < n) :
    parity n ((BitVec.ofBool true).setWidth w) = true := by
  induction n with
  | zero => cases positive
  | succ n ih =>
    cases n with
    | zero => simp [parity, pos]
    | succ n =>
      rw [parity, ih (Nat.succ_pos n)]
      simp

/-- The parity of the register counts the ones it has taken in. -/
theorem parity_register (odd : parity w poly = true) (pos : 0 < w) (s : BitVec w) (l : List Bool) :
    parity w (register poly s l) = (parity w s ^^ decide (l.count true % 2 = 1)) := by
  induction l generalizing s with
  | nil => simp
  | cons b l ih =>
    rw [register_cons, ih, bitStep, parity_shift odd, parity_xor]
    cases b with
    | false =>
      have none : (BitVec.ofBool false).setWidth w = 0 := by simp
      rw [none, parity_zero]
      simp
    | true =>
      rw [parity_one pos pos, List.count_cons_self]
      rcases Nat.mod_two_eq_zero_or_one (l.count true) with even | one
      · have next : (l.count true + 1) % 2 = 1 := by omega
        simp [even, next]
      · have next : (l.count true + 1) % 2 = 0 := by omega
        simp [one, next]

/-- An error in an odd number of bits shows in the register. -/
theorem register_odd_ne_zero (odd : parity w poly = true) (pos : 0 < w)
    (count : l.count true % 2 = 1) : register poly 0 l ≠ 0 := by
  intro zero
  have sum := parity_register odd pos 0 l
  rw [zero, count, parity_zero] at sum
  simp at sum

end Components.Crc
