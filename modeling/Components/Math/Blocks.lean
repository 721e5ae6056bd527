import Mathlib.Algebra.BigOperators.Group.List.Basic
import Mathlib.Algebra.BigOperators.Intervals
import Mathlib.Algebra.Order.BigOperators.Group.List
import Mathlib.Data.List.Count
import Mathlib.Order.Interval.Finset.Nat

/-!
# Blocks of addresses and tilings

A block is a half-open interval of addresses. A list of blocks *tiles* an
interval when every address of the interval lies in exactly one block of the list
and no other address lies in any. Counting the blocks that contain an address
turns both conditions into one equation, which is additive in the list and blind
to its order.

A *separated* list is sorted by address with a gap after every block. Such a list
is the canonical form of the set it covers: two separated lists that cover the
same addresses are equal.

## Main definitions

* `Block`, `Block.stop`, `Block.Contains` — intervals of addresses
* `coverage` — how many blocks of a list contain an address
* `Tiles` — every address of an interval is covered once, every other never
* `Separated` — sorted, with a gap between neighbours

## Main results

* `Tiles.le_start`, `Tiles.stop_le`, `Tiles.pairwise_disjoint` — what a tiling says
  about its blocks
* `Tiles.sum_size` — the sizes of a tiling add up to the length of the interval
* `Separated.eq_of_covers` — separated lists are determined by what they cover
-/

namespace Components

/-- The addresses from `start` up to, and excluding, `start + size`. -/
structure Block where
  start : ℕ
  size : ℕ
  deriving DecidableEq, Repr

namespace Block

/-- The first address after the block. -/
def stop (b : Block) : ℕ := b.start + b.size

/-- The address `x` lies in the block `b`. -/
def Contains (b : Block) (x : ℕ) : Prop := b.start ≤ x ∧ x < b.stop

instance (b : Block) (x : ℕ) : Decidable (b.Contains x) :=
  inferInstanceAs (Decidable (_ ∧ _))

/-- No address lies in both blocks. -/
def Disjoint (a b : Block) : Prop := a.stop ≤ b.start ∨ b.stop ≤ a.start

theorem contains_start {b : Block} (pos : 0 < b.size) : b.Contains b.start :=
  ⟨le_rfl, Nat.lt_add_of_pos_right pos⟩

instance (a b : Block) : Decidable (a.Disjoint b) := inferInstanceAs (Decidable (_ ∨ _))

instance : Std.Symm Block.Disjoint := ⟨fun _ _ => Or.symm⟩

end Block

/-- The number of blocks of the list that contain the address `x`. -/
def coverage (l : List Block) (x : ℕ) : ℕ := l.countP fun b => b.Contains x

/-- Every address from `lo` up to `hi` lies in exactly one block of the list, and
no other address lies in any. -/
def Tiles (l : List Block) (lo hi : ℕ) : Prop :=
  ∀ x, coverage l x = if lo ≤ x ∧ x < hi then 1 else 0

/-- Sorted by address, with at least one address between neighbours. -/
def Separated (l : List Block) : Prop := l.Pairwise fun a b => a.stop < b.start

/-- The sum of the sizes of the blocks. -/
def totalSize (l : List Block) : ℕ := (l.map Block.size).sum

variable {l l' : List Block} {a b : Block} {lo hi x k : ℕ}

/-! ### Coverage -/

@[simp] theorem coverage_nil (x : ℕ) : coverage [] x = 0 := rfl

theorem coverage_cons (b : Block) (l : List Block) (x : ℕ) :
    coverage (b :: l) x = coverage l x + if b.Contains x then 1 else 0 := by
  simp [coverage, List.countP_cons]

@[simp] theorem coverage_append (l l' : List Block) (x : ℕ) :
    coverage (l ++ l') x = coverage l x + coverage l' x := by
  simp [coverage]

theorem coverage_perm (h : l.Perm l') (x : ℕ) : coverage l x = coverage l' x :=
  h.countP_eq _

theorem coverage_pos_iff : 0 < coverage l x ↔ ∃ b ∈ l, b.Contains x := by
  simp [coverage, List.countP_pos_iff]

/-- Cutting a block in two covers what the block covered. -/
theorem coverage_cut (h : k ≤ b.size) (x : ℕ) :
    coverage [⟨b.start, k⟩, ⟨b.start + k, b.size - k⟩] x = coverage [b] x := by
  simp only [coverage_cons, coverage_nil]
  grind [Block.Contains, Block.stop]

/-- Two blocks that meet cover what their union covers. -/
theorem coverage_join (h : a.stop = b.start) (x : ℕ) :
    coverage [⟨a.start, a.size + b.size⟩] x = coverage [a, b] x := by
  simp only [coverage_cons, coverage_nil]
  grind [Block.Contains, Block.stop]

/-! ### Tilings -/

namespace Tiles

theorem of_coverage_eq (h : Tiles l lo hi) (same : ∀ x, coverage l' x = coverage l x) :
    Tiles l' lo hi := fun x => (same x).trans (h x)

theorem perm (h : Tiles l lo hi) (p : l.Perm l') : Tiles l' lo hi :=
  h.of_coverage_eq fun x => (coverage_perm p x).symm

theorem bounds_of_contains (h : Tiles l lo hi) (hb : b ∈ l) (hx : b.Contains x) :
    lo ≤ x ∧ x < hi := by
  have covered : 0 < coverage l x := coverage_pos_iff.mpr ⟨b, hb, hx⟩
  rw [h x] at covered
  by_contra outside
  simp [outside] at covered

theorem le_start (h : Tiles l lo hi) (hb : b ∈ l) (pos : 0 < b.size) : lo ≤ b.start :=
  (h.bounds_of_contains hb (Block.contains_start pos)).1

theorem stop_le (h : Tiles l lo hi) (hb : b ∈ l) (pos : 0 < b.size) : b.stop ≤ hi := by
  have last := (h.bounds_of_contains hb (x := b.stop - 1)
    ⟨by unfold Block.stop; omega, by unfold Block.stop; omega⟩).2
  omega

theorem coverage_le_one (h : Tiles l lo hi) (x : ℕ) : coverage l x ≤ 1 := by
  rw [h x]
  split_ifs <;> simp

end Tiles

/-- Blocks that share no address, in lists that cover no address twice. -/
theorem pairwise_disjoint_of_coverage_le_one (pos : ∀ b ∈ l, 0 < b.size)
    (once : ∀ x, coverage l x ≤ 1) : l.Pairwise Block.Disjoint := by
  induction l with
  | nil => exact .nil
  | cons a l ih =>
    have tail : ∀ x, coverage l x ≤ 1 := fun x => by
      have := once x
      rw [coverage_cons] at this
      omega
    refine List.pairwise_cons.mpr
      ⟨fun b hb => ?_, ih (fun b hb => pos b (List.mem_cons_of_mem _ hb)) tail⟩
    -- the later of the two starts would lie in both blocks
    by_contra overlap
    simp only [Block.Disjoint, Block.stop, not_or, not_le] at overlap
    have ha := pos a List.mem_cons_self
    have hb' := pos b (List.mem_cons_of_mem _ hb)
    have inA : a.Contains (max a.start b.start) := by
      simp only [Block.Contains, Block.stop]
      omega
    have inB : b.Contains (max a.start b.start) := by
      simp only [Block.Contains, Block.stop]
      omega
    have twice := once (max a.start b.start)
    have covered : 0 < coverage l (max a.start b.start) := coverage_pos_iff.mpr ⟨b, hb, inB⟩
    rw [coverage_cons] at twice
    simp only [inA, if_true] at twice
    omega

theorem Tiles.pairwise_disjoint (h : Tiles l lo hi) (pos : ∀ b ∈ l, 0 < b.size) :
    l.Pairwise Block.Disjoint :=
  pairwise_disjoint_of_coverage_le_one pos h.coverage_le_one

/-! ### Sizes -/

@[simp] theorem totalSize_nil : totalSize [] = 0 := rfl

@[simp] theorem totalSize_cons (b : Block) (l : List Block) :
    totalSize (b :: l) = b.size + totalSize l := by
  simp [totalSize]

@[simp] theorem totalSize_append (l l' : List Block) :
    totalSize (l ++ l') = totalSize l + totalSize l' := by
  simp [totalSize]

theorem totalSize_perm (h : l.Perm l') : totalSize l = totalSize l' :=
  (h.map _).sum_eq

theorem size_le_totalSize (h : b ∈ l) : b.size ≤ totalSize l :=
  List.le_sum_of_mem (List.mem_map_of_mem h)

theorem mul_length_le_totalSize (h : ∀ b ∈ l, k ≤ b.size) : k * l.length ≤ totalSize l := by
  induction l with
  | nil => simp
  | cons a l ih =>
    have head := h a List.mem_cons_self
    have tail := ih fun b hb => h b (List.mem_cons_of_mem _ hb)
    rw [List.length_cons, totalSize_cons, Nat.mul_add]
    omega

/-- Summing the coverage over an initial segment that holds all the blocks counts
every address of every block. -/
theorem sum_coverage (hl : ∀ b ∈ l, b.stop ≤ hi) :
    ∑ x ∈ Finset.range hi, coverage l x = totalSize l := by
  induction l with
  | nil => simp
  | cons b l ih =>
    have inside := hl b List.mem_cons_self
    have segment : (Finset.range hi).filter (fun x => b.Contains x) =
        Finset.Ico b.start b.stop := by
      ext x
      rw [Finset.mem_filter, Finset.mem_range, Finset.mem_Ico]
      unfold Block.Contains
      omega
    have tail := ih fun b' hb' => hl b' (List.mem_cons_of_mem _ hb')
    simp only [coverage_cons, Finset.sum_add_distrib, totalSize_cons, tail,
      ← Finset.card_filter, segment, Nat.card_Ico, Block.stop]
    omega

theorem Tiles.sum_size (h : Tiles l lo hi) (pos : ∀ b ∈ l, 0 < b.size) :
    totalSize l = hi - lo := by
  have segment : (Finset.range hi).filter (fun x => lo ≤ x ∧ x < hi) = Finset.Ico lo hi := by
    ext x
    simp only [Finset.mem_filter, Finset.mem_range, Finset.mem_Ico]
    omega
  calc totalSize l = ∑ x ∈ Finset.range hi, coverage l x :=
        (sum_coverage fun b hb => h.stop_le hb (pos b hb)).symm
    _ = ∑ x ∈ Finset.range hi, if lo ≤ x ∧ x < hi then 1 else 0 :=
        Finset.sum_congr rfl fun x _ => h x
    _ = hi - lo := by rw [← Finset.card_filter, segment, Nat.card_Ico]

/-! ### Separated lists are canonical -/

namespace Separated

theorem tail (h : Separated (a :: l)) : Separated l := (List.pairwise_cons.mp h).2

theorem head_lt (h : Separated (a :: l)) (hb : b ∈ l) : a.stop < b.start :=
  (List.pairwise_cons.mp h).1 b hb

/-- Put a block where it touches neither the ones before nor the ones after. -/
theorem insert (h : Separated (l ++ l')) (before : ∀ a ∈ l, a.stop < b.start)
    (after : ∀ c ∈ l', b.stop < c.start) : Separated (l ++ b :: l') := by
  obtain ⟨left, right, between⟩ := List.pairwise_append.mp h
  refine List.pairwise_append.mpr ⟨left, List.pairwise_cons.mpr ⟨after, right⟩, ?_⟩
  intro a ha c hc
  rcases List.mem_cons.mp hc with rfl | hc
  · exact before a ha
  · exact between a ha c hc

/-- Only the first block of a separated list can start at a lower bound of all of them. -/
theorem lt_start (h : Separated l) (bound : ∀ c ∈ l, x ≤ c.start)
    (first : ¬ ∃ c rest, l = c :: rest ∧ x = c.start) : ∀ c ∈ l, x < c.start := by
  intro c hc
  cases l with
  | nil => simp at hc
  | cons d rest =>
    have low : x < d.start := lt_of_le_of_ne (bound d List.mem_cons_self) fun eq =>
      first ⟨d, rest, rfl, eq⟩
    rcases List.mem_cons.mp hc with rfl | hc
    · exact low
    · have gap := h.head_lt hc
      unfold Block.stop at gap
      omega

/-- Only the last block of a separated list can stop at an upper bound of all of them. -/
theorem stop_lt (h : Separated l) (bound : ∀ a ∈ l, a.stop ≤ x)
    (last : ¬ ∃ rest a, l = rest ++ [a] ∧ a.stop = x) : ∀ a ∈ l, a.stop < x := by
  intro a ha
  rcases List.eq_nil_or_concat l with rfl | ⟨rest, d, rfl⟩
  · simp at ha
  · rw [List.concat_eq_append] at *
    have high : d.stop < x := lt_of_le_of_ne (bound d (by simp)) fun eq => last ⟨rest, d, rfl, eq⟩
    rcases List.mem_append.mp ha with ha | ha
    · have gap := (List.pairwise_append.mp h).2.2 a ha d (by simp)
      unfold Block.stop at *
      omega
    · rw [List.mem_singleton.mp ha]
      exact high

/-- No block of a separated list starts where another one stops. -/
theorem stop_ne_start (h : Separated l) (ha : a ∈ l) (hb : b ∈ l) (pos : 0 < a.size) :
    a.stop ≠ b.start := by
  induction l with
  | nil => simp at ha
  | cons c l ih =>
    rcases List.mem_cons.mp ha with rfl | inA
    · rcases List.mem_cons.mp hb with rfl | inB
      · exact (Nat.lt_add_of_pos_right pos).ne'
      · exact (h.head_lt inB).ne
    · rcases List.mem_cons.mp hb with rfl | inB
      · have gap := h.head_lt inA
        unfold Block.stop at gap ⊢
        omega
      · exact ih h.tail inA inB

/-- The first block of a separated list begins at the least covered address. -/
theorem start_le_of_contains (h : Separated (a :: l)) (hb : b ∈ a :: l) (hx : b.Contains x) :
    a.start ≤ x := by
  rcases List.mem_cons.mp hb with rfl | hb
  · exact hx.1
  · have gap := h.head_lt hb
    have inside := hx.1
    unfold Block.stop at gap
    omega

/-- Nothing is covered right after the first block of a separated list. -/
theorem not_covered_stop (h : Separated (a :: l)) : ¬ ∃ b ∈ a :: l, b.Contains a.stop := by
  rintro ⟨b, hb, low, high⟩
  rcases List.mem_cons.mp hb with rfl | hb
  · exact lt_irrefl _ high
  · exact absurd low (not_le.mpr (h.head_lt hb))

/-- Later blocks of a separated list cover nothing of the first one. -/
theorem not_contains_head (h : Separated (a :: l)) (hb : b ∈ l) (hx : b.Contains x) :
    ¬ a.Contains x := by
  intro inA
  have gap := h.head_lt hb
  exact absurd inA.2 (not_lt.mpr (gap.le.trans hx.1))

/-- An interval that is covered lies in one block. -/
theorem exists_covering (h : Separated l) {y : ℕ} (lt : x < y)
    (covers : ∀ z, x ≤ z → z < y → ∃ b ∈ l, b.Contains z) : ∃ b ∈ l, b.start ≤ x ∧ y ≤ b.stop := by
  obtain ⟨b, hb, low, high⟩ := covers x le_rfl lt
  refine ⟨b, hb, low, ?_⟩
  -- otherwise the address after the block would lie in another one
  by_contra short
  obtain ⟨d, hd, low', high'⟩ := covers b.stop high.le (not_le.mp short)
  obtain ⟨l₁, l₂, rfl⟩ := List.append_of_mem hb
  obtain ⟨-, right, between⟩ := List.pairwise_append.mp h
  rcases List.mem_append.mp hd with before | later
  · have gap := between d before b List.mem_cons_self
    omega
  · rcases List.mem_cons.mp later with rfl | after
    · exact lt_irrefl _ high'
    · have gap := (List.pairwise_cons.mp right).1 d after
      omega

/-- The first blocks of two separated lists with the same cover stop together. -/
private theorem stop_le_of_covers {a' : Block} (h' : Separated (a' :: l'))
    (start : a.start = a'.start) (pos' : 0 < a'.size)
    (covers : ∀ x, (∃ b ∈ a :: l, b.Contains x) ↔ ∃ b ∈ a' :: l', b.Contains x) :
    a.stop ≤ a'.stop := by
  by_contra longer
  have inside : a.Contains a'.stop :=
    ⟨by unfold Block.stop; omega, not_le.mp longer⟩
  exact h'.not_covered_stop ((covers _).mp ⟨a, List.mem_cons_self, inside⟩)

/-- Two lists with the same first block: what the first list covers after it, the second
covers after it too. -/
private theorem covers_tail (h : Separated (a :: l))
    (covers : ∀ x, (∃ b ∈ a :: l, b.Contains x) → ∃ b ∈ a :: l', b.Contains x) :
    (∃ b ∈ l, b.Contains x) → ∃ b ∈ l', b.Contains x := by
  rintro ⟨d, hd, hx⟩
  obtain ⟨c, hc, hcx⟩ := covers x ⟨d, List.mem_cons_of_mem _ hd, hx⟩
  rcases List.mem_cons.mp hc with rfl | hc
  · exact absurd hcx (h.not_contains_head hd hx)
  · exact ⟨c, hc, hcx⟩

/-- A separated list of nonempty blocks is determined by the set it covers. -/
theorem eq_of_covers (h : Separated l) (h' : Separated l') (pos : ∀ b ∈ l, 0 < b.size)
    (pos' : ∀ b ∈ l', 0 < b.size)
    (covers : ∀ x, (∃ b ∈ l, b.Contains x) ↔ ∃ b ∈ l', b.Contains x) : l = l' := by
  -- the first blocks start at the least covered address and stop at the first gap
  induction l generalizing l' with
  | nil =>
    cases l' with
    | nil => rfl
    | cons a' l' =>
      have first := Block.contains_start (pos' a' List.mem_cons_self)
      obtain ⟨b, hb, -⟩ := (covers a'.start).mpr ⟨a', List.mem_cons_self, first⟩
      simp at hb
  | cons a l ih =>
    cases l' with
    | nil =>
      have first := Block.contains_start (pos a List.mem_cons_self)
      obtain ⟨b, hb, -⟩ := (covers a.start).mp ⟨a, List.mem_cons_self, first⟩
      simp at hb
    | cons a' l' =>
      have posA := pos a List.mem_cons_self
      have posA' := pos' a' List.mem_cons_self
      have firstA := Block.contains_start posA
      have firstA' := Block.contains_start posA'
      obtain ⟨b, hb, hbx⟩ := (covers a.start).mp ⟨a, List.mem_cons_self, firstA⟩
      obtain ⟨b', hb', hbx'⟩ := (covers a'.start).mpr ⟨a', List.mem_cons_self, firstA'⟩
      have starts : a.start = a'.start :=
        le_antisymm (h.start_le_of_contains hb' hbx') (h'.start_le_of_contains hb hbx)
      have stops : a.stop = a'.stop :=
        le_antisymm (h'.stop_le_of_covers starts posA' covers)
          (h.stop_le_of_covers starts.symm posA fun x => (covers x).symm)
      have heads : a = a' := by
        cases a
        cases a'
        simp only [Block.stop] at starts stops
        simp only [Block.mk.injEq]
        omega
      subst heads
      congr 1
      refine ih h.tail h'.tail (fun b hb => pos b (List.mem_cons_of_mem _ hb))
        (fun b hb => pos' b (List.mem_cons_of_mem _ hb)) fun x => ?_
      exact ⟨h.covers_tail fun y => (covers y).mp, h'.covers_tail fun y => (covers y).mpr⟩

end Separated

end Components
