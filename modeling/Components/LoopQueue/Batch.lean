import Components.LoopQueue.Fifo
import Mathlib.Data.List.DropRight

/-!
# Adding a batch

One by one, `newData + 0`, `newData + 1`, ... append a batch to the queue: `loopQueueAddOne`
keeps the first elements that find room, `loopQueueForceAddOne` the last ones. The batch
functions hand the add handler the same `newData` in every round, so that they append
copies of `newData[0]`. The two agree exactly if no element that is kept differs from
the first one.

## Main definitions

* `Buffer.advance`, `Buffer.batch` — the pointers into a batch, and its elements
* `addEach`, `forceAddEach` — one call for every element
* `AddMultiStoresBatch`, `ForceAddMultiStoresBatch` — the batch functions do the same

## Main results

* `Holds.addEach`, `Holds.forceAddEach` — the first or the last elements are kept
* `batch_stored_iff` — when the batch functions store the batch
-/

namespace Components.LoopQueue

variable {α : Type} {lq : Lq α} {l : List α} {m a n cap : ℕ} {x : α} {newData : Buffer α}

/-- `newData + i`. -/
def Buffer.advance (newData : Buffer α) (i : ℕ) : Buffer α where
  size := newData.size - i
  data j := newData.data (i + j)

/-- The first `n` elements. -/
def Buffer.batch (newData : Buffer α) (n : ℕ) : List α := (List.range n).map newData.data

/-- `loopQueueAddOne` on `newData + 0`, ..., `newData + (n - 1)`. -/
def addEach (lq : Lq α) (newData : Buffer α) (n : ℕ) : Except Fault (Lq α) :=
  forLoop (fun i lq => do
    let (lq, _) ← loopQueueAddOne lq (newData.advance i)
    return lq) n lq

/-- `loopQueueForceAddOne` on `newData + 0`, ..., `newData + (n - 1)`. -/
def forceAddEach (lq : Lq α) (newData : Buffer α) (n : ℕ) : Except Fault (Lq α) :=
  forLoop (fun i lq => do
    let (lq, _) ← loopQueueForceAddOne lq (newData.advance i)
    return lq) n lq

/-- `loopQueueAddMulti` leaves the contents that adding one by one leaves. -/
def AddMultiStoresBatch (lq : Lq α) (newData : Buffer α) (n : ℕ) : Prop :=
  ∃ lq₁ count lq₂, loopQueueAddMulti lq newData n = .ok (lq₁, count) ∧
    addEach lq newData n = .ok lq₂ ∧ contents lq₁.toRing = contents lq₂.toRing

/-- `loopQueueForceAddMulti` leaves the contents that forcing in one by one leaves: the
last `max - 1` elements of the old contents followed by the batch. -/
def ForceAddMultiStoresBatch (lq : Lq α) (newData : Buffer α) (n : ℕ) : Prop :=
  ∃ lq₁ count lq₂, loopQueueForceAddMulti lq newData n = .ok (lq₁, count) ∧
    forceAddEach lq newData n = .ok lq₂ ∧ contents lq₁.toRing = contents lq₂.toRing ∧
    contents lq₁.toRing = (contents lq.toRing ++ newData.batch n).rtake (lq.max - 1).toNat

/-! ### Keeping the first or the last elements -/

/-- Appending where there is room keeps the first elements. -/
theorem take_concat (l : List α) (x : α) (cap : ℕ) :
    (l ++ [x]).take cap = if (l.take cap).length < cap then l.take cap ++ [x] else l.take cap := by
  rw [List.length_take]
  split_ifs with room
  · have short : l.length < cap := by omega
    have fits : (l ++ [x]).length ≤ cap := by
      rw [List.length_append, List.length_singleton]
      exact short
    rw [List.take_of_length_le fits, List.take_of_length_le short.le]
  · exact List.take_append_of_le_length (by omega)

/-- Dropping the oldest element of a full queue keeps the last ones. -/
theorem push_rtake (l : List α) (x : α) (cap : ℕ) :
    push cap x (l.rtake cap) = (l ++ [x]).rtake cap := by
  unfold push List.rtake
  rw [List.length_drop, List.length_append, List.length_singleton]
  split_ifs with room
  · have all : l.length - cap = 0 := by omega
    have all' : l.length + 1 - cap = 0 := by omega
    rw [all, all', List.drop_zero, List.drop_zero]
  · have older : l.length - cap + 1 = l.length + 1 - cap := by omega
    rw [← List.drop_one, ← List.drop_append_of_le_length (by omega), List.drop_drop, older]

theorem iterate_push_rtake (l : List α) (x : α) (cap n : ℕ) :
    (push cap x)^[n] (l.rtake cap) = (l ++ List.replicate n x).rtake cap := by
  induction n with
  | zero => simp
  | succ n ih =>
    rw [Function.iterate_succ_apply', ih, push_rtake, List.replicate_succ', List.append_assoc]

theorem rtake_of_length_le (short : l.length ≤ cap) : l.rtake cap = l := by
  rw [List.rtake, Nat.sub_eq_zero_of_le short, List.drop_zero]

/-! ### Comparing a batch with copies of its first element -/

theorem batch_succ (newData : Buffer α) (n : ℕ) :
    newData.batch (n + 1) = newData.batch n ++ [newData.data n] := by
  simp [Buffer.batch, List.range_succ]

theorem replicate_eq_map (x : α) (n : ℕ) : List.replicate n x = (List.range n).map fun _ => x := by
  rw [List.map_const', List.length_range]

theorem mem_drop_range {i k : ℕ} : i ∈ (List.range n).drop k ↔ k ≤ i ∧ i < n := by
  rw [List.range_eq_range', List.drop_range', List.mem_range'_1]
  omega

theorem take_replicate_eq_iff :
    (l ++ List.replicate n x).take cap = (l ++ newData.batch n).take cap ↔
      ∀ i, i < n → l.length + i < cap → newData.data i = x := by
  rw [List.take_append, List.take_append, List.append_cancel_left_eq, replicate_eq_map,
    Buffer.batch, ← List.map_take, ← List.map_take, List.map_inj_left, List.take_range]
  refine forall_congr' fun i => ?_
  rw [List.mem_range, eq_comm]
  constructor
  · intro same less room
    exact same (by omega)
  · intro same less
    exact same (by omega) (by omega)

theorem rtake_replicate_eq_iff :
    (l ++ List.replicate n x).rtake cap = (l ++ newData.batch n).rtake cap ↔
      ∀ i, i < n → n ≤ i + cap → newData.data i = x := by
  have length : (newData.batch n).length = n := by simp [Buffer.batch]
  rw [List.rtake, List.rtake, List.length_append, List.length_append, List.length_replicate,
    length, List.drop_append, List.drop_append, List.append_cancel_left_eq, replicate_eq_map,
    Buffer.batch, ← List.map_drop, ← List.map_drop, List.map_inj_left]
  refine forall_congr' fun i => ?_
  rw [mem_drop_range, eq_comm]
  constructor
  · intro same less kept
    exact same ⟨by omega, less⟩
  · rintro same ⟨kept, less⟩
    exact same less (by omega)

/-! ### One call for every element -/

namespace Holds

theorem addEach (h : Holds m a lq l) (enough : n ≤ newData.size) :
    ∃ lq', addEach lq newData n = .ok lq' ∧
      Holds m a lq' ((l ++ newData.batch n).take (m - 1)) := by
  have room := h.room
  refine forLoop_of_invariant (fun i lq => Holds m a lq ((l ++ newData.batch i).take (m - 1)))
    ?_ ?_
  · have all : (l ++ newData.batch 0).take (m - 1) = l := by
      rw [Buffer.batch, List.range_zero, List.map_nil, List.append_nil]
      exact List.take_of_length_le (by omega)
    rwa [all]
  · intro i lq less holds
    have one : 0 < (newData.advance i).size := Nat.sub_pos_of_lt (less.trans_le enough)
    obtain ⟨lq', done, holds'⟩ := holds.addOne one
    refine ⟨lq', by rw [done]; rfl, ?_⟩
    rw [batch_succ, ← List.append_assoc, take_concat]
    exact holds'

theorem forceAddEach (h : Holds m a lq l) (enough : n ≤ newData.size) :
    ∃ lq', forceAddEach lq newData n = .ok lq' ∧
      ∃ a', Holds m a' lq' ((l ++ newData.batch n).rtake (m - 1)) := by
  have room := h.room
  refine forLoop_of_invariant
    (fun i lq => ∃ a', Holds m a' lq ((l ++ newData.batch i).rtake (m - 1))) ?_ ?_
  · have all : (l ++ newData.batch 0).rtake (m - 1) = l := by
      rw [Buffer.batch, List.range_zero, List.map_nil, List.append_nil]
      exact rtake_of_length_le (by omega)
    rw [all]
    exact ⟨a, h⟩
  · rintro i lq less ⟨a', holds⟩
    have one : 0 < (newData.advance i).size := Nat.sub_pos_of_lt (less.trans_le enough)
    obtain ⟨a'', lq', done, holds'⟩ := holds.forceAddOne one
    refine ⟨lq', by rw [done]; rfl, a'', ?_⟩
    rw [batch_succ, ← List.append_assoc, ← push_rtake]
    exact holds'

/-! ### Copies of the first element -/

theorem addMulti_storesBatch_iff (h : Holds m a lq l) (enough : n ≤ newData.size) :
    AddMultiStoresBatch lq newData n ↔
      ∀ i, i < n → l.length + i < m - 1 → newData.data i = newData.data 0 := by
  have room := h.room
  have one : 0 < (n : ℤ) → 0 < newData.size := fun pos => by omega
  obtain ⟨lq₁, copied, holds₁⟩ := h.addMulti (Int.natCast_nonneg n) one
  obtain ⟨lq₂, added, holds₂⟩ := h.addEach enough
  -- the count of copies is the one that fits
  have stored : l ++ List.replicate (min (n : ℤ) ((m - 1 : ℕ) - l.length)).toNat (newData.data 0) =
      (l ++ List.replicate n (newData.data 0)).take (m - 1) := by
    have count : (min (n : ℤ) ((m - 1 : ℕ) - l.length)).toNat = min (m - 1 - l.length) n := by
      omega
    rw [count, List.take_append, List.take_of_length_le (by omega), List.take_replicate]
  rw [stored] at holds₁
  rw [← take_replicate_eq_iff]
  constructor
  · rintro ⟨lq₁, count, lq₂, first, second, same⟩
    cases copied.symm.trans first
    cases added.symm.trans second
    rwa [holds₁.contents_eq, holds₂.contents_eq] at same
  · intro same
    refine ⟨lq₁, _, lq₂, copied, added, ?_⟩
    rw [holds₁.contents_eq, holds₂.contents_eq, same]

theorem forceAddMulti_storesBatch_iff (h : Holds m a lq l) (enough : n ≤ newData.size) :
    ForceAddMultiStoresBatch lq newData n ↔
      ∀ i, i < n → n ≤ i + (m - 1) → newData.data i = newData.data 0 := by
  have room := h.room
  have one : 0 < (n : ℤ) → 0 < newData.size := fun pos => by omega
  obtain ⟨a₁, lq₁, copied, holds₁⟩ := h.forceAddMulti one
  obtain ⟨lq₂, added, a₂, holds₂⟩ := h.forceAddEach enough
  have whole : l.rtake (m - 1) = l := rtake_of_length_le (by omega)
  have stored : (push (m - 1) (newData.data 0))^[(n : ℤ).toNat] l =
      (l ++ List.replicate n (newData.data 0)).rtake (m - 1) := by
    rw [← iterate_push_rtake, whole, Int.toNat_natCast]
  have cap : (lq.max - 1).toNat = m - 1 := by
    rw [h.max]
    omega
  rw [stored] at holds₁
  rw [← rtake_replicate_eq_iff]
  constructor
  · rintro ⟨lq₁, count, lq₂, first, second, same, -⟩
    cases copied.symm.trans first
    cases added.symm.trans second
    rwa [holds₁.contents_eq, holds₂.contents_eq] at same
  · intro same
    refine ⟨lq₁, _, lq₂, copied, added, ?_, ?_⟩
    · rw [holds₁.contents_eq, holds₂.contents_eq, same]
    · rw [holds₁.contents_eq, h.contents_eq, cap, same]

end Holds

/-- A batch is stored exactly if no element of it that is kept differs from the first.
`loopQueueAddMulti` keeps as many elements as the queue is idle, from the first on;
`loopQueueForceAddMulti` keeps the last `max - 1`. -/
theorem batch_stored_iff (reached : Reached none none lq) (newData : Buffer α) {n : ℕ}
    (enough : n ≤ newData.size) :
    ∃ idle, loopQueueGetIdleLength lq.toRing = .ok idle ∧
      (AddMultiStoresBatch lq newData n ↔
        ∀ i : ℕ, i < n → i < idle → newData.data i = newData.data 0) ∧
      (ForceAddMultiStoresBatch lq newData n ↔
        ∀ i : ℕ, i < n → n - (lq.max - 1) ≤ i → newData.data i = newData.data 0) := by
  obtain ⟨m, a, l, holds⟩ := reached.holds
  have room := holds.room
  refine ⟨_, holds.idleLength_eq, ?_, ?_⟩
  · rw [holds.addMulti_storesBatch_iff enough]
    refine forall_congr' fun i => forall_congr' fun less => ?_
    have fits : l.length + i < m - 1 ↔ (i : ℤ) < m - 1 - l.length := by omega
    rw [fits]
  · rw [holds.forceAddMulti_storesBatch_iff enough, holds.max]
    refine forall_congr' fun i => forall_congr' fun less => ?_
    have kept : n ≤ i + (m - 1) ↔ (n : ℤ) - (m - 1) ≤ i := by omega
    rw [kept]

/-- The full queue takes nothing of the batch `5, 6, 5, 5`, and forced in, its last two. -/
theorem batch_stored_iff_pair :
    AddMultiStoresBatch pairLq ⟨4, fun i => if i = 1 then 6 else 5⟩ 4 ∧
      ForceAddMultiStoresBatch pairLq ⟨4, fun i => if i = 1 then 6 else 5⟩ 4 := by
  obtain ⟨idle, known, added, forced⟩ :=
    batch_stored_iff pairLq_reached ⟨4, fun i => if i = 1 then 6 else 5⟩ (n := 4) le_rfl
  obtain rfl : 0 = idle := Except.ok.inj known
  constructor
  · rw [added]
    intro i less room
    omega
  · rw [forced]
    intro i less kept
    have later : i ≠ 1 := by
      rintro rfl
      exact absurd kept (by decide)
    simp [later]

/-- An empty queue of three slots has room for `0, 1`, but gets `0, 0`. -/
theorem batch_stored_fails_two :
    Reached none none (loopQueueInit blankLq 3 ⟨3, fun _ => 0⟩ none none 0) ∧
    ¬ AddMultiStoresBatch (loopQueueInit blankLq 3 ⟨3, fun _ => 0⟩ none none 0)
      ⟨2, fun i => i⟩ 2 ∧
    ¬ ForceAddMultiStoresBatch (loopQueueInit blankLq 3 ⟨3, fun _ => 0⟩ none none 0)
      ⟨2, fun i => i⟩ 2 := by
  have size : ((Buffer.size ⟨3, fun _ => (0 : ℕ)⟩ : ℕ) : ℤ) = 3 := rfl
  have holds := loopQueueInit_holds (by decide) (by decide) size blankLq 0
  refine ⟨⟨blankLq, 3, ⟨3, fun _ => 0⟩, 0, [], [], by decide, by decide, rfl, trivial, rfl⟩, ?_, ?_⟩
  · rw [holds.addMulti_storesBatch_iff le_rfl]
    intro same
    exact absurd (same 1 (by decide) (by decide)) (by decide)
  · rw [holds.forceAddMulti_storesBatch_iff le_rfl]
    intro same
    exact absurd (same 1 (by decide) (by decide)) (by decide)

end Components.LoopQueue
