import Components.LoopQueue.Batch
import Components.LoopQueue.Inspection

/-!
# Adding between an inspection and its delete

A reader inspects `k` elements and deletes them later. In between others may add.
`loopQueueInspectDelete` steps `head` on by `k`, wherever it is by then. A forced add on a
full queue has moved it already, past an element that was inspected, and then the delete
takes one that was not.

The elements are told apart by a mark: the inspection marks what it returns, and the marks
move through the bounded queue with the elements. All of this is about the indices, so the
handlers are arbitrary.

## Main definitions

* `marksAfter` — which of the stored elements were inspected
* `KeepsUninspected` — the delete removes inspected elements only
* `Fits` — no forced add runs out of room
* `Occupied` — how many slots are taken, whatever is in them

## Main results

* `Occupied.exec` — the calls that add, on the indices
* `foldl_mark` — what a sequence of adds does to the marks
* `inspectDelete_keeps_iff` — when the delete removes inspected elements only
-/

namespace Components.LoopQueue

open Circular

variable {α β : Type} {lq lq' : Lq α} {newData : Buffer α} {m a n cap j b : ℕ} {k r : ℤ}

/-! ### Marks -/

namespace Op

/-- The calls that add. -/
def Adds : Op α → Prop
  | addOne _ | forceAddOne _ | addMulti _ _ | forceAddMulti _ _ => True
  | getOne _ | getMulti _ _ | inspectMulti _ _ | inspectDelete _ | deleteMulti _ | deleteAll =>
    False

/-- The calls that add to a full queue, too. -/
def forced : Op α → Bool
  | forceAddOne _ | forceAddMulti _ _ => true
  | addOne _ | addMulti _ _ => false
  | getOne _ | getMulti _ _ | inspectMulti _ _ | inspectDelete _ | deleteMulti _ | deleteAll =>
    false

/-- How many elements the call is to add. -/
def count : Op α → ℕ
  | addOne _ | forceAddOne _ => 1
  | addMulti _ multi | forceAddMulti _ multi => multi.toNat
  | getOne _ | getMulti _ _ | inspectMulti _ _ | inspectDelete _ | deleteMulti _ | deleteAll => 0

/-- The same call on a queue of another type, adding elements of that type. -/
def withData (newData : Buffer β) : Op α → Op β
  | addOne _ => .addOne newData
  | forceAddOne _ => .forceAddOne newData
  | addMulti _ multi => .addMulti newData multi
  | forceAddMulti _ multi => .forceAddMulti newData multi
  | getOne _ => .getOne none
  | getMulti _ recvSize => .getMulti none recvSize
  | inspectMulti _ recvSize => .inspectMulti none recvSize
  | inspectDelete multi => .inspectDelete multi
  | deleteMulti multi => .deleteMulti multi
  | deleteAll => .deleteAll

end Op

/-- What a call does to the marks of the stored elements. New elements come without one. -/
def mark (cap : ℕ) (marks : List Bool) (op : Op α) : List Bool :=
  (fifoStep cap marks (op.withData ⟨1, fun _ => false⟩)).1

/-- Marks on `j` elements and none on the `b` elements behind them. -/
def front (j b : ℕ) : List Bool := List.replicate j true ++ List.replicate b false

/-- The marks after these calls, when `k` of `use` elements had been inspected before. -/
def marksAfter (cap use : ℕ) (k : ℤ) (ops : List (Op α)) : List Bool :=
  ops.foldl (mark cap) (front k.toNat (use - k.toNat))

/-- The elements without a mark, in order. -/
def unmarked (l : List α) (marks : List Bool) : List α :=
  ((l.zip marks).filter fun entry => !entry.2).map Prod.fst

/-- Going from `lq₁` to `lq₂` the elements without a mark stay in the queue, in order, and
nothing enters it. -/
def KeepsUninspected (marks : List Bool) (lq₁ lq₂ : Lq α) : Prop :=
  unmarked (contents lq₁.toRing) marks <:+ contents lq₂.toRing ∧
    contents lq₂.toRing <:+ contents lq₁.toRing

/-- Every forced add finds room for all it adds, with `use` elements stored before. -/
def Fits (cap : ℕ) : ℕ → List (Op α) → Prop
  | _, [] => True
  | use, op :: ops =>
    (op.forced → use + op.count ≤ cap) ∧ Fits cap (min cap (use + op.count)) ops

theorem length_front (j b : ℕ) : (front j b).length = j + b := by simp [front]

theorem front_append (j b c : ℕ) : front j b ++ List.replicate c false = front j (b + c) := by
  rw [front, List.append_assoc, ← List.replicate_add, front]

/-- A plain add keeps the first elements, a forced one the last. -/
theorem mark_eq {marks : List Bool} (short : marks.length ≤ cap) {op : Op α} (adds : op.Adds) :
    mark cap marks op =
      if op.forced then (marks ++ List.replicate op.count false).rtake cap
      else (marks ++ List.replicate op.count false).take cap := by
  have whole : marks.rtake cap = marks := rtake_of_length_le short
  cases op with
  | addOne newData =>
    have one := take_concat marks false cap
    rw [List.take_of_length_le short] at one
    refine Eq.trans ?_ (if_neg Bool.false_ne_true).symm
    rw [Op.count, List.replicate_one, one, mark, Op.withData, fifoStep, apply_ite Prod.fst]
  | forceAddOne newData =>
    have one := push_rtake marks false cap
    rw [whole] at one
    exact one
  | addMulti newData multi =>
    have count : (min multi (cap - marks.length)).toNat = min (cap - marks.length) multi.toNat := by
      omega
    refine Eq.trans ?_ (if_neg Bool.false_ne_true).symm
    rw [Op.count, List.take_append, List.take_of_length_le short, List.take_replicate, ← count]
    rfl
  | forceAddMulti newData multi =>
    have copies := iterate_push_rtake marks false cap multi.toNat
    rw [whole] at copies
    exact copies
  | getOne | getMulti | inspectMulti | inspectDelete | deleteMulti | deleteAll => exact adds.elim

/-- Marks stay in front of the elements without one. A call takes marks away exactly if it
is forced and lacks room. -/
theorem mark_front (short : j + b ≤ cap) {op : Op α} (adds : op.Adds) :
    ∃ j' b', mark cap (front j b) op = front j' b' ∧ j' + b' = min cap (j + b + op.count) ∧
      j' ≤ j ∧ (j' = j ↔ j = 0 ∨ (op.forced → j + b + op.count ≤ cap)) := by
  rw [mark_eq ((length_front j b).trans_le short) adds, front_append]
  cases op.forced with
  | false =>
    refine ⟨j, min (cap - j) (b + op.count), ?_, by omega, le_rfl, by simp⟩
    rw [if_neg Bool.false_ne_true, front, List.take_append, List.length_replicate,
      List.take_replicate, List.take_replicate, min_eq_right (by omega), front]
  | true =>
    have lost : (front j (b + op.count)).length - cap = j + b + op.count - cap := by
      rw [length_front, ← Nat.add_assoc]
    refine ⟨j - (j + b + op.count - cap), b + op.count - (j + b + op.count - cap - j), ?_,
      by omega, by omega, ?_⟩
    · rw [if_pos rfl, List.rtake, lost, front, List.drop_append, List.length_replicate,
        List.drop_replicate, List.drop_replicate, front]
    · rw [forall_prop_of_true rfl]
      omega

/-- The same for a sequence of calls. -/
theorem foldl_mark {ops : List (Op α)} (short : j + b ≤ cap) (adds : ∀ op ∈ ops, op.Adds) :
    ∃ j' b', ops.foldl (mark cap) (front j b) = front j' b' ∧ j + b ≤ j' + b' ∧ j' + b' ≤ cap ∧
      j' ≤ j ∧ (j' = j ↔ j = 0 ∨ Fits cap (j + b) ops) := by
  induction ops generalizing j b with
  | nil => exact ⟨j, b, rfl, le_rfl, short, le_rfl, by simp [Fits]⟩
  | cons op ops ih =>
    obtain ⟨j₁, b₁, first, length, fewer, same⟩ := mark_front short (adds op List.mem_cons_self)
    obtain ⟨j', b', rest, grown, short', fewer', same'⟩ :=
      ih (j := j₁) (b := b₁) (by omega) fun op' mem => adds op' (List.mem_cons_of_mem op mem)
    refine ⟨j', b', ?_, by omega, short', by omega, ?_⟩
    · rw [List.foldl_cons, first, rest]
    -- no mark is lost on the whole exactly if none is lost in either part
    · rw [length] at same'
      rw [Fits]
      constructor
      · intro all
        have first' := same.mp (by omega)
        have rest' := same'.mp (by omega)
        by_cases none : j = 0
        · exact .inl none
        · exact .inr ⟨first'.resolve_left none, rest'.resolve_left (by omega)⟩
      · rintro (rfl | ⟨fits, fits'⟩)
        · omega
        · have first' := same.mpr (.inr fits)
          have rest' := same'.mpr (.inr fits')
          omega

theorem unmarked_front {l : List α} (length : l.length = j + b) :
    unmarked l (front j b) = l.drop j := by
  induction j generalizing l with
  | zero =>
    have entries : (l.zip (front 0 b)).filter (fun entry => !entry.2) = l.zip (front 0 b) := by
      refine List.filter_eq_self.mpr ?_
      rintro ⟨x, marked⟩ mem
      have none := List.eq_of_mem_replicate (List.of_mem_zip mem).2
      simp [none]
    rw [unmarked, entries, List.map_fst_zip (by rw [length_front, length]), List.drop_zero]
  | succ j ih =>
    cases l with
    | nil =>
      rw [List.length_nil] at length
      omega
    | cons x l =>
      rw [List.length_cons] at length
      rw [List.drop_succ_cons, ← ih (by omega)]
      rfl

/-! ### Indices under any handlers -/

/-- Of the `m` slots `n` are taken, `a` elements having been taken out before. -/
structure Occupied (m a n : ℕ) (lq : Lq α) : Prop where
  max : lq.max = m
  large : (m : ℤ) ≤ lqSizeMax
  room : n < m
  head : lq.head = (a % m : ℕ)
  end_ : lq.end_ = ((a + n) % m : ℕ)

/-- The queue over a buffer of `m` slots, with the default handlers. -/
def Lq.plain (m : ℕ) (lq : Lq α) : Lq α where
  head := lq.head
  end_ := lq.end_
  max := lq.max
  queue := ⟨m, lq.queue.data⟩
  addOneDataFunc := some defaultAddOneDataFunc
  getOneDataFunc := some defaultAeduceOneDataFunc
  userData := lq.userData

/-- What stands in the slots that are taken. -/
def taken (m a n : ℕ) (data : ℕ → α) : List α := (List.range n).map fun i => data ((a + i) % m)

theorem length_taken (m a n : ℕ) (data : ℕ → α) : (taken m a n data).length = n := by
  simp [taken]

theorem taken_drop (m a n i : ℕ) (data : ℕ → α) :
    taken m (a + i) (n - i) data = (taken m a n data).drop i := by
  refine List.ext_getElem (by simp [taken]) fun p _ _ => ?_
  simp [taken, Nat.add_assoc]

theorem callAddOneDataFunc_inv (done : callAddOneDataFunc lq newData = .ok lq') :
    ∃ queue, lq' = { lq with queue := queue } := by
  unfold callAddOneDataFunc at done
  split at done
  · cases done
    exact ⟨lq.queue, rfl⟩
  · obtain ⟨queue, -, done⟩ := bind_eq_ok done
    cases done
    exact ⟨queue, rfl⟩

namespace Occupied

section Macros

variable (h : Occupied m a n lq)
include h

theorem holds : Holds m a (lq.plain m) (taken m a n lq.queue.data) where
  max := h.max
  large := h.large
  room := by
    rw [length_taken]
    exact h.room
  head := h.head
  end_ := by
    rw [length_taken]
    exact h.end_
  size := rfl
  window := by
    intro i hi
    simp [taken, Lq.plain]
  add := rfl
  get := rfl

theorem contents_eq : contents lq.toRing = taken m a n lq.queue.data := h.holds.contents_eq

theorem isFull_eq : loopQueueIsFull lq.toRing = .ok (if n + 1 = m then .full else .ok) := by
  have full := h.holds.isFull_eq
  rwa [length_taken] at full

theorem useLength_eq : loopQueueGetUseLength lq.toRing = .ok n := by
  have use := h.holds.useLength_eq
  rwa [length_taken] at use

theorem idleLength_eq : loopQueueGetIdleLength lq.toRing = .ok ((m : ℤ) - 1 - n) := by
  have idle := h.holds.idleLength_eq
  rwa [length_taken] at idle

/-- What is in the buffer does not matter. -/
theorem withQueue (queue : Buffer α) : Occupied m a n { lq with queue := queue } :=
  ⟨h.max, h.large, h.room, h.head, h.end_⟩

theorem fastAddOne_eq : loopQueueNonFullFastAddOne lq =
    .ok { lq with end_ := ((a + n + 1) % m : ℕ) } := by
  have next := h.holds.next_end
  rw [length_taken] at next
  unfold loopQueueNonFullFastAddOne
  rw [← bind_assoc]
  exact congrArg (· >>= _) next

theorem fastGetOne_eq : loopQueueNonEmptyFastGetOne lq =
    .ok { lq with head := ((a + 1) % m : ℕ) } := by
  have next := h.holds.next_head
  unfold loopQueueNonEmptyFastGetOne
  rw [← bind_assoc]
  exact congrArg (· >>= _) next

end Macros

/-- One round of an add, with room in the queue. -/
theorem append (h : Occupied m a n lq) (room : n + 1 < m)
    (done : (callAddOneDataFunc lq newData >>= loopQueueNonFullFastAddOne) = .ok lq') :
    Occupied m a (n + 1) lq' := by
  obtain ⟨stored, called, done⟩ := bind_eq_ok done
  obtain ⟨queue, rfl⟩ := callAddOneDataFunc_inv called
  cases (h.withQueue queue).fastAddOne_eq.symm.trans done
  exact ⟨h.max, h.large, room, h.head, rfl⟩

/-- One round of a forced add. -/
theorem force (h : Occupied m a n lq)
    (done : (callAddOneDataFunc lq newData >>= loopQueueUnknownFullFastAddOne) = .ok lq') :
    ∃ a', Occupied m a' (min (m - 1) (n + 1)) lq' := by
  have room := h.room
  have meet := succ_mod_eq_mod_iff (a := a) (b := a + n) (m := m) (by omega) (by omega)
  obtain ⟨stored, called, done⟩ := bind_eq_ok done
  obtain ⟨queue, rfl⟩ := callAddOneDataFunc_inv called
  unfold loopQueueUnknownFullFastAddOne at done
  rw [(h.withQueue queue).fastAddOne_eq, ok_bind] at done
  -- the end catches up with the head exactly if the last slot is taken
  by_cases full : n + 1 < m
  · have apart : (((a + n + 1) % m : ℕ) : ℤ) ≠ lq.head := by
      rw [h.head, Ne, Nat.cast_inj, meet]
      omega
    rw [if_neg apart] at done
    cases done
    rw [min_eq_right (by omega)]
    exact ⟨a, h.max, h.large, full, h.head, rfl⟩
  · have caught : (((a + n + 1) % m : ℕ) : ℤ) = lq.head := by
      rw [h.head, Nat.cast_inj, meet]
      omega
    have next := h.holds.next_head
    rw [if_pos caught] at done
    unfold loopQueueNonEmptyFastGetOne at done
    rw [← bind_assoc] at done
    cases (congrArg (· >>= _) next).symm.trans done
    refine ⟨a + 1, h.max, h.large, by omega, rfl, ?_⟩
    have index : a + 1 + min (m - 1) (n + 1) = a + n + 1 := by omega
    rw [index]

/-- Stepping past the first elements leaves the others. -/
theorem delete (h : Occupied m a n lq) (enough : k ≤ n) :
    ∃ lq', loopQueueInspectDelete lq k = .ok (lq', k) ∧
      contents lq'.toRing = (contents lq.toRing).drop k.toNat := by
  have rounds : ∃ lq', forLoop (fun _ lq => loopQueueNonEmptyFastGetOne lq) k.toNat lq = .ok lq' ∧
      Occupied m (a + k.toNat) (n - k.toNat) lq' ∧ lq'.queue = lq.queue := by
    refine forLoop_of_invariant
      (fun i lq' => Occupied m (a + i) (n - i) lq' ∧ lq'.queue = lq.queue) ⟨h, rfl⟩ ?_
    rintro i lq' less ⟨occupied, same⟩
    refine ⟨_, occupied.fastGetOne_eq, ⟨occupied.max, h.large, ?_, rfl, ?_⟩, same⟩
    · have room := h.room
      omega
    · have index : a + (i + 1) + (n - (i + 1)) = a + i + (n - i) := by omega
      rw [index]
      exact occupied.end_
  obtain ⟨lq', done, occupied, same⟩ := rounds
  refine ⟨lq', ?_, ?_⟩
  · simp only [loopQueueInspectDelete, done, ok_bind]
    rfl
  · rw [occupied.contents_eq, h.contents_eq, same, taken_drop]

/-! ### Calls -/

theorem addOne (h : Occupied m a n lq) (done : loopQueueAddOne lq newData = .ok (lq', r)) :
    Occupied m a (min (m - 1) (n + 1)) lq' := by
  have room := h.room
  unfold loopQueueAddOne at done
  rw [h.isFull_eq, ok_bind] at done
  by_cases full : n + 1 = m
  · rw [if_pos full, if_neg (by simp)] at done
    cases done
    rw [min_eq_left (by omega), show m - 1 = n by omega]
    exact h
  · rw [if_neg full, if_pos (by simp), ← bind_assoc] at done
    obtain ⟨lq', rounds, done⟩ := bind_eq_ok done
    cases done
    rw [min_eq_right (by omega)]
    exact h.append (by omega) rounds

theorem forceAddOne (h : Occupied m a n lq)
    (done : loopQueueForceAddOne lq newData = .ok (lq', r)) :
    ∃ a', Occupied m a' (min (m - 1) (n + 1)) lq' := by
  unfold loopQueueForceAddOne at done
  rw [← bind_assoc] at done
  obtain ⟨lq', round, done⟩ := bind_eq_ok done
  cases done
  exact h.force round

theorem addMulti {multi : ℤ} (h : Occupied m a n lq)
    (done : loopQueueAddMulti lq newData multi = .ok (lq', r)) :
    Occupied m a (min (m - 1) (n + multi.toNat)) lq' := by
  have room := h.room
  simp only [loopQueueAddMulti, h.idleLength_eq, ok_bind, clamp_eq] at done
  obtain ⟨lq', rounds, done⟩ := bind_eq_ok done
  cases done
  have count : min (m - 1) (n + multi.toNat) = n + (min multi ((m : ℤ) - 1 - n)).toNat := by omega
  rw [count]
  refine forLoop_invariant (fun i lq => Occupied m a (n + i) lq) h ?_ rounds
  intro i lq lq' less occupied round
  exact occupied.append (by omega) round

theorem forceAddMulti {multi : ℤ} (h : Occupied m a n lq)
    (done : loopQueueForceAddMulti lq newData multi = .ok (lq', r)) :
    ∃ a', Occupied m a' (min (m - 1) (n + multi.toNat)) lq' := by
  have room := h.room
  obtain ⟨lq', rounds, done⟩ := bind_eq_ok done
  cases done
  refine forLoop_invariant (fun i lq => ∃ a', Occupied m a' (min (m - 1) (n + i)) lq) ?_ ?_ rounds
  · rw [Nat.add_zero, min_eq_right (by omega)]
    exact ⟨a, h⟩
  · rintro i lq lq' less ⟨a', occupied⟩ round
    have count : min (m - 1) (n + (i + 1)) = min (m - 1) (min (m - 1) (n + i) + 1) := by omega
    rw [count]
    exact occupied.force round

/-- Every call that adds takes the slots it is to take, as far as there are any. -/
theorem exec (h : Occupied m a n lq) {op : Op α} (adds : op.Adds)
    (done : op.exec lq = .ok (lq', r)) : ∃ a', Occupied m a' (min (m - 1) (n + op.count)) lq' := by
  cases op with
  | addOne newData => exact ⟨a, h.addOne done⟩
  | forceAddOne newData => exact h.forceAddOne done
  | addMulti newData multi => exact ⟨a, h.addMulti done⟩
  | forceAddMulti newData multi => exact h.forceAddMulti done
  | getOne | getMulti | inspectMulti | inspectDelete | deleteMulti | deleteAll => exact adds.elim

/-- So a sequence of them takes as many as there are marks. -/
theorem run {ops : List (Op α)} {marks : List Bool} {results : List ℤ}
    (h : Occupied m a marks.length lq) (adds : ∀ op ∈ ops, op.Adds)
    (done : (machine α).run lq ops = .ok (lq', results)) :
    ∃ a', Occupied m a' (ops.foldl (mark (m - 1)) marks).length lq' := by
  induction ops generalizing lq a marks results with
  | nil =>
    cases done
    exact ⟨a, h⟩
  | cons op ops ih =>
    have room := h.room
    obtain ⟨lq₁, r, rest, first, done, -⟩ := Machine.run_cons_inv done
    have adds' := adds op List.mem_cons_self
    obtain ⟨a₁, occupied⟩ := h.exec adds' first
    have length : (mark (m - 1) marks op).length = min (m - 1) (marks.length + op.count) := by
      rw [mark_eq (by omega) adds']
      split_ifs with forced
      · rw [List.rtake, List.length_drop, List.length_append, List.length_replicate]
        omega
      · rw [List.length_take, List.length_append, List.length_replicate]
    rw [← length] at occupied
    exact ih occupied (fun op' mem => adds op' (List.mem_cons_of_mem op mem)) done

end Occupied

/-- The indices of every reachable queue, under any handlers. -/
theorem Reached.occupied {add : Option (AddOneDataFunc α)} {get : Option (GetOneDataFunc α)}
    (reached : Reached add get lq) : ∃ m a n, Occupied m a n lq := by
  obtain ⟨pos, high, ⟨headLow, headHigh⟩, ⟨endLow, endHigh⟩, -⟩ := reached.indexed
  have less := Int.emod_lt_of_pos (lq.end_ - lq.head) (show 0 < lq.max by omega)
  have least := Int.emod_nonneg (lq.end_ - lq.head) (b := lq.max) (by omega)
  refine ⟨lq.max.toNat, lq.head.toNat, ((lq.end_ - lq.head) % lq.max).toNat, by omega, by omega,
    by omega, ?_, ?_⟩
  · rw [Nat.mod_eq_of_lt (by omega), Int.toNat_of_nonneg headLow]
  · push_cast
    rw [Int.toNat_of_nonneg headLow, Int.toNat_of_nonneg least, Int.toNat_of_nonneg (by omega),
      Int.add_emod_emod, add_sub_cancel, Int.emod_eq_of_lt endLow endHigh]

/-! ### The two phases -/

/-- An inspection returns at most the use length, and changes nothing. -/
theorem inspectMulti_inv {recvData seen : Option (Buffer α)} {asked use : ℤ}
    (known : loopQueueGetUseLength lq.toRing = .ok use)
    (done : loopQueueInspectMulti lq recvData asked = .ok (lq', seen, k)) : lq' = lq ∧ k ≤ use := by
  simp only [loopQueueInspectMulti, known, ok_bind, clamp_eq] at done
  obtain ⟨recvData', -, done⟩ := bind_eq_ok done
  cases done
  exact ⟨rfl, min_le_right _ _⟩

/-- Between an inspection that returned `k` and the delete, others add. Every stored
element has its mark; the delete completes and steps past the first `k` elements. These are
inspected ones exactly if `k` is not positive or no forced add ran out of room. -/
theorem inspectDelete_keeps_iff {add : Option (AddOneDataFunc α)}
    {get : Option (GetOneDataFunc α)} (reached : Reached add get lq)
    {recvData seen : Option (Buffer α)} {asked : ℤ}
    (inspected : loopQueueInspectMulti lq recvData asked = .ok (lq', seen, k))
    {ops : List (Op α)} {lq₁ : Lq α} {results : List ℤ} (adds : ∀ op ∈ ops, op.Adds)
    (added : (machine α).run lq' ops = .ok (lq₁, results)) :
    ∃ (use : ℕ) (lq₂ : Lq α), loopQueueGetUseLength lq.toRing = .ok use ∧
      (marksAfter (lq.max - 1).toNat use k ops).length = (contents lq₁.toRing).length ∧
      loopQueueInspectDelete lq₁ k = .ok (lq₂, k) ∧
      contents lq₂.toRing = (contents lq₁.toRing).drop k.toNat ∧
      (KeepsUninspected (marksAfter (lq.max - 1).toNat use k ops) lq₁ lq₂ ↔
        k ≤ 0 ∨ Fits (lq.max - 1).toNat use ops) := by
  obtain ⟨m, a, n, occupied⟩ := reached.occupied
  have room := occupied.room
  have cap : (lq.max - 1).toNat = m - 1 := by
    rw [occupied.max]
    omega
  obtain ⟨rfl, atMost⟩ := inspectMulti_inv occupied.useLength_eq inspected
  -- the marks on the elements at the time of the delete
  have before : k.toNat + (n - k.toNat) ≤ m - 1 := by omega
  obtain ⟨j, b, marks, grown, short, fewer, same⟩ := foldl_mark before adds
  have start : n = (front k.toNat (n - k.toNat)).length := by
    rw [length_front]
    omega
  have length : k.toNat + (n - k.toNat) = n := by omega
  rw [length] at grown same
  have occupied' := occupied
  rw [start] at occupied'
  obtain ⟨a₁, occupied₁⟩ := occupied'.run adds added
  rw [marks, length_front] at occupied₁
  have stored : (contents lq₁.toRing).length = j + b := by
    rw [occupied₁.contents_eq, length_taken]
  obtain ⟨lq₂, deleted, rest⟩ := occupied₁.delete (k := k) (by omega)
  refine ⟨n, lq₂, occupied.useLength_eq, ?_, deleted, rest, ?_⟩
  · rw [cap, marksAfter, marks, length_front, stored]
  · have none : k ≤ 0 ↔ k.toNat = 0 := by omega
    rw [cap, marksAfter, marks, KeepsUninspected, unmarked_front stored, rest, none, ← same]
    constructor
    -- an element without a mark is lost where the delete takes more than there are marks
    · rintro ⟨kept, -⟩
      have lengths := kept.length_le
      rw [List.length_drop, List.length_drop, stored] at lengths
      omega
    · intro all
      rw [all]
      exact ⟨List.suffix_rfl, List.drop_suffix _ _⟩

/-- A queue of three slots in which `7` is stored. -/
def singleLq : Lq ℕ where
  head := 0
  end_ := 1
  max := 3
  queue := ⟨3, Function.update (fun _ => 0) 0 7⟩
  addOneDataFunc := some defaultAddOneDataFunc
  getOneDataFunc := some defaultAeduceOneDataFunc
  userData := 0

/-- `8` is forced into a queue with room for it, and is there after `7` has been deleted. -/
theorem inspectDelete_keeps_iff_single : ∃ lq₁ lq₂,
    (machine ℕ).run singleLq [.forceAddOne ⟨1, fun _ => 8⟩] = .ok (lq₁, [1]) ∧
    loopQueueInspectDelete lq₁ 1 = .ok (lq₂, 1) ∧ contents lq₂.toRing = [8] ∧
    KeepsUninspected (marksAfter 2 1 1 [Op.forceAddOne (⟨1, fun _ => 8⟩ : Buffer ℕ)]) lq₁ lq₂ := by
  have reached : Reached none none singleLq :=
    ⟨blankLq, 3, ⟨3, fun _ => 0⟩, 0, [.addOne ⟨1, fun _ => 7⟩], [1], by decide, by decide, rfl,
      by decide +kernel, rfl⟩
  have adds : ∀ op ∈ [Op.forceAddOne (⟨1, fun _ => 8⟩ : Buffer ℕ)], op.Adds := by
    rintro op mem
    rw [List.mem_singleton.mp mem]
    trivial
  have inspected : loopQueueInspectMulti singleLq none 1 = .ok (singleLq, none, 1) := rfl
  have added : (machine ℕ).run singleLq [.forceAddOne ⟨1, fun _ => 8⟩] =
      .ok ({ singleLq with
        end_ := 2, queue := ⟨3, Function.update singleLq.queue.data 1 8⟩ }, [1]) := rfl
  obtain ⟨use, lq₂, known, -, deleted, rest, keeps⟩ :=
    inspectDelete_keeps_iff reached inspected adds added
  obtain rfl : 1 = use := Int.ofNat.inj (Except.ok.inj known)
  exact ⟨_, lq₂, added, deleted, rest, keeps.mpr (.inr ⟨fun _ => by decide, trivial⟩)⟩

/-- `7` has been inspected in a full queue. Forcing in `9` takes it out, and the delete
takes out `8`. -/
theorem inspectDelete_loses_pair : Reached none none pairLq ∧
    loopQueueInspectMulti pairLq none 1 = .ok (pairLq, none, 1) ∧
    ∃ lq₁ lq₂, (machine ℕ).run pairLq [.forceAddOne ⟨1, fun _ => 9⟩] = .ok (lq₁, [1]) ∧
      contents lq₁.toRing = [8, 9] ∧
      loopQueueInspectDelete lq₁ 1 = .ok (lq₂, 1) ∧ contents lq₂.toRing = [9] ∧
      ¬ KeepsUninspected (marksAfter 2 2 1 [Op.forceAddOne (⟨1, fun _ => 9⟩ : Buffer ℕ)])
        lq₁ lq₂ := by
  refine ⟨pairLq_reached, rfl,
    { pairLq with head := 1, end_ := 0, queue := ⟨3, Function.update pairLq.queue.data 2 9⟩ },
    { pairLq with head := 2, end_ := 0, queue := ⟨3, Function.update pairLq.queue.data 2 9⟩ },
    rfl, by decide, rfl, by decide, ?_⟩
  rintro ⟨kept, -⟩
  exact absurd kept.length_le (by decide)

end Components.LoopQueue
