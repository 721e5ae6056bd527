import Components.LoopQueue.Basic
import Components.Math.Circular

/-!
# The ring buffer is a bounded queue

The elements stored in a `loopQueue` of `max` slots, read from `head` to `end`, form a
list of at most `max - 1` elements. Every operation acts on that list as `fifoStep` says
and returns its count; no index leaves the range of `lq_size_t` and no access the buffer.

## Main definitions

* `contents` — the slots from `head` up to `end`
* `push`, `fifo` — the bounded queue
* `received` — what the default get handler leaves in `recvData`
* `Holds` — the queue stores the elements of a list

## Main results

* `Holds.exec` — each operation, on the ring and on the list
* `Reached.holds` — so every reachable queue stores a list
* `loopQueue_refines_fifo` — every run of the ring is a run of the bounded queue
-/

namespace Components.LoopQueue

open Circular

variable {α : Type} {lq : Lq α} {l : List α} {m a : ℕ} {x : α}

/-- The elements from `head` up to `end`. -/
def contents (lq : Ring α) : List α :=
  (List.range ((lq.end_ - lq.head) % lq.max).toNat).map fun i : ℕ =>
    lq.queue.data ((lq.head + i) % lq.max).toNat

/-! ### The bounded queue -/

/-- Append, and drop the oldest element of a full queue. -/
def push (cap : ℕ) (x : α) (l : List α) : List α :=
  if l.length < cap then l ++ [x] else (l ++ [x]).tail

/-- What each operation does to a queue of capacity `cap`. A batch add appends copies of
`*newData`, not the elements that follow it: the code passes the same pointer to the add
handler in every round. -/
def fifoStep (cap : ℕ) (l : List α) : Op α → List α × ℤ
  | .addOne newData => if l.length < cap then (l ++ [newData.data 0], 1) else (l, 0)
  | .forceAddOne newData => (push cap (newData.data 0) l, 1)
  | .addMulti newData multi =>
    let k := min multi (cap - l.length)
    (l ++ List.replicate k.toNat (newData.data 0), k)
  | .forceAddMulti newData multi => ((push cap (newData.data 0))^[multi.toNat] l, multi)
  | .getOne _ => (l.tail, min 1 l.length)
  | .getMulti _ recvSize => (l.drop (min recvSize l.length).toNat, min recvSize l.length)
  | .inspectMulti _ recvSize => (l, min recvSize l.length)
  | .inspectDelete multi => (l.drop multi.toNat, multi)
  | .deleteMulti multi => (l.drop (min multi l.length).toNat, min multi l.length)
  | .deleteAll => ([], 0)

/-- The bounded queue as a machine. -/
def fifo (α : Type) (cap : ℕ) : Machine (List α) (Op α) ℤ Fault where
  step l op := .ok (fifoStep cap l op)
  Allowed l op := op.Allowed l.length

/-! ### The default get handler -/

/-- `buffer[0] = x`, for a buffer that has this element. -/
def Buffer.store (buffer : Buffer α) (x : α) : Buffer α :=
  { buffer with data := Function.update buffer.data 0 x }

/-- What is in `recvData` after the default get handler has seen these elements at the
head of the queue, one call after the other. -/
def received (seen : List α) (recvData : Option (Buffer α)) : Option (Buffer α) :=
  recvData.map fun arrRecv => seen.foldl Buffer.store arrRecv

@[simp] theorem received_nil (recvData : Option (Buffer α)) : received [] recvData = recvData := by
  simp [received]

theorem received_concat (seen : List α) (x : α) (recvData : Option (Buffer α)) :
    received (seen ++ [x]) recvData =
      (received seen recvData).map fun arrRecv => arrRecv.store x := by
  simp [received, Function.comp_def]

theorem Room.received {recvData : Option (Buffer α)} (room : Room recvData) (seen : List α) :
    Room (received seen recvData) := by
  induction seen using List.reverseRecOn with
  | nil => rwa [received_nil]
  | append_singleton seen x ih =>
    rw [received_concat]
    intro arrRecv mem
    obtain ⟨before, mem', rfl⟩ := Option.map_eq_some_iff.mp mem
    exact ih before mem'

/-! ### Arithmetic in range -/

theorem checked_eq {z : ℤ} (low : -2 ^ 31 ≤ z) (high : z ≤ lqSizeMax) : checked z = .ok z :=
  if_pos ⟨low, high⟩

/-- The index after one in the ring is in the ring. -/
theorem next_eq {i max : ℤ} (inside : 0 ≤ i ∧ i < max) (high : max ≤ lqSizeMax) :
    (do mod (← add i 1) max) = .ok ((i + 1) % max) ∧ 0 ≤ (i + 1) % max ∧ (i + 1) % max < max := by
  have low := Int.emod_nonneg (i + 1) (b := max) (by omega)
  have less := Int.emod_lt_of_pos (i + 1) (show 0 < max by omega)
  refine ⟨?_, low, less⟩
  rw [add, checked_eq (by omega) (by omega), ok_bind, mod, if_neg (by omega),
    Int.tmod_eq_emod_of_nonneg (by omega), checked_eq (by omega) (by omega)]

/-- The same for the remainder of a counter. -/
theorem next_counter {i : ℕ} (pos : 0 < m) (high : (m : ℤ) ≤ lqSizeMax) :
    (do mod (← add ((i % m : ℕ) : ℤ) 1) m) = .ok (((i + 1) % m : ℕ) : ℤ) := by
  have lt := Nat.mod_lt i pos
  rw [(next_eq (by omega) high).1]
  push_cast
  rw [Int.emod_add_emod]

/-- The smaller of what is asked for and what there is, as the functions compute it. -/
theorem clamp_eq (n use : ℤ) : (if n < use then n else use) = min n use := by
  split_ifs with less
  · exact (min_eq_left less.le).symm
  · exact (min_eq_right (not_lt.mp less)).symm

section Rounds

variable {lq' : Lq α} {recvData : Option (Buffer α)} {n use : ℤ}
  (known : loopQueueGetUseLength lq.toRing = .ok use)
include known

theorem inspectMulti_eq {seen : Option (Buffer α)}
    (rounds : forLoop (fun i recvData => callGetOneDataFunc lq recvData i) (min n use).toNat
      recvData = .ok seen) :
    loopQueueInspectMulti lq recvData n = .ok (lq, seen, min n use) := by
  simp only [loopQueueInspectMulti, known, ok_bind, clamp_eq, rounds]
  rfl

theorem getMulti_eq {recvData' : Option (Buffer α)}
    (rounds : forLoop getRound (min n use).toNat (lq, recvData) = .ok (lq', recvData')) :
    loopQueueGetMulti lq recvData n = .ok (lq', recvData', min n use) := by
  simp only [loopQueueGetMulti, known, ok_bind, clamp_eq, rounds]
  rfl

end Rounds

/-! ### The queue stores a list -/

/-- The queue of `m` slots stores the list, `a` elements having been taken out before. -/
structure Holds (m a : ℕ) (lq : Lq α) (l : List α) : Prop where
  max : lq.max = m
  large : (m : ℤ) ≤ lqSizeMax
  room : l.length < m
  head : lq.head = (a % m : ℕ)
  end_ : lq.end_ = ((a + l.length) % m : ℕ)
  size : lq.queue.size = m
  window : Window m lq.queue.data a l
  add : lq.addOneDataFunc = some defaultAddOneDataFunc
  get : lq.getOneDataFunc = some defaultAeduceOneDataFunc

namespace Holds

section Macros

variable (h : Holds m a lq l)
include h

theorem pos : 0 < m := Nat.zero_lt_of_lt h.room

theorem head_bounds : 0 ≤ lq.head ∧ lq.head < m := by
  have lt := Nat.mod_lt a h.pos
  rw [h.head]
  omega

theorem end_bounds : 0 ≤ lq.end_ ∧ lq.end_ < m := by
  have lt := Nat.mod_lt (a + l.length) h.pos
  rw [h.end_]
  omega

/-- The index after the end. -/
theorem next_end : (do mod (← LoopQueue.add lq.end_ 1) lq.max) =
    .ok (((a + l.length + 1) % m : ℕ) : ℤ) := by
  rw [h.end_, h.max]
  exact next_counter h.pos h.large

theorem next_head : (do mod (← LoopQueue.add lq.head 1) lq.max) =
    .ok (((a + 1) % m : ℕ) : ℤ) := by
  rw [h.head, h.max]
  exact next_counter h.pos h.large

theorem isEmpty_eq : loopQueueIsEmpty lq.toRing = if l.length = 0 then .empty else .ok := by
  have room := h.room
  have meet := mod_eq_mod_iff (a := a) (b := a + l.length) (m := m) (by omega) (by omega)
  unfold loopQueueIsEmpty
  rw [h.head, h.end_]
  refine if_congr ?_ rfl rfl
  rw [Nat.cast_inj, meet]
  omega

theorem isFull_eq :
    loopQueueIsFull lq.toRing = .ok (if l.length + 1 = m then .full else .ok) := by
  have room := h.room
  have meet := succ_mod_eq_mod_iff (a := a) (b := a + l.length) (m := m) (by omega) (by omega)
  have next := h.next_end
  unfold loopQueueIsFull
  rw [← bind_assoc, next, ok_bind, h.head]
  refine congrArg Except.ok (if_congr ?_ rfl rfl)
  rw [Nat.cast_inj, meet]
  omega

theorem useLength_eq : loopQueueGetUseLength lq.toRing = .ok l.length := by
  have room := h.room
  have large := h.large
  unfold loopQueueGetUseLength
  rw [h.head, h.end_, h.max]
  -- `end` is behind `head` exactly when the contents wrap around
  split_ifs with order
  · have apart := sub_of_mod_le (a := a) (b := a + l.length) (m := m) (by omega) (by omega)
      (by omega)
    rw [sub, checked_eq (by omega) (by omega)]
    congr 1
    omega
  · have apart := sub_of_mod_lt (a := a) (b := a + l.length) (m := m) (by omega) (by omega)
      (by omega)
    have lt := Nat.mod_lt a h.pos
    rw [sub, checked_eq (by omega) (by omega), ok_bind, LoopQueue.add,
      checked_eq (by omega) (by omega)]
    congr 1
    omega

theorem idleLength_eq : loopQueueGetIdleLength lq.toRing = .ok ((m : ℤ) - 1 - l.length) := by
  have room := h.room
  have large := h.large
  unfold loopQueueGetIdleLength
  rw [h.useLength_eq, h.max, sub, checked_eq (by omega) (by omega), ok_bind, ok_bind, sub,
    checked_eq (by omega) (by omega)]

theorem contents_eq : contents lq.toRing = l := by
  have room := h.room
  have pos := h.pos
  -- indices of the code and of the window, both modulo the size
  have index : ∀ i : ℕ, ((lq.head + i) % lq.max).toNat = (a + i) % m := by
    intro i
    rw [h.head, h.max]
    have cast : (((a % m : ℕ) : ℤ) + i) % m = (((a + i) % m : ℕ) : ℤ) := by
      push_cast
      rw [Int.emod_add_emod]
    rw [cast, Int.toNat_natCast]
  have length : ((lq.end_ - lq.head) % lq.max).toNat = l.length := by
    rw [h.head, h.end_, h.max]
    have cast : ((((a + l.length) % m : ℕ) : ℤ) - (a % m : ℕ)) % m = (l.length : ℤ) := by
      push_cast
      rw [← Int.sub_emod, add_sub_cancel_left]
      exact Int.emod_eq_of_lt (by omega) (by omega)
    rw [cast, Int.toNat_natCast]
  unfold contents
  rw [length]
  refine List.ext_getElem (by simp) fun i hi hi' => ?_
  rw [List.getElem_map, List.getElem_range, index]
  exact h.window i hi'

end Macros

/-! ### Storing and stepping -/

/-- The handler writes the slot at the end. -/
theorem callAddOneDataFunc_eq (h : Holds m a lq l) {newData : Buffer α} (one : 0 < newData.size) :
    callAddOneDataFunc lq newData = .ok { lq with queue := { lq.queue with
      data := Function.update lq.queue.data ((a + l.length) % m) (newData.data 0) } } := by
  have bounds := h.end_bounds
  have value : newData.read 0 = .ok (newData.data 0) := by
    rw [Buffer.read, if_pos ⟨le_rfl, by omega⟩]
    rfl
  have inside : 0 ≤ lq.end_ ∧ lq.end_ < lq.queue.size := by
    rw [h.size]
    exact bounds
  have index : lq.end_.toNat = (a + l.length) % m := by
    rw [h.end_, Int.toNat_natCast]
  simp only [callAddOneDataFunc, h.add, defaultAddOneDataFunc, value, ok_bind, Buffer.write,
    if_pos inside, index]
  rfl

theorem fastAddOne_eq (h : Holds m a lq l) (queue : Buffer α) :
    loopQueueNonFullFastAddOne { lq with queue := queue } =
      .ok { lq with queue := queue, end_ := ((a + l.length + 1) % m : ℕ) } := by
  have next := h.next_end
  unfold loopQueueNonFullFastAddOne
  dsimp only
  rw [← bind_assoc, next]
  rfl

theorem fastGetOne_eq (h : Holds m a lq l) :
    loopQueueNonEmptyFastGetOne lq = .ok { lq with head := ((a + 1) % m : ℕ) } := by
  have next := h.next_head
  unfold loopQueueNonEmptyFastGetOne
  rw [← bind_assoc, next]
  rfl

/-- One round of an add, with room in the queue. -/
theorem append (h : Holds m a lq l) {newData : Buffer α} (one : 0 < newData.size)
    (room : l.length + 1 < m) :
    ∃ lq', (callAddOneDataFunc lq newData >>= loopQueueNonFullFastAddOne) = .ok lq' ∧
      Holds m a lq' (l ++ [newData.data 0]) := by
  rw [h.callAddOneDataFunc_eq one, ok_bind, h.fastAddOne_eq]
  refine ⟨_, rfl, ?_⟩
  exact {
    max := h.max
    large := h.large
    room := by simpa using room
    head := h.head
    end_ := by
      rw [List.length_append, List.length_singleton, ← Nat.add_assoc]
    size := h.size
    -- the slot at the end is the reserved one
    window := h.window.push h.room _
    add := h.add
    get := h.get }

/-- One round of a get or a delete. -/
theorem step (h : Holds m a lq (x :: l)) :
    ∃ lq', loopQueueNonEmptyFastGetOne lq = .ok lq' ∧ Holds m (a + 1) lq' l := by
  have room := h.room
  rw [List.length_cons] at room
  refine ⟨_, h.fastGetOne_eq, ?_⟩
  exact {
    max := h.max
    large := h.large
    room := Nat.lt_of_succ_lt room
    head := rfl
    end_ := by
      have index : a + 1 + l.length = a + (x :: l).length := by
        rw [List.length_cons]
        ring
      rw [index]
      exact h.end_
    size := h.size
    window := h.window.pop
    add := h.add
    get := h.get }

/-- One round of a forced add: a full queue steps past its oldest element. -/
theorem force (h : Holds m a lq l) {newData : Buffer α} (one : 0 < newData.size) :
    ∃ a' lq', (callAddOneDataFunc lq newData >>= loopQueueUnknownFullFastAddOne) = .ok lq' ∧
      Holds m a' lq' (push (m - 1) (newData.data 0) l) := by
  have room := h.room
  have meet := succ_mod_eq_mod_iff (a := a) (b := a + l.length) (m := m) (by omega) (by omega)
  -- with room left the two indices stay apart after the add
  by_cases full : l.length + 1 < m
  · obtain ⟨lq', done, holds⟩ := h.append one full
    have apart : lq'.end_ ≠ lq'.head := by
      rw [holds.end_, holds.head, List.length_append, List.length_singleton, ← Nat.add_assoc, Ne,
        Nat.cast_inj, meet]
      omega
    refine ⟨a, lq', ?_, ?_⟩
    · unfold loopQueueUnknownFullFastAddOne
      rw [← bind_assoc, done, ok_bind, if_neg apart]
      rfl
    · rw [push, if_pos (by omega)]
      exact holds
  · -- the end has caught up with the head
    have caught : (a + l.length + 1) % m = a % m := meet.mpr (by omega)
    have lt := Nat.mod_lt a h.pos
    have large := h.large
    have window := h.window.push h.room (newData.data 0)
    rw [h.callAddOneDataFunc_eq one, ok_bind]
    unfold loopQueueUnknownFullFastAddOne
    rw [h.fastAddOne_eq, ok_bind]
    dsimp only
    rw [if_pos (by rw [caught, h.head])]
    unfold loopQueueNonEmptyFastGetOne
    dsimp only
    rw [← bind_assoc, h.next_head]
    refine ⟨a + 1, _, rfl, ?_⟩
    rw [push, if_neg (by omega)]
    exact {
      max := h.max
      large := h.large
      room := by simpa using room
      head := rfl
      end_ := by
        dsimp only
        rw [List.length_tail, List.length_append, List.length_singleton]
        congr 2
        omega
      size := h.size
      window := window.tail
      add := h.add
      get := h.get }

/-- The default get handler copies the slot at the head to the first element. -/
theorem callGetOneDataFunc_eq (h : Holds m a lq l) {recvData : Option (Buffer α)}
    (room : Room recvData) (i : ℤ) :
    callGetOneDataFunc lq recvData i =
      .ok (recvData.map fun arrRecv => arrRecv.store (lq.queue.data (a % m))) := by
  have bounds := h.head_bounds
  cases recvData with
  | none =>
    simp only [callGetOneDataFunc, h.get, defaultAeduceOneDataFunc]
    rfl
  | some arrRecv =>
    have one := room arrRecv rfl
    have value : lq.queue.read lq.head = .ok (lq.queue.data (a % m)) := by
      rw [Buffer.read, if_pos (by rw [h.size]; exact bounds), h.head, Int.toNat_natCast]
    have first : (0 : ℤ) ≤ 0 ∧ (0 : ℤ) < arrRecv.size := ⟨le_rfl, by omega⟩
    simp only [callGetOneDataFunc, h.get, defaultAeduceOneDataFunc, value, ok_bind, Buffer.write,
      if_pos first]
    rfl

/-! ### Loops -/

theorem step_drop {i : ℕ} (h : Holds m (a + i) lq (l.drop i)) (more : i < l.length) :
    ∃ lq', loopQueueNonEmptyFastGetOne lq = .ok lq' ∧
      Holds m (a + (i + 1)) lq' (l.drop (i + 1)) := by
  rw [List.drop_eq_getElem_cons more] at h
  exact h.step

/-- A loop that steps past `k` elements. -/
theorem loop_drop {k : ℕ} (h : Holds m a lq l) (enough : k ≤ l.length) :
    ∃ lq', forLoop (fun _ lq => loopQueueNonEmptyFastGetOne lq) k lq = .ok lq' ∧
      Holds m (a + k) lq' (l.drop k) :=
  forLoop_of_invariant (fun i lq => Holds m (a + i) lq (l.drop i)) (by simpa using h)
    fun _ _ hi holds => holds.step_drop (by omega)

/-- The same loop with a call of the get handler in every round: the handler sees each
element it steps past. -/
theorem loop_get {k : ℕ} {recvData : Option (Buffer α)} (h : Holds m a lq l)
    (enough : k ≤ l.length) (room : 0 < k → Room recvData) :
    ∃ lq', forLoop getRound k (lq, recvData) = .ok (lq', received (l.take k) recvData) ∧
      Holds m (a + k) lq' (l.drop k) := by
  have rounds : ∃ state, forLoop getRound k (lq, recvData) = .ok state ∧
      Holds m (a + k) state.1 (l.drop k) ∧ state.2 = received (l.take k) recvData := by
    refine forLoop_of_invariant
      (fun i (state : Lq α × Option (Buffer α)) =>
        Holds m (a + i) state.1 (l.drop i) ∧ state.2 = received (l.take i) recvData)
      ⟨by simpa using h, by simp⟩ ?_
    rintro i ⟨lq, recvData'⟩ hi ⟨holds, rfl⟩
    have more : i < l.length := by omega
    have ready := room (by omega)
    obtain ⟨lq', stepped, holds'⟩ := holds.step_drop more
    -- the slot at the head holds the next element of the list
    have front : lq.queue.data ((a + i) % m) = l[i] := by
      have slot := holds.window 0 (by rw [List.length_drop]; omega)
      rw [List.get_eq_getElem, List.getElem_drop] at slot
      exact slot
    refine ⟨(lq', received (l.take (i + 1)) recvData), ?_, holds', rfl⟩
    rw [List.take_add_one, List.getElem?_eq_getElem more, Option.toList_some, received_concat]
    simp only [getRound, holds.callGetOneDataFunc_eq (ready.received _) i, ok_bind, stepped, front]
    rfl
  obtain ⟨⟨lq', recvData'⟩, done, holds, rfl⟩ := rounds
  exact ⟨lq', done, holds⟩

/-- A loop that only calls the get handler, which sees the same slot every time. -/
theorem loop_inspect {recvData : Option (Buffer α)} (h : Holds m a lq l) (room : Room recvData)
    (k : ℕ) :
    forLoop (fun i recvData => callGetOneDataFunc lq recvData i) k recvData =
      .ok (received (List.replicate k (lq.queue.data (a % m))) recvData) := by
  induction k with
  | zero => simp [forLoop]
  | succ k ih =>
    rw [forLoop, ih]
    dsimp only
    rw [h.callGetOneDataFunc_eq (room.received _), List.replicate_succ', received_concat]

/-- A loop that adds `k` copies. -/
theorem loop_append {k : ℕ} {newData : Buffer α} (h : Holds m a lq l)
    (one : 0 < k → 0 < newData.size) (room : l.length + k < m) :
    ∃ lq', forLoop (addRound newData) k lq = .ok lq' ∧
      Holds m a lq' (l ++ List.replicate k (newData.data 0)) := by
  refine forLoop_of_invariant
    (fun i lq => Holds m a lq (l ++ List.replicate i (newData.data 0))) (by simpa using h) ?_
  intro i lq hi holds
  obtain ⟨lq', done, holds'⟩ := holds.append (one (by omega)) (by simp; omega)
  refine ⟨lq', done, ?_⟩
  rw [List.replicate_succ', ← List.append_assoc]
  exact holds'

/-- A loop that forces `k` copies in. -/
theorem loop_force {k : ℕ} {newData : Buffer α} (h : Holds m a lq l)
    (one : 0 < k → 0 < newData.size) :
    ∃ lq', forLoop (forceAddRound newData) k lq = .ok lq' ∧
      ∃ a', Holds m a' lq' ((push (m - 1) (newData.data 0))^[k] l) := by
  refine forLoop_of_invariant
    (fun i lq => ∃ a', Holds m a' lq ((push (m - 1) (newData.data 0))^[i] l)) ⟨a, h⟩ ?_
  rintro i lq hi ⟨a', holds⟩
  obtain ⟨a'', lq', done, holds'⟩ := holds.force (one (by omega))
  refine ⟨lq', done, a'', ?_⟩
  rw [Function.iterate_succ_apply']
  exact holds'

/-! ### Calls -/

theorem addOne (h : Holds m a lq l) {newData : Buffer α} (one : 0 < newData.size) :
    ∃ lq', loopQueueAddOne lq newData = .ok (lq', if l.length < m - 1 then 1 else 0) ∧
      Holds m a lq' (if l.length < m - 1 then l ++ [newData.data 0] else l) := by
  have room := h.room
  unfold loopQueueAddOne
  rw [h.isFull_eq, ok_bind]
  by_cases full : l.length + 1 = m
  · rw [if_pos full, if_neg (by simp), if_neg (by omega), if_neg (by omega)]
    exact ⟨lq, rfl, h⟩
  · obtain ⟨lq', done, holds⟩ := h.append one (by omega)
    rw [if_neg full, if_pos (by simp), if_pos (by omega), if_pos (by omega)]
    refine ⟨lq', ?_, holds⟩
    rw [← bind_assoc, done]
    rfl

theorem forceAddOne (h : Holds m a lq l) {newData : Buffer α} (one : 0 < newData.size) :
    ∃ a' lq', loopQueueForceAddOne lq newData = .ok (lq', 1) ∧
      Holds m a' lq' (push (m - 1) (newData.data 0) l) := by
  obtain ⟨a', lq', done, holds⟩ := h.force one
  refine ⟨a', lq', ?_, holds⟩
  unfold loopQueueForceAddOne
  rw [← bind_assoc, done]
  rfl

theorem addMulti (h : Holds m a lq l) {newData : Buffer α} {multi : ℤ} (count : 0 ≤ multi)
    (one : 0 < multi → 0 < newData.size) :
    ∃ lq', loopQueueAddMulti lq newData multi = .ok (lq', min multi ((m - 1 : ℕ) - l.length)) ∧
      Holds m a lq' (l ++ List.replicate (min multi ((m - 1 : ℕ) - l.length)).toNat
        (newData.data 0)) := by
  have room := h.room
  -- the idle length in integers and in natural numbers
  have cap : ((m - 1 : ℕ) : ℤ) - l.length = (m : ℤ) - 1 - l.length := by omega
  rw [cap]
  have least : 0 ≤ min multi ((m : ℤ) - 1 - l.length) := le_min count (by omega)
  have bound := min_le_right multi ((m : ℤ) - 1 - l.length)
  have asked := min_le_left multi ((m : ℤ) - 1 - l.length)
  obtain ⟨lq', done, holds⟩ := h.loop_append (k := (min multi ((m : ℤ) - 1 - l.length)).toNat)
    (fun some => one (by omega)) (by omega)
  refine ⟨lq', ?_, holds⟩
  simp only [loopQueueAddMulti, h.idleLength_eq, ok_bind, clamp_eq, done]
  rfl

theorem forceAddMulti (h : Holds m a lq l) {newData : Buffer α} {multi : ℤ}
    (one : 0 < multi → 0 < newData.size) :
    ∃ a' lq', loopQueueForceAddMulti lq newData multi = .ok (lq', multi) ∧
      Holds m a' lq' ((push (m - 1) (newData.data 0))^[multi.toNat] l) := by
  obtain ⟨lq', done, a', holds⟩ := h.loop_force (k := multi.toNat) fun some => one (by omega)
  refine ⟨a', lq', ?_, holds⟩
  simp only [loopQueueForceAddMulti, done, ok_bind]
  rfl

theorem getMulti (h : Holds m a lq l) {recvData : Option (Buffer α)} {recvSize : ℤ}
    (count : 0 ≤ recvSize) (room : 0 < min recvSize l.length → Room recvData) :
    ∃ lq', loopQueueGetMulti lq recvData recvSize =
        .ok (lq', received (l.take (min recvSize l.length).toNat) recvData,
          min recvSize l.length) ∧
      Holds m (a + (min recvSize l.length).toNat) lq' (l.drop (min recvSize l.length).toNat) := by
  have least : 0 ≤ min recvSize (l.length : ℤ) := le_min count (by omega)
  have bound := min_le_right recvSize (l.length : ℤ)
  obtain ⟨lq', done, holds⟩ :=
    h.loop_get (k := (min recvSize (l.length : ℤ)).toNat) (by omega) fun some => room (by omega)
  exact ⟨lq', getMulti_eq h.useLength_eq done, holds⟩

theorem inspectMulti (h : Holds m a lq l) {recvData : Option (Buffer α)} (room : Room recvData)
    (recvSize : ℤ) :
    loopQueueInspectMulti lq recvData recvSize =
      .ok (lq, received (List.replicate (min recvSize l.length).toNat (lq.queue.data (a % m)))
        recvData, min recvSize l.length) :=
  inspectMulti_eq h.useLength_eq (h.loop_inspect room _)

theorem inspectDelete (h : Holds m a lq l) {multi : ℤ} (high : multi ≤ l.length) :
    ∃ lq', loopQueueInspectDelete lq multi = .ok (lq', multi) ∧
      Holds m (a + multi.toNat) lq' (l.drop multi.toNat) := by
  obtain ⟨lq', done, holds⟩ := h.loop_drop (k := multi.toNat) (by omega)
  refine ⟨lq', ?_, holds⟩
  simp only [loopQueueInspectDelete, done, ok_bind]
  rfl

/-- Every allowed call completes, returns the count of the bounded queue and stores its
list. -/
theorem exec {op : Op α} (h : Holds m a lq l) (allowed : op.Allowed l.length) :
    ∃ a' lq', op.exec lq = .ok (lq', (fifoStep (m - 1) l op).2) ∧
      Holds m a' lq' (fifoStep (m - 1) l op).1 := by
  cases op with
  | addOne newData =>
    obtain ⟨lq', done, holds⟩ := h.addOne allowed
    simp only [Op.exec, fifoStep, done]
    by_cases less : l.length < m - 1
    · simp only [if_pos less] at holds ⊢
      exact ⟨a, lq', rfl, holds⟩
    · simp only [if_neg less] at holds ⊢
      exact ⟨a, lq', rfl, holds⟩
  | forceAddOne newData => exact h.forceAddOne allowed
  | addMulti newData multi => exact ⟨a, h.addMulti allowed.2.1 fun _ => allowed.1⟩
  | forceAddMulti newData multi => exact h.forceAddMulti fun _ => allowed.1
  | getOne recvData =>
    simp only [Op.exec, loopQueueGetOne, h.isEmpty_eq, fifoStep]
    cases l with
    | nil => exact ⟨a, lq, rfl, h⟩
    | cons x l =>
      obtain ⟨lq', done, holds⟩ := h.step
      rw [if_neg (by simp), done]
      refine ⟨a + 1, lq', ?_, holds⟩
      have one : min 1 ((x :: l).length : ℤ) = 1 := min_eq_left (by simp)
      rw [one]
      rfl
  | getMulti recvData recvSize =>
    obtain ⟨lq', done, holds⟩ := h.getMulti allowed.2.1 fun _ => allowed.1
    refine ⟨_, lq', ?_, holds⟩
    rw [Op.exec, done]
    rfl
  | inspectMulti recvData recvSize =>
    refine ⟨a, lq, ?_, h⟩
    rw [Op.exec, h.inspectMulti allowed.1]
    rfl
  | inspectDelete multi => exact ⟨_, h.inspectDelete allowed.2⟩
  | deleteMulti multi =>
    have least : 0 ≤ min multi (l.length : ℤ) := le_min allowed.1 (by omega)
    have bound := min_le_right multi (l.length : ℤ)
    obtain ⟨lq', done, holds⟩ := h.loop_drop (k := (min multi (l.length : ℤ)).toNat) (by omega)
    simp only [Op.exec, loopQueueDeleteMulti, h.useLength_eq, ok_bind, clamp_eq, done, fifoStep]
    exact ⟨_, lq', rfl, holds⟩
  | deleteAll =>
    refine ⟨a + l.length, _, rfl, ?_⟩
    exact {
      max := h.max
      large := h.large
      room := h.pos
      head := h.end_
      end_ := h.end_
      size := h.size
      window := Window.nil _ _ _
      add := h.add
      get := h.get }

theorem allowed_iff (h : Holds m a lq l) (op : Op α) :
    (machine α).Allowed lq op ↔ op.Allowed l.length := by
  constructor
  · rintro ⟨use, known, allowed⟩
    have length : (l.length : ℤ) = use := Except.ok.inj (h.useLength_eq.symm.trans known)
    rwa [length]
  · intro allowed
    exact ⟨l.length, h.useLength_eq, allowed⟩

end Holds

/-! ### Runs -/

/-- A fresh queue over a buffer of `max` elements is empty. -/
theorem loopQueueInit_holds {max : ℤ} {queue : Buffer α} (low : 1 ≤ max) (high : max ≤ lqSizeMax)
    (size : (queue.size : ℤ) = max) (lq : Lq α) (userData : ℕ) :
    Holds queue.size 0 (loopQueueInit lq max queue none none userData) [] where
  max := size.symm
  large := size.trans_le high
  room := by
    rw [List.length_nil]
    omega
  head := by simp [loopQueueInit]
  end_ := by simp [loopQueueInit]
  size := rfl
  window := Window.nil _ _ _
  add := rfl
  get := rfl

/-- Every reachable queue with the default handlers stores some list. -/
theorem Reached.holds (reached : Reached none none lq) : ∃ m a l, Holds m a lq l := by
  obtain ⟨lq₀, max, queue, userData, ops, results, low, high, size, adm, done⟩ := reached
  have step : ∀ lq op, (∃ a l, Holds queue.size a lq l) → (machine α).Allowed lq op →
      ∃ lq' r, (machine α).step lq op = .ok (lq', r) ∧ ∃ a l, Holds queue.size a lq' l := by
    rintro lq op ⟨a, l, holds⟩ accepted
    obtain ⟨a', lq', taken, holds'⟩ := holds.exec ((holds.allowed_iff op).mp accepted)
    exact ⟨lq', _, taken, a', _, holds'⟩
  obtain ⟨lq', results', done', a, l, holds⟩ := Machine.exists_run_of_invariant step
    ⟨0, [], loopQueueInit_holds low high size lq₀ userData⟩ adm
  cases done.symm.trans done'
  exact ⟨queue.size, a, l, holds⟩

/-- Every admissible run from `loopQueueInit` completes, returns the counts of the
bounded queue of capacity `max - 1`, and stores its list from `head` up to `end`. The
indices stay in range, and the macros report the state of the list. -/
theorem loopQueue_refines_fifo {max : ℤ} {queue : Buffer α} {ops : List (Op α)} (low : 1 ≤ max)
    (high : max ≤ lqSizeMax) (size : (queue.size : ℤ) = max) (lq₀ : Lq α) (userData : ℕ)
    (adm : (machine α).Admissible (loopQueueInit lq₀ max queue none none userData) ops) :
    ∃ lq l results,
      (machine α).run (loopQueueInit lq₀ max queue none none userData) ops = .ok (lq, results) ∧
      (fifo α (max - 1).toNat).run [] ops = .ok (l, results) ∧
      contents lq.toRing = l ∧
      0 ≤ lq.head ∧ lq.head < max ∧ 0 ≤ lq.end_ ∧ lq.end_ < max ∧ lq.max = max ∧
      ∃ use idle state, loopQueueGetUseLength lq.toRing = .ok use ∧
        loopQueueGetIdleLength lq.toRing = .ok idle ∧ loopQueueIsFull lq.toRing = .ok state ∧
        use = l.length ∧ use + idle = max - 1 ∧
        (loopQueueIsEmpty lq.toRing = .empty ↔ use = 0) ∧ (state = .full ↔ idle = 0) := by
  have cap : (max - 1).toNat = queue.size - 1 := by omega
  have simulation := Machine.run_eq_of_bisimulation (N := fifo α (max - 1).toNat)
    (R := fun lq l => ∃ a, Holds queue.size a lq l) ?step
    ⟨0, loopQueueInit_holds low high size lq₀ userData⟩ adm
  · obtain ⟨-, lq, l, results, done, done', a, holds⟩ := simulation
    have headBounds := holds.head_bounds
    have endBounds := holds.end_bounds
    have room := holds.room
    refine ⟨lq, l, results, done, done', holds.contents_eq, headBounds.1, size ▸ headBounds.2,
      endBounds.1, size ▸ endBounds.2, holds.max.trans size, _, _, _, holds.useLength_eq,
      holds.idleLength_eq, holds.isFull_eq, rfl, by omega, ?_, ?_⟩
    · rw [holds.isEmpty_eq]
      by_cases none : l.length = 0
      · simp [none]
      · simp [none]
    · by_cases full : l.length + 1 = queue.size
      · rw [if_pos full]
        exact ⟨fun _ => by omega, fun _ => rfl⟩
      · rw [if_neg full]
        exact ⟨fun wrong => by simp at wrong, fun wrong => by omega⟩
  -- one call on both sides, with the same counts
  case step =>
    rintro lq l op ⟨a, holds⟩ accepted
    have allowed := (holds.allowed_iff op).mp accepted
    obtain ⟨a', lq', done, holds'⟩ := holds.exec allowed
    rw [← cap] at done holds'
    exact ⟨allowed, lq', _, _, done, rfl, a', holds'⟩

/-- A queue that `loopQueueInit` has not seen yet. -/
def blankLq : Lq ℕ := ⟨⟨0, 0, 0, ⟨0, fun _ => 0⟩⟩, none, none, 0⟩

/-- Fill a queue of three slots, overrun it and read it. -/
def threeOps : List (Op ℕ) :=
  [.addOne ⟨1, fun _ => 7⟩, .forceAddMulti ⟨1, fun _ => 8⟩ 2, .inspectMulti none 1,
    .inspectDelete 1]

theorem loopQueue_refines_fifo_three : ∃ lq l results,
    (machine ℕ).run (loopQueueInit blankLq 3 ⟨3, fun _ => 0⟩ none none 0) threeOps =
      .ok (lq, results) ∧
    (fifo ℕ 2).run [] threeOps = .ok (l, results) ∧ contents lq.toRing = l := by
  have adm : (machine ℕ).Admissible (loopQueueInit blankLq 3 ⟨3, fun _ => 0⟩ none none 0)
      threeOps := by
    decide +kernel
  obtain ⟨lq, l, results, done, done', stored, -⟩ :=
    loopQueue_refines_fifo (by decide) (by decide) (by rfl) blankLq 0 adm
  exact ⟨lq, l, results, done, done', stored⟩

/-- A queue of three slots in which `7` and `8` are stored. -/
def pairLq : Lq ℕ where
  head := 0
  end_ := 2
  max := 3
  queue := ⟨3, Function.update (Function.update (fun _ => 0) 0 7) 1 8⟩
  addOneDataFunc := some defaultAddOneDataFunc
  getOneDataFunc := some defaultAeduceOneDataFunc
  userData := 0

theorem pairLq_reached : Reached none none pairLq :=
  ⟨blankLq, 3, ⟨3, fun _ => 0⟩, 0, [.addOne ⟨1, fun _ => 7⟩, .addOne ⟨1, fun _ => 8⟩], [1, 1],
    by decide, by decide, rfl, by decide +kernel, rfl⟩

theorem pairLq_contents : contents pairLq.toRing = [7, 8] := by decide

end Components.LoopQueue
