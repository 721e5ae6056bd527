import Components.LoopQueue.Fifo

/-!
# What a read hands over

A read of a ring with the default handlers removes the oldest elements and returns
their number. Whether the elements also arrive in `recvData` is another matter.
`loopQueueGetOne` never calls the get handler, and the default handler stores every
element in `recvData[0]`, whatever the index it is given. So `recvData` ends up as it
should only if it already was nearly so.

## Main definitions

* `Buffer.fill` — a buffer whose first places hold the elements of a list
* `GetOneDelivers`, `GetMultiDelivers` — a read hands over what it removes

## Main results

* `foldl_store_eq_fill_iff` — when storing a list in one place fills the buffer with it
* `reads_deliver_iff` — when the two reads deliver
-/

namespace Components.LoopQueue

variable {α : Type} {lq : Lq α} {l : List α} {m a : ℕ}

/-- The buffer with the elements of the list in its first places. -/
def Buffer.fill (buffer : Buffer α) (l : List α) : Buffer α :=
  { buffer with data := fun i => l[i]?.getD (buffer.data i) }

/-- `loopQueueGetOne` removes the oldest element, stores it in `recvData[0]` and returns
`1`. -/
def GetOneDelivers (lq : Lq α) (arrRecv : Buffer α) : Prop :=
  ∃ x l lq' arrRecv', contents lq.toRing = x :: l ∧
    loopQueueGetOne lq (some arrRecv) = .ok (lq', some arrRecv', 1) ∧
    contents lq'.toRing = l ∧ arrRecv'.data 0 = x

/-- `loopQueueGetMulti` removes the `k` oldest elements, `n` or as many as there are,
stores them in `recvData[0]`, ..., `recvData[k - 1]` and nowhere else, and returns `k`. -/
def GetMultiDelivers (lq : Lq α) (arrRecv : Buffer α) (n : ℕ) : Prop :=
  ∃ k lq', k = min n (contents lq.toRing).length ∧
    loopQueueGetMulti lq (some arrRecv) n =
      .ok (lq', some (arrRecv.fill ((contents lq.toRing).take k)), k) ∧
    contents lq'.toRing = (contents lq.toRing).drop k

/-! ### Storing a list in one place -/

@[simp] theorem Buffer.store_store (buffer : Buffer α) (x y : α) :
    (buffer.store x).store y = buffer.store y := by
  simp [Buffer.store]

/-- Only the last element survives. -/
theorem foldl_store_concat (buffer : Buffer α) (l : List α) (x : α) :
    (l ++ [x]).foldl Buffer.store buffer = buffer.store x := by
  induction l generalizing buffer with
  | nil => rfl
  | cons y l ih => rw [List.cons_append, List.foldl_cons, ih, Buffer.store_store]

theorem foldl_store_take {k : ℕ} (more : k < l.length) (buffer : Buffer α) :
    (l.take (k + 1)).foldl Buffer.store buffer = buffer.store l[k] := by
  rw [List.take_add_one, List.getElem?_eq_getElem more, Option.toList_some, foldl_store_concat]

theorem store_eq_fill_iff {buffer : Buffer α} {x : α} :
    buffer.store x = buffer.fill l ↔
      l[0]?.getD (buffer.data 0) = x ∧ ∀ i, 0 < i → l[i]?.getD (buffer.data i) = buffer.data i := by
  have fields : buffer.store x = buffer.fill l ↔
      Function.update buffer.data 0 x = fun i => l[i]?.getD (buffer.data i) := by
    simp [Buffer.store, Buffer.fill]
  rw [fields, Function.update_eq_iff]
  refine and_congr eq_comm (forall_congr' fun i => ?_)
  rw [Nat.pos_iff_ne_zero, eq_comm (a := buffer.data i)]

/-- Storing the first `k` elements of a list in one place fills the buffer with them
exactly if the last of them is also the first and the others were there before. -/
theorem foldl_store_eq_fill_iff {k : ℕ} (enough : k ≤ l.length) (buffer : Buffer α) :
    (l.take k).foldl Buffer.store buffer = buffer.fill (l.take k) ↔
      l[k - 1]? = l[0]? ∧ ∀ i, 0 < i → i < k → l[i]? = some (buffer.data i) := by
  cases k with
  | zero => simp [Buffer.fill]
  | succ k =>
    have last : l[k]? = some l[k] := List.getElem?_eq_getElem (by omega)
    have first : l[0]? = some l[0] := List.getElem?_eq_getElem (by omega)
    rw [foldl_store_take enough, store_eq_fill_iff]
    refine and_congr ?_ (forall_congr' fun i => forall_congr' fun pos => ?_)
    · rw [Nat.add_sub_cancel, List.getElem?_take_of_lt (Nat.succ_pos k), first, last]
      simp [eq_comm]
    · by_cases less : i < k + 1
      · have inside : l[i]? = some l[i] := List.getElem?_eq_getElem (by omega)
        rw [List.getElem?_take_of_lt less, inside]
        simp [less]
      · simp [less]

/-! ### The two reads -/

namespace Holds

theorem getOne_delivers_iff {x : α} (h : Holds m a lq (x :: l)) (arrRecv : Buffer α) :
    GetOneDelivers lq arrRecv ↔ arrRecv.data 0 = x := by
  obtain ⟨lq', stepped, holds⟩ := h.step
  have got : loopQueueGetOne lq (some arrRecv) = .ok (lq', some arrRecv, 1) := by
    rw [loopQueueGetOne, h.isEmpty_eq, if_neg (by simp), stepped]
    rfl
  unfold GetOneDelivers
  rw [h.contents_eq, got]
  constructor
  · rintro ⟨x, l, lq', arrRecv', stored, result, -, delivered⟩
    cases stored
    cases result
    exact delivered
  · intro already
    exact ⟨x, l, lq', arrRecv, rfl, rfl, holds.contents_eq, already⟩

theorem getMulti_delivers_iff (h : Holds m a lq l) {arrRecv : Buffer α} {n : ℕ}
    (room : min n l.length ≤ arrRecv.size) :
    GetMultiDelivers lq arrRecv n ↔
      l[min n l.length - 1]? = l[0]? ∧
        ∀ i, 0 < i → i < min n l.length → l[i]? = some (arrRecv.data i) := by
  have cast : min (n : ℤ) (l.length : ℤ) = (min n l.length : ℕ) := by omega
  have ready : 0 < min (n : ℤ) l.length → Room (some arrRecv) := by
    intro pos arrRecv' mem
    cases mem
    omega
  obtain ⟨lq', got, holds⟩ := h.getMulti (Int.natCast_nonneg n) ready
  rw [cast, Int.toNat_natCast] at got holds
  rw [← foldl_store_eq_fill_iff (min_le_right n l.length)]
  unfold GetMultiDelivers
  rw [h.contents_eq, got]
  constructor
  · rintro ⟨k, lq', rfl, result, -⟩
    simp only [received, Option.map_some, Except.ok.injEq, Prod.mk.injEq, Option.some.injEq]
      at result
    exact result.2.1
  · intro filled
    refine ⟨_, lq', rfl, ?_, holds.contents_eq⟩
    rw [received, Option.map_some, filled]

end Holds

/-- Reads deliver exactly into buffers that hold nearly everything already.
`loopQueueGetOne` on a non-empty queue leaves the oldest element in `recvData[0]` if
and only if it was there before. `loopQueueGetMulti`, which removes `k` elements, stores
them as it should if and only if the last of them equals the first and `recvData`
already held the ones from the second on; for `k ≤ 1` that is no condition. -/
theorem reads_deliver_iff (reached : Reached none none lq) (arrRecv : Buffer α) :
    (∀ x l, contents lq.toRing = x :: l → (GetOneDelivers lq arrRecv ↔ arrRecv.data 0 = x)) ∧
    ∀ n k : ℕ, k = min n (contents lq.toRing).length → k ≤ arrRecv.size →
      (GetMultiDelivers lq arrRecv n ↔
        (contents lq.toRing)[k - 1]? = (contents lq.toRing)[0]? ∧
          ∀ i, 0 < i → i < k → (contents lq.toRing)[i]? = some (arrRecv.data i)) := by
  obtain ⟨m, a, l, holds⟩ := reached.holds
  rw [holds.contents_eq]
  constructor
  · rintro x l rfl
    exact holds.getOne_delivers_iff arrRecv
  · rintro n k rfl room
    exact holds.getMulti_delivers_iff room

theorem reads_deliver_iff_pair :
    ¬ GetOneDelivers pairLq ⟨1, fun _ => 0⟩ ∧ GetMultiDelivers pairLq ⟨1, fun _ => 0⟩ 1 := by
  obtain ⟨one, multi⟩ := reads_deliver_iff pairLq_reached ⟨1, fun _ => 0⟩
  constructor
  · rw [one 7 [8] pairLq_contents]
    decide
  · rw [multi 1 1 (by rw [pairLq_contents]; rfl) le_rfl, pairLq_contents]
    exact ⟨rfl, fun i pos less => by omega⟩

/-- Neither read delivers `7` and `8` to a buffer of zeros. -/
theorem reads_deliver_fails_pair : Reached none none pairLq ∧ contents pairLq.toRing = [7, 8] ∧
    ¬ GetOneDelivers pairLq ⟨2, fun _ => 0⟩ ∧ ¬ GetMultiDelivers pairLq ⟨2, fun _ => 0⟩ 2 := by
  obtain ⟨m, a, l, holds⟩ := pairLq_reached.holds
  obtain rfl : l = [7, 8] := holds.contents_eq.symm.trans pairLq_contents
  refine ⟨pairLq_reached, pairLq_contents, ?_, ?_⟩
  · rw [holds.getOne_delivers_iff]
    decide
  · rw [holds.getMulti_delivers_iff (by simp)]
    rintro ⟨wrong, -⟩
    simp at wrong

end Components.LoopQueue
