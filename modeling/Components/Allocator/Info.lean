import Components.Allocator.Configuration
import Components.Allocator.Stats

/-!
# `heap_info`

`heap_info` prints the record of a heap, the two headers at the ends of its free list and
the statistics. It follows `xStart.pxNextFreeBlock` and `pxEnd` without a test, and both are
`NULL` until the first `PortMalloc` or `name_reinit`; `vPortGetHeapStats`, which it calls
afterwards, does test.

The model of it also returns the pointers it has followed. Memory is flat, so a read through
`NULL` returns, and shows as a `0` among these pointers. Every sequence of calls on a heap
that was configured and not used before leaves it safe to call `heap_info` exactly when a
call of the sequence has initialised the heap and the array has room for a header.

## Main definitions

* `heapInfo` — what is printed, and the pointers that are followed for it
* `InfoSafe` — every one of them points to a header in the array
* `InfoCall`, `infoMachine` — clients that also call `heap_info`
* `Unused` — a heap after `heap_cfg`

## Main results

* `heapInfo_stats` — the statistics are those of `vPortGetHeapStats`
* `exec_record` — what a call can change in the record, from any state
* `session_infoSafe_iff` — when `heap_info` is safe
-/

namespace Components.Allocator

open Word

/-- `*p`. -/
def State.header (s : State) (p : ℕ) : BlockLink := ⟨s.next p, s.size p⟩

/-- What `heap_info` prints. -/
structure HeapInfo where
  heap : ℕ
  namep : Option String
  ucHeap : ℕ
  configTotalHeapSize : ℕ
  xHeapStructSize : ℕ
  /-- `ucHeap + configTOTAL_HEAP_SIZE`. -/
  arrayEnd : ℕ
  xStartAddr : ℕ
  xStart : BlockLink
  /-- The header that `xStart.pxNextFreeBlock` points to. -/
  firstFreeBlock : BlockLink
  pxEnd : ℕ
  /-- The header that `pxEnd` points to. -/
  lastBlock : BlockLink
  stats : HeapStats
  deriving DecidableEq, Repr

/-- One round of `vPortGetHeapStats`, which notes the block it reads. -/
def tracedRound (s : State) (v : ℕ × Tally × List ℕ) : ℕ × Tally × List ℕ :=
  (s.next v.1, v.2.1.add (s.size v.1), v.2.2 ++ [v.1])

/-- `vPortGetHeapStats` with the blocks it reads, in order. -/
def tracedHeapStats (s : State) : Except Fault (HeapStats × List ℕ) := do
  let pxBlock := s.next s.xStartAddr
  if pxBlock ≠ 0 then
    let v ← loop (fun v => v.1 ≠ s.heap.pxEnd) (tracedRound s) (pxBlock, .start, [])
    return (heapStats s v.2.1, v.2.2)
  else return (heapStats s .start, [])

/-- `heap_info`, with the `BlockLink_t` pointers it dereferences, in order. -/
def heapInfo (s : State) : Except Fault (HeapInfo × List ℕ) := do
  let pxFirstFreeBlock := s.heap.xStart.pxNextFreeBlock
  -- the ends of the list are read before the statistics are taken
  let (stats, followed) ← tracedHeapStats s
  let info := {
    heap := s.heap.heap
    namep := s.heap.namep
    ucHeap := s.heap.ucHeap
    configTotalHeapSize := s.heap.configTotalHeapSize
    xHeapStructSize := xHeapStructSize
    arrayEnd := wadd s.heap.ucHeap s.heap.configTotalHeapSize
    xStartAddr := s.xStartAddr
    xStart := s.heap.xStart
    firstFreeBlock := s.header pxFirstFreeBlock
    pxEnd := s.heap.pxEnd
    lastBlock := s.header s.heap.pxEnd
    stats := stats }
  -- each header is read twice, for its size and for its link
  return (info, [pxFirstFreeBlock, pxFirstFreeBlock, s.heap.pxEnd, s.heap.pxEnd] ++ followed)

/-- `heap_info` returns, and every pointer it dereferences is the address of a header in the
array. -/
def InfoSafe (s : State) : Prop :=
  ∃ info pointers, heapInfo s = .ok (info, pointers) ∧
    ∀ p ∈ pointers, p ≠ 0 ∧ HeaderInArray s.heap p

/-- The calls after which a heap is initialised. -/
def Op.Initialises : Op → Prop
  | malloc _ | reinit => True
  | free _ | write _ _ => False

instance : DecidablePred Op.Initialises
  | .malloc _ | .reinit => isTrue trivial
  | .free _ | .write _ _ => isFalse id

/-- A client that also asks for information. -/
inductive InfoCall
  | client (op : Op)
  | heapInfo
  deriving DecidableEq, Repr

/-- The calls of the client are those of a session, and `heap_info` changes nothing. -/
def infoMachine (ndebug : Bool) : Machine Session InfoCall ℕ Fault where
  step t
    | .client op => t.step ndebug op
    | .heapInfo => do
      let _ ← heapInfo t.state
      return (t, 0)
  Allowed t
    | .client op => op.Allowed t.live
    | .heapInfo => True

instance (ndebug : Bool) (t : Session) (call : InfoCall) :
    Decidable ((infoMachine ndebug).Allowed t call) :=
  match call with
  | .client op => inferInstanceAs (Decidable (op.Allowed t.live))
  | .heapInfo => inferInstanceAs (Decidable True)

def InfoCall.Initialises : InfoCall → Prop
  | client op => op.Initialises
  | heapInfo => False

instance : DecidablePred InfoCall.Initialises
  | .client op => inferInstanceAs (Decidable op.Initialises)
  | .heapInfo => isFalse id

/-- An array that is an object, and its record in static storage after `heap_cfg`. -/
structure Unused (s : State) : Prop extends Accepted s where
  array : s.heap.ucHeap ≠ 0
  xStart : s.heap.xStart.pxNextFreeBlock = 0
  pxEnd : s.heap.pxEnd = 0

variable {r : Region} {s s₀ s' : State} {free live : List Block} {op : Op} {call : InfoCall}
  {calls : List InfoCall} {ndebug : Bool} {t t' : Session} {result p n : ℕ} {results : List ℕ}

/-! ### The statistics -/

/-- Noting the blocks changes nothing in the statistics. -/
theorem tracedHeapStats_fst (s : State) :
    (tracedHeapStats s).map Prod.fst = vPortGetHeapStats s := by
  have round : ∀ v, ((tracedRound s v).1, (tracedRound s v).2.1) = statsRound s (v.1, v.2.1) :=
    fun _ => rfl
  have walk := whileLoop_map (fun v : ℕ × Tally × List ℕ => (v.1, v.2.1))
    (fun v => decide (v.1 ≠ s.heap.pxEnd)) round (2 ^ 32) (s.next s.xStartAddr, .start, [])
  unfold tracedHeapStats vPortGetHeapStats
  dsimp only
  split_ifs
  · unfold loop
    dsimp only at walk
    rw [← walk]
    cases whileLoop (fun v : ℕ × Tally × List ℕ => decide (v.1 ≠ s.heap.pxEnd)) (tracedRound s)
        (2 ^ 32) (s.next s.xStartAddr, .start, []) with
    | none => rfl
    | some v => rfl
  · rfl

/-- So the statistics that `heap_info` prints are those of `vPortGetHeapStats`. -/
theorem heapInfo_stats (s : State) :
    (heapInfo s).map (fun printed => printed.1.stats) = vPortGetHeapStats s := by
  rw [← tracedHeapStats_fst]
  unfold heapInfo
  cases tracedHeapStats s with
  | error fault => rfl
  | ok stats => rfl

/-- `heap_info` follows `pxEnd`, so it is not safe unless that points into the array. -/
theorem InfoSafe.pxEnd (h : InfoSafe s) :
    s.heap.pxEnd ≠ 0 ∧ HeaderInArray s.heap s.heap.pxEnd := by
  obtain ⟨info, pointers, done, safe⟩ := h
  obtain ⟨⟨stats, followed⟩, -, done⟩ := bind_eq_ok done
  cases done
  exact safe _ (by simp)

/-- A chain of headers in the array, from `xStart` to `pxEnd`. -/
structure Chained (s : State) (starts : List ℕ) : Prop where
  first : (starts ++ [s.heap.pxEnd]).head? = some s.heap.xStart.pxNextFreeBlock
  linked : Linked s.next (starts ++ [s.heap.pxEnd])
  inner : ∀ p ∈ starts, p ≠ s.heap.pxEnd
  short : starts.length < 2 ^ 32
  inside : ∀ p ∈ starts ++ [s.heap.pxEnd], HeaderInArray s.heap p

theorem foldl_traced (s : State) (starts seen : List ℕ) (v : Tally) :
    (starts.foldl (fun (v : Tally × List ℕ) p => (v.1.add (s.size p), v.2 ++ [p])) (v, seen)).2 =
      seen ++ starts := by
  induction starts generalizing v seen with
  | nil => simp
  | cons p starts ih =>
    rw [List.foldl_cons, ih]
    simp

namespace Chained

variable {starts : List ℕ}

theorem first_mem (h : Chained s starts) :
    s.heap.xStart.pxNextFreeBlock ∈ starts ++ [s.heap.pxEnd] :=
  List.mem_of_mem_head? h.first

/-- The statistics follow the nodes of the chain. -/
theorem tracedHeapStats_eq (h : Chained s starts) (array : s.heap.ucHeap ≠ 0) :
    ∃ stats, tracedHeapStats s = .ok (stats, starts) := by
  have record : s.next s.xStartAddr = s.heap.xStart.pxNextFreeBlock := if_pos rfl
  have low := (h.inside _ h.first_mem).1
  have ne : s.heap.xStart.pxNextFreeBlock ≠ 0 := by omega
  have onward : ∀ p ∈ starts, decide (p ≠ s.heap.pxEnd) = true := fun p hp =>
    decide_eq_true (h.inner p hp)
  have walk := whileLoop_linked_fold
    (f := fun (v : Tally × List ℕ) p => (v.1.add (s.size p), v.2 ++ [p])) (b := (.start, []))
    h.linked h.first onward (by simp) h.short
  have traced := foldl_traced s starts [] .start
  generalize starts.foldl (fun (v : Tally × List ℕ) p => (v.1.add (s.size p), v.2 ++ [p]))
    (Tally.start, []) = final at walk traced
  have done : loop (fun v => v.1 ≠ s.heap.pxEnd) (tracedRound s)
      (s.heap.xStart.pxNextFreeBlock, .start, []) = .ok (s.heap.pxEnd, final) :=
    loop_of_whileLoop walk
  refine ⟨heapStats s final.1, ?_⟩
  unfold tracedHeapStats
  rw [record, if_pos ne, done]
  change Except.ok (heapStats s final.1, final.2) = _
  rw [traced, List.nil_append]

/-- `heap_info` is safe on a chain of headers in an array that is an object. -/
theorem infoSafe (h : Chained s starts) (array : s.heap.ucHeap ≠ 0) : InfoSafe s := by
  obtain ⟨stats, done⟩ := h.tracedHeapStats_eq array
  have node : ∀ p ∈ starts ++ [s.heap.pxEnd], p ≠ 0 ∧ HeaderInArray s.heap p := by
    intro p hp
    have inside := h.inside p hp
    have low := inside.1
    exact ⟨by omega, inside⟩
  unfold InfoSafe heapInfo
  rw [done]
  refine ⟨_, _, rfl, fun p hp => node p ?_⟩
  simp only [List.cons_append, List.nil_append, List.mem_cons] at hp
  rcases hp with rfl | rfl | rfl | rfl | hp
  · exact h.first_mem
  · exact h.first_mem
  · simp
  · simp
  · exact List.mem_append_left _ hp

end Chained

/-! ### Heaps that are initialised -/

/-- The free list of a represented heap is a chain. -/
theorem Represents.chained (h : Represents r s free live) : Chained s (free.map Block.start) where
  first := by
    have all : Represents r s ([] ++ free) live := h
    have record : s.next s.xStartAddr = s.heap.xStart.pxNextFreeBlock := if_pos rfl
    have next : s.next s.xStartAddr = firstNode r free := h.xStartAddr ▸ all.next_lastNode
    rw [← record, next, h.pxEnd, firstNode]
    cases free with
    | nil => rfl
    | cons b free => rfl
  linked := by
    rw [h.pxEnd]
    exact h.linked.tail
  inner := by
    intro p hp
    obtain ⟨b, hb, rfl⟩ := List.mem_map.mp hp
    exact h.start_ne_pxEnd hb
  short := by
    rw [List.length_map]
    exact h.layout.length_free_lt.trans (by decide)
  inside := by
    have below := r.ucHeap_le_lo
    have room := r.lo_add_le_hi
    have above := r.hi_add_le
    intro p hp
    rw [h.pxEnd] at hp
    unfold HeaderInArray sizeofBlockLink
    rw [h.ucHeap, h.total]
    rcases List.mem_append.mp hp with hp | hp
    · obtain ⟨b, hb, rfl⟩ := List.mem_map.mp hp
      have start := h.layout.le_start (List.mem_append_left live hb)
      have stop := h.layout.stop_le (List.mem_append_left live hb)
      unfold Block.stop at stop
      omega
    · rw [List.mem_singleton.mp hp]
      omega

/-- `HeapInit` links the record to the aligned start and that to the end marker, also where
the two are one or overlap. -/
theorem Accepted.heapInit_links (accepted : Accepted s) (fits : HeaderFits s.heap) :
    (heapInit s).heap.xStart.pxNextFreeBlock = pucAlignedHeap s.heap ∧
      (heapInit s).next (pucAlignedHeap s.heap) = endAddress s.heap := by
  obtain ⟨⟨lowFirst, highFirst⟩, ⟨lowLast, highLast⟩, -⟩ := accepted.headersInArray fits
  have wrap := accepted.no_wrap
  have apart := accepted.record_apart
  unfold sizeofBlockLink at highFirst highLast
  -- the headers in the array do not reach into the record
  have apartFirst : Apart (pucAlignedHeap s.heap) s.xStartAddr := by
    unfold Apart
    omega
  have apartLast : Apart (endAddress s.heap) s.xStartAddr := by
    unfold Apart
    omega
  have read : (heapInit s).next s.xStartAddr = pucAlignedHeap s.heap := by
    rw [heapInit_eq_computed, initialisedAt_next, headersWritten,
      State.next_setNext_of_apart apartFirst, State.next_setSize_of_apart apartFirst,
      State.next_setNext_of_apart apartLast, State.next_setSize_of_apart apartLast]
    exact if_pos rfl
  constructor
  · rw [← read]
    exact (if_pos (heapInit_xStartAddr s).symm).symm
  · rw [heapInit_eq_computed, initialisedAt_next, headersWritten,
      State.next_setNext_self (by omega)]

/-- So right after `HeapInit` the list is a chain. -/
theorem Accepted.heapInit_chained (accepted : Accepted s) (fits : HeaderFits s.heap) :
    ∃ starts, Chained (heapInit s) starts := by
  obtain ⟨xStart, link⟩ := accepted.heapInit_links fits
  obtain ⟨first, last, -⟩ := accepted.headersInArray fits
  have record := heapInit_record s
  have pxEnd : (heapInit s).heap.pxEnd = endAddress s.heap := by rw [record]
  have inside : HeaderInArray (heapInit s).heap (pucAlignedHeap s.heap) ∧
      HeaderInArray (heapInit s).heap (endAddress s.heap) := by
    rw [record]
    exact ⟨first, last⟩
  by_cases same : pucAlignedHeap s.heap = endAddress s.heap
  · exact ⟨[], {
      first := by
        rw [pxEnd, xStart, same]
        rfl
      linked := Linked.singleton _ _
      inner := by simp
      short := by simp
      inside := by
        intro p hp
        obtain rfl : p = endAddress s.heap := by simpa [pxEnd] using hp
        exact inside.2 }⟩
  · exact ⟨[pucAlignedHeap s.heap], {
      first := by
        rw [xStart]
        rfl
      linked := by
        rw [pxEnd]
        exact Linked.cons_cons.mpr ⟨link, Linked.singleton _ _⟩
      inner := by
        intro p hp
        rw [List.mem_singleton.mp hp, pxEnd]
        exact same
      short := by simp
      inside := by
        intro p hp
        rw [pxEnd] at hp
        rcases List.mem_append.mp hp with hp | hp
        · rw [List.mem_singleton.mp hp]
          exact inside.1
        · rw [List.mem_singleton.mp hp]
          exact inside.2 }⟩

/-- An initialised heap with room for a header is safe to look at. -/
theorem Housed.infoSafe (h : Housed s₀ s live) (unused : Unused s₀) (fits : HeaderFits s₀.heap)
    (init : s.heap.pxEnd ≠ 0) : InfoSafe s := by
  cases h with
  | managed r array managed =>
    obtain ⟨free, represents⟩ := managed.represents init
    refine represents.chained.infoSafe ?_
    rw [represents.ucHeap, ← array.ucHeap]
    exact unused.array
  | cramped tight cramped =>
    obtain ⟨s₁, placed, rfl⟩ := cramped.initialised.resolve_left init
    obtain ⟨starts, chained⟩ := (unused.toAccepted.of_placed placed).heapInit_chained
      (placed.headerFits fits)
    refine chained.infoSafe ?_
    rw [cramped.placed.ucHeap]
    exact unused.array

/-! ### What a call can change in the record -/

/-- The array, the end marker and the place of the record are the same. -/
structure Fixed (s s' : State) : Prop extends Placed s s' where
  pxEnd : s'.heap.pxEnd = s.heap.pxEnd

theorem WritesHeaders.fixed {W : List ℕ} (h : WritesHeaders s s' W) : Fixed s s' where
  ucHeap := by rw [h.heap]
  total := by rw [h.heap]
  xStartAddr := h.xStartAddr
  pxEnd := by rw [h.heap]

namespace Fixed

variable {s'' : State} {v : ℕ}

theorem refl (s : State) : Fixed s s := ⟨.refl s, rfl⟩

theorem trans (h : Fixed s s') (h' : Fixed s' s'') : Fixed s s'' where
  toPlaced := h.toPlaced.trans h'.toPlaced
  pxEnd := h'.pxEnd.trans h.pxEnd

theorem setNext (h : Fixed s s') : Fixed s (s'.setNext p v) :=
  h.trans ((WritesHeaders.refl s' [p]).setNext (by simp)).fixed

theorem setSize (h : Fixed s s') : Fixed s (s'.setSize p v) :=
  h.trans ((WritesHeaders.refl s' [p]).setSize (by simp)).fixed

/-- The counters are none of these. -/
theorem counters (h : Fixed s s') {minimum allocations frees : ℕ} :
    Fixed s { s' with heap := { s'.heap with
      xFreeBytesRemaining := v
      xMinimumEverFreeBytesRemaining := minimum
      xNumberOfSuccessfulAllocations := allocations
      xNumberOfSuccessfulFrees := frees } } :=
  ⟨⟨h.ucHeap, h.total, h.xStartAddr⟩, h.pxEnd⟩

theorem insert (h : Fixed s s') (done : prvInsertBlockIntoFreeList s' p = .ok s'') :
    Fixed s s'' := by
  obtain ⟨pxIterator, -, linked⟩ := bind_eq_ok done
  cases linked
  exact h.trans (linkBlock_writesHeaders s' pxIterator p).fixed

end Fixed

theorem splitBlock_fixed (done : splitBlock ndebug s p n = .ok s') : Fixed s s' := by
  unfold splitBlock at done
  split_ifs at done
  · obtain ⟨-, -, inserted⟩ := bind_eq_ok done
    exact (Fixed.refl s).setSize.setSize.insert inserted
  · cases done
    exact .refl s

theorem takeBlock_fixed {previous : ℕ}
    (done : takeBlock ndebug s previous p n = .ok (s', result)) : Fixed s s' := by
  obtain ⟨s₁, split, rest⟩ := bind_eq_ok done
  have first := (Fixed.refl s).setNext.trans (splitBlock_fixed split)
  cases rest
  split_ifs
  · exact first.counters.counters.setSize.setNext.counters
  · exact first.counters.setSize.setNext.counters

theorem allocate_fixed (done : allocate ndebug s n = .ok (s', result)) : Fixed s s' := by
  unfold allocate at done
  split_ifs at done
  · obtain ⟨wanted, -, done⟩ := bind_eq_ok done
    split_ifs at done
    · obtain ⟨⟨pxPreviousBlock, pxBlock⟩, -, done⟩ := bind_eq_ok done
      dsimp only at done
      split_ifs at done
      · exact takeBlock_fixed done
      · cases done
        exact .refl s
    · cases done
      exact .refl s
  · cases done
    exact .refl s

theorem portMalloc_fixed (done : portMalloc ndebug s n = .ok (s', result)) :
    Fixed (ensureInit s) s' := by
  obtain ⟨⟨s₁, pvReturn⟩, allocated, done⟩ := bind_eq_ok done
  obtain ⟨-, -, done⟩ := bind_eq_ok done
  cases done
  exact allocate_fixed allocated

theorem portFree_fixed (done : portFree ndebug s p = .ok s') : Fixed s s' := by
  unfold portFree at done
  split_ifs at done
  · obtain ⟨-, -, done⟩ := bind_eq_ok done
    obtain ⟨-, -, done⟩ := bind_eq_ok done
    split_ifs at done
    · obtain ⟨s₁, inserted, done⟩ := bind_eq_ok done
      cases done
      exact ((Fixed.refl s).setSize.counters.insert inserted).counters
    · cases done
      exact .refl s
    · cases done
      exact .refl s
  · cases done
    exact .refl s

/-- From any state, whatever the memory holds: a call that completes leaves the array and
the place of the record alone, and sets `pxEnd` only to initialise. -/
theorem exec_record (done : op.exec ndebug s = .ok (s', result)) : Placed s s' ∧
    (s'.heap.pxEnd = s.heap.pxEnd ∧ (op.Initialises → s.heap.pxEnd ≠ 0) ∨
      s'.heap.pxEnd = endAddress s.heap ∧ op.Initialises) := by
  have initialised : (heapInit s).heap.pxEnd = endAddress s.heap := by rw [heapInit_record]
  cases op with
  | malloc n =>
    have fixed := portMalloc_fixed done
    unfold ensureInit at fixed
    split_ifs at fixed with blank
    · exact ⟨(Placed.refl s).heapInit.trans fixed.toPlaced,
        .inr ⟨fixed.pxEnd.trans initialised, trivial⟩⟩
    · exact ⟨fixed.toPlaced, .inl ⟨fixed.pxEnd, fun _ => blank⟩⟩
  | free pv =>
    obtain ⟨s₁, freed, done⟩ := bind_eq_ok done
    cases done
    have fixed := portFree_fixed freed
    exact ⟨fixed.toPlaced, .inl ⟨fixed.pxEnd, False.elim⟩⟩
  | reinit =>
    cases done
    refine ⟨(Placed.refl s).cleared.heapInit, .inr ⟨?_, trivial⟩⟩
    rw [reinit, heapInit_record]
    exact (Placed.refl s).cleared.addresses.2.1
  | write a v =>
    cases done
    exact ⟨⟨rfl, rfl, rfl⟩, .inl ⟨rfl, False.elim⟩⟩

/-! ### Sequences of calls -/

/-- The record of a heap in the array of `s₀`: `pxEnd` is as `heap_cfg` or as `HeapInit`
leaves it. -/
structure Anchored (s₀ s : State) : Prop where
  placed : Placed s₀ s
  pxEnd : s.heap.pxEnd = 0 ∨ s.heap.pxEnd = endAddress s₀.heap

namespace Anchored

theorem exec (h : Anchored s₀ s) (done : op.exec ndebug s = .ok (s', result)) :
    Anchored s₀ s' ∧
      s'.heap.pxEnd = if op.Initialises then endAddress s₀.heap else s.heap.pxEnd := by
  obtain ⟨placed, record⟩ := exec_record done
  have placed' := h.placed.trans placed
  rw [h.placed.addresses.2.1] at record
  rcases record with ⟨kept, init⟩ | ⟨set, init⟩
  · refine ⟨⟨placed', kept ▸ h.pxEnd⟩, ?_⟩
    split_ifs with initialises
    · exact kept.trans (h.pxEnd.resolve_left (init initialises))
    · exact kept
  · rw [if_pos init]
    exact ⟨⟨placed', .inr set⟩, set⟩

/-- One call. -/
theorem step (h : Anchored s₀ t.state)
    (done : (infoMachine ndebug).step t call = .ok (t', result)) :
    Anchored s₀ t'.state ∧ t'.state.heap.pxEnd =
      if call.Initialises then endAddress s₀.heap else t.state.heap.pxEnd := by
  cases call with
  | client op =>
    obtain ⟨⟨s', result⟩, executed, done⟩ := bind_eq_ok done
    cases done
    exact h.exec executed
  | heapInfo =>
    obtain ⟨-, -, done⟩ := bind_eq_ok done
    cases done
    exact ⟨h, rfl⟩

/-- A sequence of calls: the heap has an end marker after it if one of them initialises. -/
theorem run (h : Anchored s₀ t.state) (adm : (infoMachine ndebug).Admissible t calls)
    (done : (infoMachine ndebug).run t calls = .ok (t', results)) :
    Anchored s₀ t'.state ∧ t'.state.heap.pxEnd =
      if ∃ call ∈ calls, call.Initialises then endAddress s₀.heap else t.state.heap.pxEnd := by
  have step : ∀ (t : Session) call (t' : Session) result, Anchored s₀ t.state →
      (infoMachine ndebug).Allowed t call → (infoMachine ndebug).step t call = .ok (t', result) →
      Anchored s₀ t'.state ∧ t'.state.heap.pxEnd =
        if call.Initialises then endAddress s₀.heap else t.state.heap.pxEnd :=
    fun _ _ _ _ anchored _ taken => anchored.step taken
  exact Machine.run_assigned step h adm done

/-- Only with room for a header does `pxEnd` ever point to one in the array. -/
theorem headerFits (h : Anchored s₀ s) (accepted : Accepted s₀) (safe : InfoSafe s) :
    HeaderFits s₀.heap := by
  obtain ⟨ne, low, high⟩ := safe.pxEnd
  have wrap := accepted.no_wrap
  rw [h.pxEnd.resolve_left ne, accepted.endAddress_eq, h.placed.ucHeap] at low high
  rw [h.placed.total] at high
  unfold sizeofBlockLink at high
  unfold HeaderFits
  omega

end Anchored

theorem Housed.placed (h : Housed s₀ s live) : Placed s₀ s := by
  cases h with
  | managed r array managed =>
    have configured := managed.configured
    exact ⟨configured.ucHeap.trans array.ucHeap.symm, configured.total.trans array.total.symm,
      configured.xStartAddr.trans array.xStartAddr.symm⟩
  | cramped tight cramped => exact cramped.placed

/-- Nothing is in use before the first initialisation. -/
theorem Housed.live_of_blank (h : Housed s₀ s live) (blank : s.heap.pxEnd = 0) : live = [] := by
  cases h with
  | managed r array managed =>
    rcases managed.blank_or with ⟨-, none⟩ | ⟨free, represents⟩
    · exact none
    · exact absurd blank represents.pxEnd_ne
  | cramped tight cramped => exact cramped.live

/-- The calls that do not initialise change nothing then. -/
theorem exec_blank (allowed : op.Allowed []) (idle : ¬ op.Initialises)
    (done : op.exec ndebug s = .ok (s', result)) : s' = s := by
  cases op with
  | malloc n => exact absurd trivial idle
  | free pv =>
    obtain rfl : pv = 0 := by simpa [Op.Allowed] using allowed
    cases done
    rfl
  | reinit => exact absurd trivial idle
  | write a v =>
    obtain ⟨b, hb, -⟩ := allowed
    simp at hb

namespace Unused

variable (unused : Unused s) (fits : HeaderFits s.heap)
include unused

theorem anchored : Anchored s (Session.start s).state := ⟨.refl s, .inl unused.pxEnd⟩

/-- Before the first initialisation `heap_info` follows `NULL` four times and then returns. -/
theorem heapInfo_ok : ∃ info, heapInfo s = .ok (info, [0, 0, 0, 0]) := by
  have record : s.next s.xStartAddr = 0 := (if_pos rfl).trans unused.xStart
  unfold heapInfo tracedHeapStats
  rw [record, unused.xStart, unused.pxEnd]
  exact ⟨_, rfl⟩

include fits

theorem endAddress_ne : endAddress s.heap ≠ 0 := by
  have array := unused.array
  rw [(unused.toAccepted.addresses fits).2]
  unfold HeaderFits at fits
  omega

/-- With room for a header every call completes; the heap keeps to its array, and until it
is initialised it is as it was. -/
theorem step (housed : Housed s t.state t.live) (same : t.state.heap.pxEnd = 0 → t.state = s)
    (allowed : (infoMachine ndebug).Allowed t call) :
    ∃ t' result, (infoMachine ndebug).step t call = .ok (t', result) ∧
      Housed s t'.state t'.live ∧ (t'.state.heap.pxEnd = 0 → t'.state = s) := by
  cases call with
  | client op =>
    obtain ⟨s', result, done, after⟩ := housed.exec allowed ndebug
    refine ⟨_, _, Session.step_eq done, after, fun blank => ?_⟩
    have blank : s'.heap.pxEnd = 0 := blank
    have placed := housed.placed
    rcases (exec_record done).2 with ⟨kept, init⟩ | ⟨set, -⟩
    · have before : t.state.heap.pxEnd = 0 := kept.symm.trans blank
      have none := housed.live_of_blank before
      have idle : ¬ op.Initialises := fun initialises => init initialises before
      exact (exec_blank (none ▸ allowed) idle done).trans (same before)
    · rw [blank, placed.addresses.2.1] at set
      exact absurd set.symm (unused.endAddress_ne fits)
  | heapInfo =>
    have returns : ∃ printed, heapInfo t.state = .ok printed := by
      by_cases blank : t.state.heap.pxEnd = 0
      · obtain ⟨info, done⟩ := unused.heapInfo_ok
        rw [same blank]
        exact ⟨_, done⟩
      · obtain ⟨info, pointers, done, -⟩ := housed.infoSafe unused fits blank
        exact ⟨_, done⟩
    obtain ⟨printed, done⟩ := returns
    refine ⟨t, 0, ?_, housed, same⟩
    change (heapInfo t.state >>= _) = _
    rw [done]
    rfl

/-- So every sequence of calls completes. -/
theorem run (adm : (infoMachine ndebug).Admissible (.start s) calls) :
    ∃ t results, (infoMachine ndebug).run (.start s) calls = .ok (t, results) ∧
      Housed s t.state t.live := by
  have start : Housed s (Session.start s).state (Session.start s).live ∧
      ((Session.start s).state.heap.pxEnd = 0 → (Session.start s).state = s) :=
    ⟨(unused.toAccepted.housed fits).2 unused.pxEnd, fun _ => rfl⟩
  have step : ∀ (t : Session) call,
      (Housed s t.state t.live ∧ (t.state.heap.pxEnd = 0 → t.state = s)) →
      (infoMachine ndebug).Allowed t call →
      ∃ t' result, (infoMachine ndebug).step t call = .ok (t', result) ∧
        (Housed s t'.state t'.live ∧ (t'.state.heap.pxEnd = 0 → t'.state = s)) :=
    fun _ _ kept allowed => unused.step fits kept.1 kept.2 allowed
  obtain ⟨t, results, done, housed, -⟩ := Machine.exists_run_of_invariant step start adm
  exact ⟨t, results, done, housed⟩

end Unused

/-- After any sequence of calls on a heap that was configured and not used before: if the
array has room for a header, the sequence completes. Whenever it completes, `heap_info` is
safe afterwards if and only if the array has that room and a call of the sequence was a
`name_malloc` or a `name_reinit`. -/
theorem session_infoSafe_iff (unused : Unused s)
    (adm : (infoMachine ndebug).Admissible (.start s) calls) :
    (HeaderFits s.heap →
      ∃ t results, (infoMachine ndebug).run (.start s) calls = .ok (t, results)) ∧
    ∀ t results, (infoMachine ndebug).run (.start s) calls = .ok (t, results) →
      (InfoSafe t.state ↔ HeaderFits s.heap ∧ ∃ call ∈ calls, call.Initialises) := by
  refine ⟨fun fits => ?_, fun t results done => ?_⟩
  · obtain ⟨t, results, done, -⟩ := unused.run fits adm
    exact ⟨t, results, done⟩
  · obtain ⟨anchored, pxEnd⟩ := unused.anchored.run adm done
    constructor
    · intro safe
      refine ⟨anchored.headerFits unused.toAccepted safe, ?_⟩
      -- without such a call `pxEnd` is still `NULL`
      by_contra idle
      rw [if_neg idle] at pxEnd
      exact safe.pxEnd.1 (pxEnd.trans unused.pxEnd)
    · rintro ⟨fits, init⟩
      obtain ⟨t', results', done', housed⟩ := unused.run fits adm
      cases done'.symm.trans done
      rw [if_pos init] at pxEnd
      exact housed.infoSafe unused fits (pxEnd ▸ unused.endAddress_ne fits)

theorem smallState_unused : Unused smallState where
  toAccepted := smallState_accepted
  array := by decide
  xStart := rfl
  pxEnd := rfl

/-- Calls on the small heap that look at it between and after its allocations. -/
def curiousRun : List InfoCall :=
  [.client (.malloc 10), .heapInfo, .client (.malloc 80), .client (.free 1012), .heapInfo]

theorem session_infoSafe_iff_small : ∃ t results,
    (infoMachine false).run (.start smallState) curiousRun = .ok (t, results) ∧
      InfoSafe t.state := by
  have adm : (infoMachine false).Admissible (.start smallState) curiousRun := by decide +kernel
  have fits : HeaderFits smallState.heap := by
    unfold HeaderFits
    decide
  obtain ⟨completes, safe⟩ := session_infoSafe_iff smallState_unused adm
  obtain ⟨t, results, done⟩ := completes fits
  exact ⟨t, results, done, (safe t results done).mpr ⟨fits, by decide⟩⟩

/-- The heap `name0` of the repository, as `main_heap_test` finds it after `heap_cfg`. -/
def name0State : State :=
  { smallState with heap := { smallState.heap with
      configTotalHeapSize := 92
      namep := some "namestr0" } }

/-- `main_heap_test` looks at it before the first allocation, and `heap_info` dereferences
`NULL`. -/
theorem heapInfo_follows_null : Unused name0State ∧
    (infoMachine false).run (.start name0State) [] = .ok (.start name0State, []) ∧
    (∃ info, heapInfo name0State = .ok (info, [0, 0, 0, 0])) ∧ ¬ InfoSafe name0State := by
  have unused : Unused name0State := {
    size_pos := by decide
    size_lt := by decide
    no_wrap := by decide
    record_lt := by decide
    record_apart := by decide
    array := by decide
    xStart := rfl
    pxEnd := rfl }
  refine ⟨unused, rfl, unused.heapInfo_ok, fun safe => ?_⟩
  exact safe.pxEnd.1 unused.pxEnd

end Components.Allocator
