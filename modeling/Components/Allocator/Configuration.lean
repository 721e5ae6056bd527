import Components.Allocator.Requests

/-!
# Initialising an array of any size

`HEAP_CFG` takes any size, and `HeapInit` does not look at it. The start is rounded up, the
end marker stands a header before the end, rounded down, and the difference is the free
block. With less room than a header behind the aligned start the differences wrap, and the
heap believes that it owns gigabytes.

Between one header and two there is room for the headers, which then overlap, and for
nothing else: every request is refused.

## Main definitions

* `Accepted` — an array and a record that the program can have
* `heapInitSubtractions` — the subtractions of `HeapInit`
* `InitInBounds` — the arithmetic of `HeapInit` is exact and stays in the array
* `HeaderFits` — the aligned start has room for a header
* `Cramped` — a heap with room for one header and not for two

## Main results

* `heapInit_record` — what `HeapInit` writes in the record, for any array
* `Cramped.exec` — such a heap refuses every request
* `Housed.run` — a heap with room for a header keeps to its array
* `heapInit_inBounds_iff` — when the arithmetic is right
-/

namespace Components.Allocator

open Word

variable {r : Region} {s s₀ s₁ s' : State} {live : List Block} {op : Op} {ops : List Op}
  {ndebug : Bool} {t t' : Session} {result : ℕ} {results : List ℕ}

/-- An array of at least one byte below `2 ^ 31`, which ends before the address space does,
and the record of the heap, an object of its own. -/
structure Accepted (s : State) : Prop where
  size_pos : 1 ≤ s.heap.configTotalHeapSize
  size_lt : s.heap.configTotalHeapSize < 2 ^ 31
  no_wrap : s.heap.ucHeap + s.heap.configTotalHeapSize < 2 ^ 32
  record_lt : s.xStartAddr + 8 ≤ 2 ^ 32
  record_apart : s.xStartAddr + 8 ≤ s.heap.ucHeap ∨
    s.heap.ucHeap + s.heap.configTotalHeapSize ≤ s.xStartAddr

/-- `pucAlignedHeap` in `HeapInit`. -/
def pucAlignedHeap (h : Heap) : ℕ := (alignedHeap h).1

/-- The address that `HeapInit` computes for `pxEnd`. -/
def endAddress (h : Heap) : ℕ :=
  wsub (wadd (alignedHeap h).1 (alignedHeap h).2) xHeapStructSize &&& wnot portByteAlignmentMask

/-- The subtractions that `HeapInit` makes, as pairs of what it subtracts from and what it
subtracts. -/
def heapInitSubtractions (h : Heap) : List (ℕ × ℕ) :=
  let uxAddress := wadd h.ucHeap (portByteAlignment - 1) &&& wnot portByteAlignmentMask
  -- the bytes lost to the alignment, and their loss from the total
  (if h.ucHeap &&& portByteAlignmentMask ≠ 0 then
    [(uxAddress, h.ucHeap), (h.configTotalHeapSize, wsub uxAddress h.ucHeap)]
  else []) ++
  -- the end marker, and the size of the first block
  [(wadd (alignedHeap h).1 (alignedHeap h).2, xHeapStructSize), (endAddress h, pucAlignedHeap h)]

/-- The header at this address lies in the array. -/
def HeaderInArray (h : Heap) (p : ℕ) : Prop :=
  h.ucHeap ≤ p ∧ p + sizeofBlockLink ≤ h.ucHeap + h.configTotalHeapSize

/-- What `HeapInit` computes is exact and stays in the array, and after it no request is
served from anywhere else. -/
structure InitInBounds (s : State) : Prop where
  exact : ∀ d ∈ heapInitSubtractions s.heap, d.2 ≤ d.1
  start : s.heap.ucHeap ≤ pucAlignedHeap s.heap
  order : pucAlignedHeap s.heap ≤ (heapInit s).heap.pxEnd
  first : HeaderInArray s.heap (pucAlignedHeap s.heap)
  last : HeaderInArray s.heap (heapInit s).heap.pxEnd
  free : (heapInit s).heap.xFreeBytesRemaining + pucAlignedHeap s.heap = (heapInit s).heap.pxEnd
  free_le : (heapInit s).heap.xFreeBytesRemaining ≤ s.heap.configTotalHeapSize
  served : ∀ ndebug ops t results, (machine ndebug).Admissible (.start (heapInit s)) ops →
    (machine ndebug).run (.start (heapInit s)) ops = .ok (t, results) →
    ∀ n t' p, (machine ndebug).step t (.malloc n) = .ok (t', p) → p ≠ 0 →
      s.heap.ucHeap ≤ p ∧ p + n.toNat ≤ s.heap.ucHeap + s.heap.configTotalHeapSize

/-- A header fits into the array behind the aligned start. -/
def HeaderFits (h : Heap) : Prop := (h.ucHeap + 3) / 4 * 4 + 8 ≤ h.ucHeap + h.configTotalHeapSize

/-! ### Addresses -/

namespace Accepted

variable (accepted : Accepted s)
include accepted

theorem alignedHeap_eq : (alignedHeap s.heap).1 = (s.heap.ucHeap + 3) % 2 ^ 32 / 4 * 4 ∧
    wadd (alignedHeap s.heap).1 (alignedHeap s.heap).2 =
      s.heap.ucHeap + s.heap.configTotalHeapSize := by
  have wrap := accepted.no_wrap
  have small := accepted.size_lt
  unfold alignedHeap
  rw [portByteAlignmentMask_eq, portByteAlignment_eq, land_three]
  split_ifs with misaligned
  · have start : wadd s.heap.ucHeap (4 - 1) &&& wnot 3 = (s.heap.ucHeap + 3) % 2 ^ 32 / 4 * 4 :=
      land_wnot_three (Nat.mod_lt _ (by decide))
    dsimp only
    rw [start]
    refine ⟨rfl, ?_⟩
    unfold wadd wsub
    omega
  · unfold wadd
    dsimp only
    omega

theorem endAddress_eq : endAddress s.heap =
    (s.heap.ucHeap + s.heap.configTotalHeapSize + 2 ^ 32 - 8) % 2 ^ 32 / 4 * 4 := by
  rw [endAddress, accepted.alignedHeap_eq.2, xHeapStructSize_eq, portByteAlignmentMask_eq]
  exact land_wnot_three (Nat.mod_lt _ (by decide))

/-- With room for a header both addresses are where they should be. -/
theorem addresses (fits : HeaderFits s.heap) :
    pucAlignedHeap s.heap = (s.heap.ucHeap + 3) / 4 * 4 ∧
    endAddress s.heap = (s.heap.ucHeap + s.heap.configTotalHeapSize - 8) / 4 * 4 := by
  have wrap := accepted.no_wrap
  unfold HeaderFits at fits
  rw [pucAlignedHeap, accepted.alignedHeap_eq.1, accepted.endAddress_eq]
  omega

end Accepted

/-! ### What `HeapInit` leaves -/

/-- The size of the first block, as `HeapInit` computes it. -/
def firstBlockSize (h : Heap) : ℕ := wsub (endAddress h) (pucAlignedHeap h)

theorem heapInit_eq_computed (s : State) : heapInit s =
    initialisedAt s (pucAlignedHeap s.heap) (endAddress s.heap) (firstBlockSize s.heap) :=
  heapInit_eq_initialisedAt rfl rfl rfl

/-- What `HeapInit` leaves in the record, for any array. -/
theorem heapInit_record (s : State) : (heapInit s).heap = { s.heap with
    xStart := (heapInit s).heap.xStart
    pxEnd := endAddress s.heap
    xFreeBytesRemaining := firstBlockSize s.heap
    xMinimumEverFreeBytesRemaining := firstBlockSize s.heap } := by
  rw [heapInit_eq_computed, initialisedAt_heap]

theorem heapInit_xStartAddr (s : State) : (heapInit s).xStartAddr = s.xStartAddr := by
  rw [heapInit_eq_computed, initialisedAt_xStartAddr]

theorem heapInit_bit (s : State) : (heapInit s).xBlockAllocatedBit = 2 ^ 31 := by
  rw [heapInit_eq_computed]
  rfl

/-! ### Room for one header and not for two -/

/-- The same array and the same record. -/
structure Placed (s₀ s : State) : Prop where
  ucHeap : s.heap.ucHeap = s₀.heap.ucHeap
  total : s.heap.configTotalHeapSize = s₀.heap.configTotalHeapSize
  xStartAddr : s.xStartAddr = s₀.xStartAddr

namespace Placed

theorem refl (s : State) : Placed s s := ⟨rfl, rfl, rfl⟩

theorem trans (h : Placed s₀ s) (h' : Placed s s') : Placed s₀ s' :=
  ⟨h'.ucHeap.trans h.ucHeap, h'.total.trans h.total, h'.xStartAddr.trans h.xStartAddr⟩

theorem cleared (h : Placed s₀ s) : Placed s₀ s.cleared := ⟨h.ucHeap, h.total, h.xStartAddr⟩

theorem heapInit (h : Placed s₀ s) : Placed s₀ (heapInit s) where
  ucHeap := by
    rw [heapInit_record]
    exact h.ucHeap
  total := by
    rw [heapInit_record]
    exact h.total
  xStartAddr := (heapInit_xStartAddr s).trans h.xStartAddr

/-- The addresses depend on the array alone. -/
theorem addresses (h : Placed s₀ s) : pucAlignedHeap s.heap = pucAlignedHeap s₀.heap ∧
    endAddress s.heap = endAddress s₀.heap ∧ firstBlockSize s.heap = firstBlockSize s₀.heap := by
  have same : alignedHeap s.heap = alignedHeap s₀.heap := by
    unfold alignedHeap
    rw [h.ucHeap, h.total]
  unfold firstBlockSize pucAlignedHeap endAddress
  rw [same]
  exact ⟨rfl, rfl, rfl⟩

theorem headerFits (h : Placed s₀ s) (fits : HeaderFits s₀.heap) : HeaderFits s.heap := by
  unfold HeaderFits at fits ⊢
  rw [h.ucHeap, h.total]
  exact fits

end Placed

theorem Accepted.of_placed (accepted : Accepted s₀) (h : Placed s₀ s) : Accepted s where
  size_pos := h.total ▸ accepted.size_pos
  size_lt := h.total ▸ accepted.size_lt
  no_wrap := h.total ▸ h.ucHeap ▸ accepted.no_wrap
  record_lt := h.xStartAddr ▸ accepted.record_lt
  record_apart := h.total ▸ h.ucHeap ▸ h.xStartAddr ▸ accepted.record_apart

/-- A heap without room for a block: it is blank or just initialised, and nothing is in
use. -/
structure Cramped (s₀ s : State) (live : List Block) : Prop where
  placed : Placed s₀ s
  live : live = []
  initialised : s.heap.pxEnd = 0 ∨ ∃ s₁, Placed s₀ s₁ ∧ s = heapInit s₁

/-- A request is refused when fewer bytes are free than a header takes. -/
theorem allocate_full (bit : s.xBlockAllocatedBit = 2 ^ 31)
    (full : s.heap.xFreeBytesRemaining < 8) {n : ℕ} (hn : n < 2 ^ 32) (ndebug : Bool) :
    allocate ndebug s n = .ok (s, 0) := by
  by_cases range : 0 < n ∧ n < 2 ^ 31
  swap
  · exact allocate_outside bit hn ndebug range
  -- the counter is compared before the list is looked at
  have least := eight_le_needed n
  rw [allocate_eq bit ndebug range.1 range.2, if_neg (by omega)]
  rfl

namespace Cramped

variable (tight : firstBlockSize s₀.heap < 8)
include tight

/-- Every request is refused, after the lazy initialisation. -/
theorem malloc (h : Cramped s₀ s live) (n : UInt32) (ndebug : Bool) :
    (Op.malloc n).exec ndebug s = .ok (ensureInit s, 0) ∧
      ∃ s₁, Placed s₀ s₁ ∧ ensureInit s = heapInit s₁ := by
  have init : ∃ s₁, Placed s₀ s₁ ∧ ensureInit s = heapInit s₁ := by
    unfold ensureInit
    split_ifs with blank
    · exact ⟨s, h.placed, rfl⟩
    · exact h.initialised.resolve_left blank
  refine ⟨?_, init⟩
  obtain ⟨s₁, placed, eq⟩ := init
  have full : (ensureInit s).heap.xFreeBytesRemaining < 8 := by
    rw [eq, heapInit_record]
    exact placed.addresses.2.2.trans_lt tight
  have bit : (ensureInit s).xBlockAllocatedBit = 2 ^ 31 := by rw [eq, heapInit_bit]
  exact portMalloc_of_allocate (allocate_full bit full n.toNat_lt ndebug) rfl

/-- Every allowed call completes with `NULL`, and nothing comes into use. -/
theorem exec (h : Cramped s₀ s live) (allowed : op.Allowed live) (ndebug : Bool) :
    ∃ s', op.exec ndebug s = .ok (s', 0) ∧ Cramped s₀ s' (op.live s' 0 live) := by
  obtain ⟨placed, rfl, initialised⟩ := h
  cases op with
  | malloc n =>
    obtain ⟨refused, s₁, placed₁, eq⟩ := Cramped.malloc tight ⟨placed, rfl, initialised⟩ n ndebug
    refine ⟨_, refused, ?_, rfl, .inr ⟨s₁, placed₁, eq⟩⟩
    rw [eq]
    exact placed₁.heapInit
  | free pv =>
    -- only `NULL` can be freed
    obtain rfl : pv = 0 := by simpa [Op.Allowed] using allowed
    exact ⟨s, rfl, placed, rfl, initialised⟩
  | reinit => exact ⟨_, rfl, placed.cleared.heapInit, rfl, .inr ⟨_, placed.cleared, rfl⟩⟩
  | write a v =>
    obtain ⟨b, hb, -⟩ := allowed
    simp at hb

end Cramped

/-! ### Later requests -/

/-- A pointer that is handed out, with the bytes asked for, lies in the array. -/
def ServedInside (s₀ : State) (ndebug : Bool) (t : Session) : Prop :=
  ∀ n t' p, (machine ndebug).step t (.malloc n) = .ok (t', p) → p ≠ 0 →
    s₀.heap.ucHeap ≤ p ∧ p + n.toNat ≤ s₀.heap.ucHeap + s₀.heap.configTotalHeapSize

theorem Managed.servedInside (h : Managed r t.state t.live) (array : Configured r s₀) :
    ServedInside s₀ ndebug t := by
  intro n t' p done ne
  have below := r.ucHeap_le_lo
  have above := r.hi_add_le
  rw [array.ucHeap, array.total]
  obtain ⟨free, represents, ⟨-, refused⟩ | ⟨l₁, b, l₂, -, rfl, fits, served⟩⟩ :=
    h.malloc_cases n ndebug
  · cases (Session.step_eq refused).symm.trans done
    exact absurd rfl ne
  · cases (Session.step_eq served).symm.trans done
    have start := represents.layout.le_start (b := b) (by simp)
    have stop := represents.layout.stop_le (b := b) (by simp)
    have least := lt_needed n.toNat
    unfold Block.stop at stop
    omega

theorem Cramped.servedInside (tight : firstBlockSize s₀.heap < 8)
    (h : Cramped s₀ t.state t.live) : ServedInside s₀ ndebug t := by
  intro n t' p done ne
  cases (Session.step_eq (Cramped.malloc tight h n ndebug).1).symm.trans done
  exact absurd rfl ne

/-- A heap in the array of `s₀`, with room for blocks or only for a header. -/
inductive Housed (s₀ s : State) (live : List Block) : Prop
  | managed (r : Region) (array : Configured r s₀) (managed : Managed r s live)
  | cramped (tight : firstBlockSize s₀.heap < 8) (cramped : Cramped s₀ s live)

namespace Housed

/-- Every allowed call completes and leaves the heap housed. -/
theorem exec (h : Housed s₀ s live) (allowed : op.Allowed live) (ndebug : Bool) :
    ∃ s' result, op.exec ndebug s = .ok (s', result) ∧ Housed s₀ s' (op.live s' result live) := by
  cases h with
  | managed r array managed =>
    obtain ⟨s', result, done, after⟩ := managed.exec allowed ndebug
    exact ⟨s', result, done, .managed r array after⟩
  | cramped tight cramped =>
    obtain ⟨s', done, after⟩ := cramped.exec tight allowed ndebug
    exact ⟨s', 0, done, .cramped tight after⟩

theorem servedInside (h : Housed s₀ t.state t.live) : ServedInside s₀ ndebug t := by
  cases h with
  | managed r array managed => exact managed.servedInside array
  | cramped tight cramped => exact cramped.servedInside tight

end Housed

/-- So does every run. -/
theorem Housed.run (h : Housed s₀ t.state t.live) (adm : (machine ndebug).Admissible t ops) :
    ∃ t' results, (machine ndebug).run t ops = .ok (t', results) ∧
      Housed s₀ t'.state t'.live := by
  refine Machine.exists_run_of_invariant (fun t op housed allowed => ?_) h adm
  obtain ⟨s', result, done, after⟩ := housed.exec allowed ndebug
  exact ⟨_, _, Session.step_eq done, after⟩

/-! ### The arithmetic -/

namespace Accepted

variable (accepted : Accepted s)
include accepted

/-- With room for a header the size of the first block is the difference of the addresses. -/
theorem firstBlockSize_eq (fits : HeaderFits s.heap) :
    firstBlockSize s.heap + pucAlignedHeap s.heap = endAddress s.heap := by
  have wrap := accepted.no_wrap
  obtain ⟨first, last⟩ := accepted.addresses fits
  unfold HeaderFits at fits
  rw [firstBlockSize, first, last, wsub_of_le (by omega) (by omega)]
  omega

/-- Both headers lie in the array, the first one not behind the last. -/
theorem headersInArray (fits : HeaderFits s.heap) :
    HeaderInArray s.heap (pucAlignedHeap s.heap) ∧ HeaderInArray s.heap (endAddress s.heap) ∧
      pucAlignedHeap s.heap ≤ endAddress s.heap := by
  obtain ⟨first, last⟩ := accepted.addresses fits
  unfold HeaderFits at fits
  unfold HeaderInArray sizeofBlockLink
  omega

/-- Room for one header and not for two leaves no byte for a client. -/
theorem firstBlockSize_lt (fits : HeaderFits s.heap)
    (narrow : s.heap.ucHeap + s.heap.configTotalHeapSize < (s.heap.ucHeap + 3) / 4 * 4 + 16) :
    firstBlockSize s.heap < 8 := by
  have difference := accepted.firstBlockSize_eq fits
  obtain ⟨first, last⟩ := accepted.addresses fits
  unfold HeaderFits at fits
  rw [first, last] at difference
  omega

/-- With room for two the array is a region. -/
theorem exists_configured
    (room : (s.heap.ucHeap + 3) / 4 * 4 + 16 ≤ s.heap.ucHeap + s.heap.configTotalHeapSize) :
    ∃ r : Region, Configured r s := by
  let r : Region := {
    ucHeap := s.heap.ucHeap
    configTotalHeapSize := s.heap.configTotalHeapSize
    xStartAddr := s.xStartAddr
    size_lt := accepted.size_lt
    no_wrap := accepted.no_wrap.le
    room := room
    record_lt := accepted.record_lt
    record_apart := accepted.record_apart }
  exact ⟨r, rfl, rfl, rfl⟩

/-- With room for a header a heap that is blank or just initialised is housed. -/
theorem housed (fits : HeaderFits s.heap) :
    Housed s (heapInit s) [] ∧ (s.heap.pxEnd = 0 → Housed s s []) := by
  by_cases room : (s.heap.ucHeap + 3) / 4 * 4 + 16 ≤ s.heap.ucHeap + s.heap.configTotalHeapSize
  · obtain ⟨r, configured⟩ := accepted.exists_configured room
    refine ⟨.managed r configured (heapInit_represents configured).managed, fun blank => ?_⟩
    exact .managed r configured ⟨configured, .inl ⟨blank, rfl⟩⟩
  · have tight := accepted.firstBlockSize_lt fits (Nat.not_le.mp room)
    have placed := Placed.refl s
    refine ⟨.cramped tight ⟨placed.heapInit, rfl, .inr ⟨s, placed, rfl⟩⟩, fun blank => ?_⟩
    exact .cramped tight ⟨placed, rfl, .inl blank⟩

theorem servedInside (fits : HeaderFits s.heap)
    (adm : (machine ndebug).Admissible (.start (heapInit s)) ops)
    (done : (machine ndebug).run (.start (heapInit s)) ops = .ok (t, results)) :
    ServedInside s ndebug t := by
  have start : Housed s (Session.start (heapInit s)).state (Session.start (heapInit s)).live :=
    (accepted.housed fits).1
  obtain ⟨t', results', done', housed⟩ := start.run adm
  cases done'.symm.trans done
  exact housed.servedInside

theorem exact_of_fits (fits : HeaderFits s.heap) :
    ∀ d ∈ heapInitSubtractions s.heap, d.2 ≤ d.1 := by
  have wrap := accepted.no_wrap
  obtain ⟨first, last⟩ := accepted.addresses fits
  unfold HeaderFits at fits
  have aligned : wadd s.heap.ucHeap (portByteAlignment - 1) &&& wnot portByteAlignmentMask =
      (s.heap.ucHeap + 3) / 4 * 4 := by
    rw [portByteAlignment_eq, portByteAlignmentMask_eq, wadd_of_lt (by omega),
      land_wnot_three (by omega)]
  have lost : wsub ((s.heap.ucHeap + 3) / 4 * 4) s.heap.ucHeap =
      (s.heap.ucHeap + 3) / 4 * 4 - s.heap.ucHeap := wsub_of_le (by omega) (by omega)
  intro d hd
  simp only [heapInitSubtractions, aligned, lost, accepted.alignedHeap_eq.2, xHeapStructSize_eq,
    first, last, List.mem_append, List.mem_cons, List.not_mem_nil, or_false] at hd
  rcases hd with start | rfl | rfl
  · split_ifs at start
    · simp only [List.mem_cons, List.not_mem_nil, or_false] at start
      rcases start with rfl | rfl
      · dsimp only
        omega
      · dsimp only
        omega
    · simp at start
  · dsimp only
    omega
  · dsimp only
    omega

end Accepted

/-- For every array: the arithmetic of `HeapInit` is exact, everything it computes lies in
the array, and all later requests are served from there, if and only if a header fits behind
the aligned start. -/
theorem heapInit_inBounds_iff (accepted : Accepted s) : InitInBounds s ↔ HeaderFits s.heap := by
  have wrap := accepted.no_wrap
  constructor
  · intro h
    have start := h.start
    have inside := h.first.2
    rw [pucAlignedHeap, accepted.alignedHeap_eq.1] at start inside
    unfold HeaderFits
    unfold sizeofBlockLink at inside
    omega
  · intro fits
    obtain ⟨first, last, order⟩ := accepted.headersInArray fits
    have difference := accepted.firstBlockSize_eq fits
    have record := heapInit_record s
    have pxEnd : (heapInit s).heap.pxEnd = endAddress s.heap := by rw [record]
    have free : (heapInit s).heap.xFreeBytesRemaining = firstBlockSize s.heap := by rw [record]
    exact {
      exact := accepted.exact_of_fits fits
      start := first.1
      order := order.trans_eq pxEnd.symm
      first := first
      last := by
        rw [pxEnd]
        exact last
      free := by rw [free, pxEnd, difference]
      free_le := by
        have low := first.1
        have high := last.2
        unfold sizeofBlockLink at high
        omega
      served := fun ndebug ops t results adm done => accepted.servedInside fits adm done }

theorem smallState_accepted : Accepted smallState where
  size_pos := by decide
  size_lt := by decide
  no_wrap := by decide
  record_lt := by decide
  record_apart := by decide

/-- The array of the small heap has room for its headers. -/
theorem heapInit_inBounds_iff_small : Accepted smallState ∧ InitInBounds smallState := by
  have fits : HeaderFits smallState.heap := by
    unfold HeaderFits
    decide
  exact ⟨smallState_accepted, (heapInit_inBounds_iff smallState_accepted).mpr fits⟩

/-- A heap of four bytes. -/
def tinyState : State :=
  { smallState with heap := { smallState.heap with ucHeap := 1000, configTotalHeapSize := 4 } }

/-- In an array of four bytes the end marker lands before the array, and the difference
wraps. -/
theorem heapInit_tiny_wraps : Accepted tinyState ∧ ¬ InitInBounds tinyState ∧
    pucAlignedHeap tinyState.heap = 1000 ∧ (heapInit tinyState).heap.pxEnd = 996 ∧
    (heapInit tinyState).heap.xFreeBytesRemaining = 2 ^ 32 - 4 := by
  have first : pucAlignedHeap tinyState.heap = 1000 := by decide
  have last : (heapInit tinyState).heap.pxEnd = 996 := by decide +kernel
  have free : (heapInit tinyState).heap.xFreeBytesRemaining = 2 ^ 32 - 4 := by decide +kernel
  refine ⟨⟨by decide, by decide, by decide, by decide, by decide⟩, fun h => ?_, first, last, free⟩
  have order := h.order
  rw [first, last] at order
  omega

end Components.Allocator
