import Components.Allocator.Representation

/-!
# `HeapInit` and `name_reinit`

Whatever the record and the array held before, initialisation leaves one free block
from the aligned start to the end marker and nothing in use. Only the headers of
that block and of the end marker are written.

## Main results

* `heapInit_eq_initialisedAt` — `HeapInit` as a fixed sequence of writes, for any array
* `heapInit_eq` — the same for the array of a region
* `heapInit_represents` — the freshly initialised heap
-/

namespace Components.Allocator

open Word

variable {r : Region} {s : State}

/-! ### Any array -/

/-- The headers that `HeapInit` writes, the end marker before the first block. -/
def headersWritten (s : State) (first last length : ℕ) : State :=
  let opened := { s with heap := { s.heap with
    xStart := { pxNextFreeBlock := first, xBlockSize := 0 }
    pxEnd := last } }
  (((opened.setSize last 0).setNext last 0).setSize first length).setNext first last

/-- The state after `HeapInit`, for any two addresses. -/
def initialisedAt (s : State) (first last length : ℕ) : State :=
  { ((headersWritten s first last length).setMinimumEverFreeBytesRemaining
      length).setFreeBytesRemaining length with xBlockAllocatedBit := 2 ^ 31 }

section

variable {first last length p : ℕ}

@[simp] theorem initialisedAt_next :
    (initialisedAt s first last length).next p = (headersWritten s first last length).next p := by
  unfold initialisedAt State.next
  rfl

@[simp] theorem initialisedAt_size :
    (initialisedAt s first last length).size p = (headersWritten s first last length).size p := by
  unfold initialisedAt State.size
  rfl

theorem headersWritten_writes (s : State) (first last length : ℕ) :
    WritesHeaders { s with heap := { s.heap with
        xStart := { pxNextFreeBlock := first, xBlockSize := 0 }
        pxEnd := last } }
      (headersWritten s first last length) [last, first] :=
  (((((WritesHeaders.refl _ _).setSize (by simp)).setNext (by simp)).setSize (by simp)).setNext
    (by simp))

/-- Initialisation sets the ends of the list and the byte counters of the record, and leaves
its other members. -/
theorem initialisedAt_heap (s : State) (first last length : ℕ) :
    (initialisedAt s first last length).heap = { s.heap with
      xStart := (initialisedAt s first last length).heap.xStart
      pxEnd := last
      xFreeBytesRemaining := length
      xMinimumEverFreeBytesRemaining := length } := by
  have record := (headersWritten_writes s first last length).heap
  unfold initialisedAt State.setFreeBytesRemaining State.setMinimumEverFreeBytesRemaining
  dsimp only
  rw [record]

theorem initialisedAt_xStartAddr :
    (initialisedAt s first last length).xStartAddr = s.xStartAddr :=
  (headersWritten_writes s first last length).xStartAddr

end

/-- `HeapInit` for any array, given the values it computes. -/
theorem heapInit_eq_initialisedAt {first total last length : ℕ}
    (aligned : alignedHeap s.heap = (first, total))
    (marker : wsub (wadd first total) xHeapStructSize &&& wnot portByteAlignmentMask = last)
    (rest : wsub last first = length) : heapInit s = initialisedAt s first last length := by
  have word : length < 2 ^ 32 := rest ▸ Nat.mod_lt _ (by decide)
  have stored : ∀ t : State, ((t.setSize first length).setNext first last).size first = length :=
    fun t => by rw [State.size_setNext_self, State.size_setSize_self word]
  simp only [heapInit, aligned, marker, rest, State.setSize_pxEnd, State.setNext_pxEnd,
    State.size_setMinimumEverFreeBytesRemaining, stored]
  rfl

/-! ### The array of a region -/

/-- The record belongs to the region: `heap_cfg` has set its fixed members. -/
structure Configured (r : Region) (s : State) : Prop where
  ucHeap : s.heap.ucHeap = r.ucHeap
  total : s.heap.configTotalHeapSize = r.configTotalHeapSize
  xStartAddr : s.xStartAddr = r.xStartAddr

/-- The free block of a freshly initialised heap. -/
def Region.whole (r : Region) : Block := ⟨r.lo, r.hi - r.lo⟩

/-- The record points at both ends of the array. -/
def opened (r : Region) (s : State) : State :=
  { s with heap := { s.heap with
      xStart := { pxNextFreeBlock := r.lo, xBlockSize := 0 }
      pxEnd := r.hi } }

/-- The first header and the end marker are written. -/
def laidOut (r : Region) (s : State) : State :=
  ((((opened r s).setSize r.hi 0).setNext r.hi 0).setSize r.lo (r.hi - r.lo)).setNext r.lo r.hi

/-- The state after `HeapInit`. -/
def initialised (r : Region) (s : State) : State :=
  { ((laidOut r s).setMinimumEverFreeBytesRemaining (r.hi - r.lo)).setFreeBytesRemaining
      (r.hi - r.lo) with xBlockAllocatedBit := 2 ^ 31 }

theorem initialised_eq (r : Region) (s : State) :
    initialised r s = initialisedAt s r.lo r.hi (r.hi - r.lo) := rfl

@[simp] theorem initialised_next {p : ℕ} : (initialised r s).next p = (laidOut r s).next p := by
  rw [initialised_eq, initialisedAt_next]
  rfl

@[simp] theorem initialised_size {p : ℕ} : (initialised r s).size p = (laidOut r s).size p := by
  rw [initialised_eq, initialisedAt_size]
  rfl

theorem alignedHeap_eq (h : Configured r s) :
    alignedHeap s.heap = (r.lo, r.ucHeap + r.configTotalHeapSize - r.lo) := by
  have room := r.room
  have wrap := r.no_wrap
  have small := r.size_lt
  unfold alignedHeap
  rw [h.ucHeap, h.total, portByteAlignmentMask_eq, portByteAlignment_eq, land_three]
  split_ifs with misaligned
  · have start : wadd r.ucHeap (4 - 1) &&& wnot 3 = r.lo := by
      rw [wadd_of_lt (by omega), land_wnot_three (by omega)]
      rfl
    have low := r.ucHeap_le_lo
    have high := r.lo_add_le_hi
    have top := r.hi_add_le
    rw [start]
    dsimp only
    rw [wsub_of_le low (by omega), wsub_of_le (by unfold Region.lo; omega) (by omega)]
    simp only [Prod.mk.injEq, true_and]
    omega
  · have start : r.lo = r.ucHeap := by
      unfold Region.lo
      omega
    rw [start]
    simp only [Prod.mk.injEq, true_and]
    omega

theorem endAddress_eq (r : Region) :
    wsub (wadd r.lo (r.ucHeap + r.configTotalHeapSize - r.lo)) xHeapStructSize &&&
      wnot portByteAlignmentMask = r.hi := by
  have room := r.room
  have wrap := r.no_wrap
  have low : r.lo + 16 ≤ r.ucHeap + r.configTotalHeapSize := room
  have sum : wsub (wadd r.lo (r.ucHeap + r.configTotalHeapSize - r.lo)) xHeapStructSize =
      r.ucHeap + r.configTotalHeapSize - 8 := by
    rw [xHeapStructSize_eq]
    unfold wadd wsub
    omega
  rw [sum, portByteAlignmentMask_eq, land_wnot_three (by omega)]
  rfl

theorem heapInit_eq (h : Configured r s) : heapInit s = initialised r s := by
  have low := r.lo_add_le_hi
  have top := r.hi_add_le
  have wrap := r.no_wrap
  have length : wsub r.hi r.lo = r.hi - r.lo := wsub_of_le (by omega) (by omega)
  rw [initialised_eq]
  exact heapInit_eq_initialisedAt (alignedHeap_eq h) (endAddress_eq r) length

theorem Configured.cleared (h : Configured r s) : Configured r s.cleared :=
  ⟨h.ucHeap, h.total, h.xStartAddr⟩

theorem reinit_eq (h : Configured r s) : reinit s = initialised r s.cleared :=
  heapInit_eq h.cleared

/-- Initialisation writes the first header and the end marker. -/
theorem initialised_mem {x : ℕ} (low : x < r.lo ∨ r.lo + 8 ≤ x) (high : x < r.hi ∨ r.hi + 8 ≤ x) :
    (initialised r s).mem x = s.mem x := by
  have written : (laidOut r s).mem x = s.mem x := by
    unfold laidOut
    rw [State.setNext_mem_of_outside (.inr low), State.setSize_mem_of_outside (.inr low),
      State.setNext_mem_of_outside (.inr high), State.setSize_mem_of_outside (.inr high)]
    rfl
  exact written

/-- Both lie in the array. -/
theorem initialised_mem_outside {x : ℕ} (hx : ¬ r.Holds x) : (initialised r s).mem x = s.mem x := by
  have low := r.ucHeap_le_lo
  have high := r.hi_add_le
  have room := r.lo_add_le_hi
  unfold Region.Holds at hx
  exact initialised_mem (by omega) (by omega)

/-- Initialisation sets the ends of the list and both byte counters, and leaves the
other members of the record. -/
theorem initialised_heap (r : Region) (s : State) : (initialised r s).heap = { s.heap with
    xStart := (initialised r s).heap.xStart
    pxEnd := r.hi
    xFreeBytesRemaining := r.hi - r.lo
    xMinimumEverFreeBytesRemaining := r.hi - r.lo } := by
  rw [initialised_eq]
  exact initialisedAt_heap s r.lo r.hi (r.hi - r.lo)

theorem initialised_xStartAddr : (initialised r s).xStartAddr = s.xStartAddr := by
  rw [initialised_eq, initialisedAt_xStartAddr]

theorem whole_layout (r : Region) : Layout r [r.whole] [] where
  aligned b hb := by
    have low := r.lo_mod
    have high := r.hi_mod
    have room := r.lo_add_le_hi
    simp only [List.append_nil, List.mem_singleton] at hb
    subst hb
    simp only [Region.whole]
    omega
  large b hb := by
    have room := r.lo_add_le_hi
    simp only [List.append_nil, List.mem_singleton] at hb
    subst hb
    simp only [Region.whole]
    omega
  tiles x := by
    have room := r.lo_add_le_hi
    simp only [List.append_nil, coverage_cons, coverage_nil, Nat.zero_add]
    -- the only block contains exactly the addresses of the region
    refine if_congr ?_ rfl rfl
    simp only [Block.Contains, Block.stop, Region.whole]
    omega
  separated := List.pairwise_singleton _ _

/-- A freshly initialised heap is one free block. -/
theorem heapInit_represents (h : Configured r s) :
    Represents r (heapInit s) [r.whole] [] := by
  rw [heapInit_eq h]
  have low := r.lo_add_le_hi
  have top := r.hi_add_le
  have wrap := r.no_wrap
  -- three headers that do not overlap: a write to one is not seen in another
  have apartEnd : Apart r.hi r.lo := Or.inr low
  have apartLo : Apart r.lo r.xStartAddr := (r.apart_xStartAddr le_rfl (by omega)).symm
  have apartHi : Apart r.hi r.xStartAddr := (r.apart_xStartAddr (by omega) le_rfl).symm
  have xStartNext : (initialised r s).next r.xStartAddr = r.lo := by
    rw [initialised_next, laidOut, State.next_setNext_of_apart apartLo,
      State.next_setSize_of_apart apartLo, State.next_setNext_of_apart apartHi,
      State.next_setSize_of_apart apartHi]
    simp [State.next, opened, h.xStartAddr]
  have xStartSize : (initialised r s).size r.xStartAddr = 0 := by
    rw [initialised_size, laidOut, State.size_setNext_of_apart apartLo,
      State.size_setSize_of_apart apartLo, State.size_setNext_of_apart apartHi,
      State.size_setSize_of_apart apartHi]
    simp [State.size, opened, h.xStartAddr]
  have firstNext : (initialised r s).next r.lo = r.hi := by
    rw [initialised_next, laidOut, State.next_setNext_self (by omega)]
  have firstSize : (initialised r s).size r.lo = r.hi - r.lo := by
    rw [initialised_size, laidOut, State.size_setNext_self, State.size_setSize_self (by omega)]
  have endNext : (initialised r s).next r.hi = 0 := by
    rw [initialised_next, laidOut, State.next_setNext_of_apart apartEnd.symm,
      State.next_setSize_of_apart apartEnd.symm, State.next_setNext_self (by decide)]
  have endSize : (initialised r s).size r.hi = 0 := by
    rw [initialised_size, laidOut, State.size_setNext_of_apart apartEnd.symm,
      State.size_setSize_of_apart apartEnd.symm, State.size_setNext_self,
      State.size_setSize_self (by decide)]
  exact {
    layout := whole_layout r
    ucHeap := by
      rw [initialised_heap]
      exact h.ucHeap
    total := by
      rw [initialised_heap]
      exact h.total
    xStartAddr := initialised_xStartAddr.trans h.xStartAddr
    pxEnd := by rw [initialised_heap]
    bit := rfl
    linked := by
      refine Linked.cons_cons.mpr ⟨xStartNext, Linked.cons_cons.mpr ⟨firstNext, ?_⟩⟩
      exact Linked.singleton _ _
    startSize := xStartSize
    freeSize := by
      intro b hb
      rw [List.mem_singleton.mp hb]
      exact firstSize
    endNext := endNext
    endSize := endSize
    liveNext := by simp
    liveSize := by simp
    freeBytes := by
      rw [initialised_heap]
      simp [Region.whole] }

end Components.Allocator
