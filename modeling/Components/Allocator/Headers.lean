import Components.Allocator.Basic

/-!
# Header accesses that do not interfere

Two headers are *apart* when their eight bytes do not overlap. A write to one
header then leaves the other alone, also when one of them is the `xStart` member
of the heap record. Every argument about the free list reads memory only through
the lemmas of this file.
-/

namespace Components.Allocator

open ByteMemory

/-- The headers at `p` and `q` do not overlap. -/
def Apart (p q : ℕ) : Prop := p + 8 ≤ q ∨ q + 8 ≤ p

theorem Apart.symm {p q : ℕ} (h : Apart p q) : Apart q p := Or.symm h

theorem Apart.ne {p q : ℕ} (h : Apart p q) : p ≠ q := by
  unfold Apart at h
  omega

namespace State

variable {s : State} {p q v x : ℕ}

/-! ### What a header write leaves alone -/

@[simp] theorem setNext_xStartAddr : (s.setNext p v).xStartAddr = s.xStartAddr := by
  unfold setNext
  split_ifs <;> rfl

@[simp] theorem setSize_xStartAddr : (s.setSize p v).xStartAddr = s.xStartAddr := by
  unfold setSize
  split_ifs <;> rfl

@[simp] theorem setNext_bit : (s.setNext p v).xBlockAllocatedBit = s.xBlockAllocatedBit := by
  unfold setNext
  split_ifs <;> rfl

@[simp] theorem setSize_bit : (s.setSize p v).xBlockAllocatedBit = s.xBlockAllocatedBit := by
  unfold setSize
  split_ifs <;> rfl

/-- A header write changes the record in `xStart` only. -/
theorem setNext_heap : (s.setNext p v).heap =
    { s.heap with xStart := (s.setNext p v).heap.xStart } := by
  unfold setNext
  split_ifs <;> rfl

theorem setSize_heap : (s.setSize p v).heap =
    { s.heap with xStart := (s.setSize p v).heap.xStart } := by
  unfold setSize
  split_ifs <;> rfl

@[simp] theorem setNext_pxEnd : (s.setNext p v).heap.pxEnd = s.heap.pxEnd := by
  rw [setNext_heap]

@[simp] theorem setSize_pxEnd : (s.setSize p v).heap.pxEnd = s.heap.pxEnd := by
  rw [setSize_heap]

@[simp] theorem setNext_free :
    (s.setNext p v).heap.xFreeBytesRemaining = s.heap.xFreeBytesRemaining := by
  rw [setNext_heap]

@[simp] theorem setSize_free :
    (s.setSize p v).heap.xFreeBytesRemaining = s.heap.xFreeBytesRemaining := by
  rw [setSize_heap]

/-! ### Counters are no part of a header -/

@[simp] theorem size_setMinimumEverFreeBytesRemaining :
    (s.setMinimumEverFreeBytesRemaining v).size p = s.size p := rfl

@[simp] theorem size_setFreeBytesRemaining : (s.setFreeBytesRemaining v).size p = s.size p := rfl

@[simp] theorem next_setFreeBytesRemaining : (s.setFreeBytesRemaining v).next p = s.next p := rfl

@[simp] theorem size_countAllocation : s.countAllocation.size p = s.size p := rfl

@[simp] theorem next_countAllocation : s.countAllocation.next p = s.next p := rfl

/-! ### Reading a header after a write -/

theorem next_setNext_self (hv : v < 2 ^ 32) : (s.setNext p v).next p = v := by
  unfold setNext next
  split_ifs with h
  · rfl
  · exact load32_store32_self hv

theorem size_setSize_self (hv : v < 2 ^ 32) : (s.setSize p v).size p = v := by
  unfold setSize size
  split_ifs with h
  · rfl
  · exact load32_store32_self hv

@[simp] theorem next_setSize_self : (s.setSize p v).next p = s.next p := by
  unfold setSize next
  split_ifs with h
  · rfl
  · exact load32_store32_of_disjoint (by omega)

@[simp] theorem size_setNext_self : (s.setNext p v).size p = s.size p := by
  unfold setNext size
  split_ifs with h
  · rfl
  · exact load32_store32_of_disjoint (by omega)

variable (h : Apart p q)
include h

theorem next_setNext_of_apart : (s.setNext p v).next q = s.next q := by
  unfold setNext next
  split_ifs with hp hq
  · exact absurd (hp.trans hq.symm) h.ne
  · rfl
  · rfl
  · unfold Apart at h
    exact load32_store32_of_disjoint (by omega)

theorem next_setSize_of_apart : (s.setSize p v).next q = s.next q := by
  unfold setSize next
  split_ifs with hp hq
  · exact absurd (hp.trans hq.symm) h.ne
  · rfl
  · rfl
  · unfold Apart at h
    exact load32_store32_of_disjoint (by omega)

theorem size_setNext_of_apart : (s.setNext p v).size q = s.size q := by
  unfold setNext size
  split_ifs with hp hq
  · exact absurd (hp.trans hq.symm) h.ne
  · rfl
  · rfl
  · unfold Apart at h
    exact load32_store32_of_disjoint (by omega)

theorem size_setSize_of_apart : (s.setSize p v).size q = s.size q := by
  unfold setSize size
  split_ifs with hp hq
  · exact absurd (hp.trans hq.symm) h.ne
  · rfl
  · rfl
  · unfold Apart at h
    exact load32_store32_of_disjoint (by omega)

omit h

/-! ### The bytes a header write touches -/

theorem setNext_mem_of_outside (h : p = s.xStartAddr ∨ x < p ∨ p + 8 ≤ x) :
    (s.setNext p v).mem x = s.mem x := by
  unfold setNext
  split_ifs with hp
  · rfl
  · exact store32_apply_of_outside (by omega)

theorem setSize_mem_of_outside (h : p = s.xStartAddr ∨ x < p ∨ p + 8 ≤ x) :
    (s.setSize p v).mem x = s.mem x := by
  unfold setSize
  split_ifs with hp
  · rfl
  · exact store32_apply_of_outside (by omega)

end State

end Components.Allocator
