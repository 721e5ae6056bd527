import Components.Math.ByteMemory
import Components.Math.Word
import Components.Semantics.While

/-!
# The allocator of `heap.c`

The functions of `src/heap/heap.c` on a machine with 32-bit `size_t` and pointers.
Block headers live in byte-addressed memory, inside the array the allocator
manages; the `Heap_t` record and the static `xBlockAllocatedBit` are kept beside
it. Pointers are addresses and `NULL` is `0`. A `BlockLink_t *` may also point at
the `xStart` member of the record, so header accesses dispatch on its address.

Sizes and addresses are words: every sum and difference that the C code forms is
reduced modulo `2 ^ 32`. `configASSERT` is `assert`, so a failed check aborts
unless the program is compiled with `NDEBUG`, which is a parameter here. The two
list walks are while loops over a memory they do not write; a walk of `2 ^ 32`
links has met a node twice and never ends, which is reported as a divergence.

## Main definitions

* `BlockLink`, `Heap`, `State` — the data of `heap_private.h`
* `heapInit`, `prvInsertBlockIntoFreeList`, `portMalloc`, `portFree`, `reinit`
-/

namespace Components.Allocator

open Word

/-- `BlockLink_t`: the header in front of every block. -/
structure BlockLink where
  /-- The next free block in the list. -/
  pxNextFreeBlock : ℕ
  /-- The size of the free block. -/
  xBlockSize : ℕ
  deriving DecidableEq, Repr

/-- `Heap_t`, one record for each configured heap. -/
structure Heap where
  configTotalHeapSize : ℕ
  ucHeap : ℕ
  heap : ℕ
  namep : Option String
  xStart : BlockLink
  pxEnd : ℕ
  xFreeBytesRemaining : ℕ
  xMinimumEverFreeBytesRemaining : ℕ
  xNumberOfSuccessfulAllocations : ℕ
  xNumberOfSuccessfulFrees : ℕ
  deriving DecidableEq, Repr

/-- What the allocator functions read and write: memory, one heap record and the
static tag bit. `xStartAddr` is the address of `heap->xStart`. -/
structure State where
  mem : ByteMemory
  heap : Heap
  xStartAddr : ℕ
  xBlockAllocatedBit : ℕ

/-- The `configASSERT` calls of `PortMalloc` and `PortFree`, in source order. -/
inductive Assertion
  | wantedSizeAligned
  | newBlockAligned
  | returnAligned
  | blockAllocated
  | blockUnlinked
  deriving DecidableEq, Repr

/-- The ways a call can fail to return. -/
inductive Fault
  | assertion (site : Assertion)
  | divergence
  deriving DecidableEq, Repr

/-- `configASSERT( cond )`. -/
def configASSERT (ndebug : Bool) (site : Assertion) (cond : Prop) [Decidable cond] :
    Except Fault Unit :=
  if ndebug ∨ cond then .ok () else .error (.assertion site)

/-- A loop over read-only memory, whose state is a bounded number of pointers. -/
def loop {σ : Type} (cond : σ → Bool) (body : σ → σ) (s : σ) : Except Fault σ :=
  match whileLoop cond body (2 ^ 32) s with
  | some s' => .ok s'
  | none => .error .divergence

/-! ### Constants -/

/-- `portBYTE_ALIGNMENT`. -/
def portByteAlignment : ℕ := 4

/-- `portBYTE_ALIGNMENT_MASK`. -/
def portByteAlignmentMask : ℕ := portByteAlignment - 1

/-- `sizeof( BlockLink_t )`: a pointer and a `size_t`. -/
def sizeofBlockLink : ℕ := 8

/-- The header size rounded up to the alignment. -/
def xHeapStructSize : ℕ :=
  wadd sizeofBlockLink (portByteAlignment - 1) &&& wnot portByteAlignmentMask

/-- `heapMINIMUM_BLOCK_SIZE`. -/
def heapMinimumBlockSize : ℕ := xHeapStructSize <<< 1

@[simp] theorem portByteAlignment_eq : portByteAlignment = 4 := rfl

@[simp] theorem portByteAlignmentMask_eq : portByteAlignmentMask = 3 := rfl

@[simp] theorem xHeapStructSize_eq : xHeapStructSize = 8 := by decide

@[simp] theorem heapMinimumBlockSize_eq : heapMinimumBlockSize = 16 := by decide

/-! ### Header accesses -/

namespace State

/-- `p->pxNextFreeBlock`. -/
def next (s : State) (p : ℕ) : ℕ :=
  if p = s.xStartAddr then s.heap.xStart.pxNextFreeBlock else s.mem.load32 p

/-- `p->xBlockSize`. -/
def size (s : State) (p : ℕ) : ℕ :=
  if p = s.xStartAddr then s.heap.xStart.xBlockSize else s.mem.load32 (p + 4)

/-- `p->pxNextFreeBlock = v`. -/
def setNext (s : State) (p v : ℕ) : State :=
  if p = s.xStartAddr then
    { s with heap := { s.heap with xStart := { s.heap.xStart with pxNextFreeBlock := v } } }
  else { s with mem := s.mem.store32 p v }

/-- `p->xBlockSize = v`. -/
def setSize (s : State) (p v : ℕ) : State :=
  if p = s.xStartAddr then
    { s with heap := { s.heap with xStart := { s.heap.xStart with xBlockSize := v } } }
  else { s with mem := s.mem.store32 (p + 4) v }

/-- `heap->xFreeBytesRemaining = v`. -/
def setFreeBytesRemaining (s : State) (v : ℕ) : State :=
  { s with heap := { s.heap with xFreeBytesRemaining := v } }

/-- `heap->xMinimumEverFreeBytesRemaining = v`. -/
def setMinimumEverFreeBytesRemaining (s : State) (v : ℕ) : State :=
  { s with heap := { s.heap with xMinimumEverFreeBytesRemaining := v } }

/-- `heap->xNumberOfSuccessfulAllocations++`. -/
def countAllocation (s : State) : State :=
  { s with heap := { s.heap with
      xNumberOfSuccessfulAllocations := wadd s.heap.xNumberOfSuccessfulAllocations 1 } }

/-- `heap->xNumberOfSuccessfulFrees++`. -/
def countFree (s : State) : State :=
  { s with heap := { s.heap with
      xNumberOfSuccessfulFrees := wadd s.heap.xNumberOfSuccessfulFrees 1 } }

end State

/-! ### `HeapInit` -/

/-- The first address of the array that is aligned, and the bytes left from there. -/
def alignedHeap (h : Heap) : ℕ × ℕ :=
  if h.ucHeap &&& portByteAlignmentMask ≠ 0 then
    let uxAddress := wadd h.ucHeap (portByteAlignment - 1) &&& wnot portByteAlignmentMask
    (uxAddress, wsub h.configTotalHeapSize (wsub uxAddress h.ucHeap))
  else (h.ucHeap, h.configTotalHeapSize)

/-- `HeapInit`: one free block from the aligned start to `pxEnd`. -/
def heapInit (s : State) : State :=
  -- the list starts in the record, outside the array
  let (pucAlignedHeap, xTotalHeapSize) := alignedHeap s.heap
  let s := { s with heap := { s.heap with
    xStart := { pxNextFreeBlock := pucAlignedHeap, xBlockSize := 0 } } }
  -- `pxEnd` is the last aligned header of the array, an empty block without a successor
  let uxAddress := wsub (wadd pucAlignedHeap xTotalHeapSize) xHeapStructSize &&&
    wnot portByteAlignmentMask
  let s := { s with heap := { s.heap with pxEnd := uxAddress } }
  let s := s.setSize s.heap.pxEnd 0
  let s := s.setNext s.heap.pxEnd 0
  -- all the rest is one free block
  let pxFirstFreeBlock := pucAlignedHeap
  let s := s.setSize pxFirstFreeBlock (wsub uxAddress pxFirstFreeBlock)
  let s := s.setNext pxFirstFreeBlock s.heap.pxEnd
  let s := s.setMinimumEverFreeBytesRemaining (s.size pxFirstFreeBlock)
  let s := s.setFreeBytesRemaining (s.size pxFirstFreeBlock)
  { s with xBlockAllocatedBit := 1 <<< (4 * 8 - 1) }

/-! ### `prvInsertBlockIntoFreeList` -/

/-- The links after the position is found: merge with the block before, merge with
the block after, and link the predecessor unless it was merged. -/
def linkBlock (s : State) (pxIterator pxBlockToInsert : ℕ) : State :=
  -- the block before ends where this one starts: it grows, and takes its place
  let merged := wadd pxIterator (s.size pxIterator) = pxBlockToInsert
  let s := if merged then
      s.setSize pxIterator (wadd (s.size pxIterator) (s.size pxBlockToInsert))
    else s
  let pxBlockToInsert := if merged then pxIterator else pxBlockToInsert
  let s :=
    -- the block after starts where this one ends; `pxEnd` is never merged
    if wadd pxBlockToInsert (s.size pxBlockToInsert) = s.next pxIterator then
      if s.next pxIterator ≠ s.heap.pxEnd then
        let s := s.setSize pxBlockToInsert
          (wadd (s.size pxBlockToInsert) (s.size (s.next pxIterator)))
        s.setNext pxBlockToInsert (s.next (s.next pxIterator))
      else s.setNext pxBlockToInsert s.heap.pxEnd
    else s.setNext pxBlockToInsert (s.next pxIterator)
  -- after a merge with the block before, the predecessor already points here
  if pxIterator ≠ pxBlockToInsert then s.setNext pxIterator pxBlockToInsert else s

/-- `prvInsertBlockIntoFreeList`: walk to the last node below the block, then link. -/
def prvInsertBlockIntoFreeList (s : State) (pxBlockToInsert : ℕ) : Except Fault State := do
  let pxIterator ← loop (fun p => s.next p < pxBlockToInsert) s.next s.xStartAddr
  return linkBlock s pxIterator pxBlockToInsert

/-! ### `PortMalloc` -/

/-- The requested size plus a header, rounded up to the alignment, or `0` when that
overflows or nothing was requested. -/
def wantedBlockSize (ndebug : Bool) (xWantedSize : ℕ) : Except Fault ℕ :=
  -- the sum with a header may wrap, and so may the padding
  if 0 < xWantedSize ∧ wadd xWantedSize xHeapStructSize > xWantedSize then
    let xWantedSize := wadd xWantedSize xHeapStructSize
    if xWantedSize &&& portByteAlignmentMask ≠ 0 then
      let padding := wsub portByteAlignment (xWantedSize &&& portByteAlignmentMask)
      if wadd xWantedSize padding > xWantedSize then do
        let xWantedSize := wadd xWantedSize padding
        configASSERT ndebug .wantedSizeAligned (xWantedSize &&& portByteAlignmentMask = 0)
        return xWantedSize
      else return 0
    else return xWantedSize
  else return 0

/-- The first block of adequate size with its predecessor, or `pxEnd` with its
predecessor. -/
def findBlock (s : State) (xWantedSize : ℕ) : Except Fault (ℕ × ℕ) :=
  loop (fun p : ℕ × ℕ => s.size p.2 < xWantedSize ∧ s.next p.2 ≠ 0) (fun p => (p.2, s.next p.2))
    (s.xStartAddr, s.next s.xStartAddr)

/-- Keep `xWantedSize` bytes of the block and return the rest to the free list when
it is larger than the minimum block size. -/
def splitBlock (ndebug : Bool) (s : State) (pxBlock xWantedSize : ℕ) : Except Fault State :=
  if wsub (s.size pxBlock) xWantedSize > heapMinimumBlockSize then do
    let pxNewBlockLink := wadd pxBlock xWantedSize
    configASSERT ndebug .newBlockAligned (pxNewBlockLink &&& portByteAlignmentMask = 0)
    -- the sizes are written before the rest is inserted, which reads them
    let s := s.setSize pxNewBlockLink (wsub (s.size pxBlock) xWantedSize)
    let s := s.setSize pxBlock xWantedSize
    prvInsertBlockIntoFreeList s pxNewBlockLink
  else return s

/-- Take the found block out of the free list, split it, and hand it out. -/
def takeBlock (ndebug : Bool) (s : State) (pxPreviousBlock pxBlock xWantedSize : ℕ) :
    Except Fault (State × ℕ) := do
  let pvReturn := wadd (s.next pxPreviousBlock) xHeapStructSize
  let s := s.setNext pxPreviousBlock (s.next pxBlock)
  let s ← splitBlock ndebug s pxBlock xWantedSize
  -- the size of the block is that after the split
  let s := s.setFreeBytesRemaining (wsub s.heap.xFreeBytesRemaining (s.size pxBlock))
  let s := if s.heap.xFreeBytesRemaining < s.heap.xMinimumEverFreeBytesRemaining then
      s.setMinimumEverFreeBytesRemaining s.heap.xFreeBytesRemaining
    else s
  -- the top bit marks the block, and a live block has no successor
  let s := s.setSize pxBlock (s.size pxBlock ||| s.xBlockAllocatedBit)
  let s := s.setNext pxBlock 0
  let s := s.countAllocation
  return (s, pvReturn)

/-- The part of `PortMalloc` after the lazy initialisation. -/
def allocate (ndebug : Bool) (s : State) (xWantedSize : ℕ) : Except Fault (State × ℕ) :=
  -- a size with the top bit set is refused
  if xWantedSize &&& s.xBlockAllocatedBit = 0 then do
    let xWantedSize ← wantedBlockSize ndebug xWantedSize
    if 0 < xWantedSize ∧ xWantedSize ≤ s.heap.xFreeBytesRemaining then
      let (pxPreviousBlock, pxBlock) ← findBlock s xWantedSize
      if pxBlock ≠ s.heap.pxEnd then takeBlock ndebug s pxPreviousBlock pxBlock xWantedSize
      else return (s, 0)
    else return (s, 0)
  else return (s, 0)

/-- The lazy initialisation at the top of `PortMalloc`. -/
def ensureInit (s : State) : State := if s.heap.pxEnd = 0 then heapInit s else s

/-- `PortMalloc`: initialise on the first call, then allocate. -/
def portMalloc (ndebug : Bool) (s : State) (xWantedSize : ℕ) : Except Fault (State × ℕ) := do
  let (s, pvReturn) ← allocate ndebug (ensureInit s) xWantedSize
  configASSERT ndebug .returnAligned (pvReturn &&& portByteAlignmentMask = 0)
  return (s, pvReturn)

/-! ### `PortFree` and `name_reinit` -/

/-- `PortFree`. -/
def portFree (ndebug : Bool) (s : State) (pv : ℕ) : Except Fault State :=
  if pv ≠ 0 then do
    -- the header stands before the payload
    let pxLink := wsub pv xHeapStructSize
    configASSERT ndebug .blockAllocated (s.size pxLink &&& s.xBlockAllocatedBit ≠ 0)
    configASSERT ndebug .blockUnlinked (s.next pxLink = 0)
    -- the same checks again, for when assertions are compiled out
    if s.size pxLink &&& s.xBlockAllocatedBit ≠ 0 then
      if s.next pxLink = 0 then
        let s := s.setSize pxLink (s.size pxLink &&& wnot s.xBlockAllocatedBit)
        let s := s.setFreeBytesRemaining (wadd s.heap.xFreeBytesRemaining (s.size pxLink))
        let s ← prvInsertBlockIntoFreeList s pxLink
        return s.countFree
      else return s
    else return s
  else return s

/-- The record with its list and its counters cleared. -/
def State.cleared (s : State) : State :=
  { s with heap := { s.heap with
    xStart := { pxNextFreeBlock := 0, xBlockSize := 0 }
    pxEnd := 0
    xFreeBytesRemaining := 0
    xMinimumEverFreeBytesRemaining := 0
    xNumberOfSuccessfulAllocations := 0
    xNumberOfSuccessfulFrees := 0 } }

/-- `name_reinit`: clear the record and initialise it again. -/
def reinit (s : State) : State := heapInit s.cleared

end Components.Allocator
