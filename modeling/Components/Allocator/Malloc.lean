import Components.Allocator.FreeList

/-!
# `PortMalloc` on an initialised heap

A request is turned into a block size, the free list is searched for the first
block that is large enough, and the block is taken out, split when enough remains,
and tagged. Each helper gets the equation for the path it takes on a represented
heap; `portMalloc_refused` and `portMalloc_served` put them together.

## Main definitions

* `needed` — the block size a request needs, in exact arithmetic
* `firstFit` — the free block that serves it
* `taken`, `remainder` — what becomes of the block that is found
* `handOut` — the state `PortMalloc` leaves behind

## Main results

* `portMalloc_refused`, `portMalloc_served` — the two ways `PortMalloc` can go
* `handOut_represents` — what a successful call leaves behind
-/

namespace Components.Allocator

open Word

variable {r : Region} {s : State} {free live l₁ l₂ : List Block} {a b : Block} {k n : ℕ}
  {ndebug : Bool}

/-! ### The size of the block -/

/-- The request plus a header, rounded up to the alignment. -/
def needed (n : ℕ) : ℕ := (n + 8 + 3) / 4 * 4

theorem needed_mod (n : ℕ) : needed n % 4 = 0 := by
  unfold needed
  omega

theorem lt_needed (n : ℕ) : n + 8 ≤ needed n := by
  unfold needed
  omega

theorem eight_le_needed (n : ℕ) : 8 ≤ needed n := (Nat.le_add_left 8 n).trans (lt_needed n)

/-- No guard in the size computation fires for a request below `2 ^ 31`. -/
theorem wantedBlockSize_eq (ndebug : Bool) (pos : 0 < n) (hn : n < 2 ^ 31) :
    wantedBlockSize ndebug n = .ok (needed n) := by
  have sum : wadd n 8 = n + 8 := wadd_of_lt (by omega)
  simp only [wantedBlockSize, xHeapStructSize_eq, sum, portByteAlignmentMask_eq,
    portByteAlignment_eq, land_three]
  rw [if_pos ⟨pos, by omega⟩]
  split_ifs with misaligned overflow
  · have padding : wsub 4 ((n + 8) % 4) = 4 - (n + 8) % 4 := wsub_of_le (by omega) (by omega)
    have padded : wadd (n + 8) (4 - (n + 8) % 4) = needed n := by
      rw [wadd_of_lt (by omega)]
      unfold needed
      omega
    rw [padding, padded, configASSERT, if_pos (Or.inr (needed_mod n))]
    rfl
  · have padding : wsub 4 ((n + 8) % 4) = 4 - (n + 8) % 4 := wsub_of_le (by omega) (by omega)
    -- the guard against a wrap of the padding is not reached
    rw [padding, wadd_of_lt (by omega)] at overflow
    omega
  · have exact : needed n = n + 8 := by
      unfold needed
      omega
    rw [exact]
    rfl

/-- The free block a request is served from. -/
def firstFit (free : List Block) (n : ℕ) : Option Block :=
  if 0 < n ∧ n < 2 ^ 31 then free.find? fun b => needed n ≤ b.size else none

/-! ### The search -/

namespace Represents

theorem next_ne_zero (h : Represents r s (l₁ ++ a :: l₂) live) : s.next a.start ≠ 0 := by
  have stop := h.stop_le_firstNode
  have large := h.layout.large a (by simp)
  rw [h.next_block]
  unfold Block.stop at stop
  omega

/-- The search stops at the first node after blocks that are all too small, if that
node is large enough or the end marker. -/
theorem findBlock_eq (h : Represents r s (l₁ ++ l₂) live) (small : ∀ a ∈ l₁, a.size < k)
    (stop : k ≤ s.size (firstNode r l₂) ∨ s.next (firstNode r l₂) = 0) :
    findBlock s k = .ok (lastNode r l₁, firstNode r l₂) := by
  obtain ⟨A, B, hA, -, -, hnodes⟩ := nodes_append r l₁ l₂
  have linked : Linked s.next (r.xStartAddr :: l₁.map Block.start ++ [firstNode r l₂]) := by
    have all := h.linked
    have prefixes : A ++ lastNode r l₁ :: firstNode r l₂ :: B =
        A ++ [lastNode r l₁] ++ firstNode r l₂ :: B := by simp
    rw [hnodes, prefixes] at all
    rw [hA]
    exact (Linked.split.mp all).1
  have short : (l₁.map Block.start).length < 2 ^ 32 := by
    have len := h.layout.length_free_lt
    rw [List.length_append] at len
    rw [List.length_map]
    omega
  -- no block before the first fit stops the walk: it is too small and has a successor
  have onward : ∀ p ∈ l₁.map Block.start, decide (s.size p < k ∧ s.next p ≠ 0) = true := by
    intro p hp
    obtain ⟨a, ha, rfl⟩ := List.mem_map.mp hp
    obtain ⟨l, l', rfl⟩ := List.append_of_mem ha
    have link : Represents r s (l ++ a :: (l' ++ l₂)) live := by simpa using h
    have size : s.size a.start = a.size := h.freeSize a (by simp)
    simp [size, small a ha, link.next_ne_zero]
  have reached : decide (s.size (firstNode r l₂) < k ∧ s.next (firstNode r l₂) ≠ 0) = false := by
    simp only [decide_eq_false_iff_not]
    omega
  have walk := whileLoop_linked_trailing linked onward reached short
  rw [List.getLast_eq_getLastD] at walk
  unfold findBlock
  rw [h.xStartAddr]
  exact loop_of_whileLoop walk

end Represents

/-! ### Taking the block out -/

/-- The block that is handed out when `k` bytes of `b` are needed. -/
def taken (b : Block) (k : ℕ) : Block := if k + 16 < b.size then ⟨b.start, k⟩ else b

/-- The free block that stays behind, if any. -/
def remainder (b : Block) (k : ℕ) : List Block :=
  if k + 16 < b.size then [⟨b.start + k, b.size - k⟩] else []

/-- The block `b` between `l₁` and `l₂` is off the free list, its remainder is on. -/
def unlinked (r : Region) (s : State) (l₁ l₂ : List Block) (b : Block) (k : ℕ) : State :=
  let s := s.setNext (lastNode r l₁) (firstNode r l₂)
  if k + 16 < b.size then
    (((s.setSize (b.start + k) (b.size - k)).setSize b.start k).setNext (b.start + k)
      (firstNode r l₂)).setNext (lastNode r l₁) (b.start + k)
  else s

/-- The block is off the free list, and the headers of its two parts have their sizes. -/
def cutOff (r : Region) (s : State) (l₁ l₂ : List Block) (b : Block) (k : ℕ) : State :=
  ((s.setNext (lastNode r l₁) (firstNode r l₂)).setSize (b.start + k) (b.size - k)).setSize
    b.start k

/-- The block is counted and tagged. -/
def tagged (s : State) (b : Block) : State :=
  let left := s.heap.xFreeBytesRemaining - b.size
  let s := (s.setFreeBytesRemaining left).setMinimumEverFreeBytesRemaining
    (min left s.heap.xMinimumEverFreeBytesRemaining)
  ((s.setSize b.start (b.size + 2 ^ 31)).setNext b.start 0).countAllocation

/-- The state after a successful request for `k` bytes of `b`. -/
def handOut (r : Region) (s : State) (l₁ l₂ : List Block) (b : Block) (k : ℕ) : State :=
  tagged (unlinked r s l₁ l₂ b k) (taken b k)

theorem taken_start : (taken b k).start = b.start := by
  unfold taken
  split_ifs <;> rfl

theorem taken_size_le (hk : k ≤ b.size) : (taken b k).size ≤ b.size := by
  unfold taken
  split_ifs
  · exact hk
  · exact le_rfl

/-- Taking the block out writes the node before it and the headers of its two parts. -/
theorem unlinked_writes (r : Region) (s : State) (l₁ l₂ : List Block) (b : Block) (k : ℕ) :
    WritesHeaders s (unlinked r s l₁ l₂ b k)
      (lastNode r l₁ :: b.start :: (remainder b k).map Block.start) := by
  unfold unlinked remainder
  split_ifs with splits
  · exact (((((WritesHeaders.refl s _).setNext (by simp)).setSize (by simp)).setSize
      (by simp)).setNext (by simp)).setNext (by simp)
  · exact (WritesHeaders.refl s _).setNext (by simp)

theorem tagged_touches (s : State) (b : Block) : Touches s (tagged s b) [b.start] :=
  ((((Touches.refl s _).setFreeBytesRemaining.setMinimumEverFreeBytesRemaining.setSize
    (by simp)).setNext (by simp))).countAllocation

/-- Tagging a block sets the byte counters and counts the allocation. -/
theorem tagged_heap (s : State) (b : Block) : (tagged s b).heap = { s.heap with
    xStart := (tagged s b).heap.xStart
    xFreeBytesRemaining := s.heap.xFreeBytesRemaining - b.size
    xMinimumEverFreeBytesRemaining := min (s.heap.xFreeBytesRemaining - b.size)
      s.heap.xMinimumEverFreeBytesRemaining
    xNumberOfSuccessfulAllocations := wadd s.heap.xNumberOfSuccessfulAllocations 1 } := by
  unfold tagged State.countAllocation
  dsimp only
  rw [State.setNext_heap, State.setSize_heap]
  rfl

/-- The header of a tagged block. -/
theorem tagged_header (s : State) (small : b.size < 2 ^ 31) :
    (tagged s b).next b.start = 0 ∧ (tagged s b).size b.start = b.size + 2 ^ 31 := by
  unfold tagged
  dsimp only
  rw [State.next_countAllocation, State.next_setNext_self (by decide),
    State.size_countAllocation, State.size_setNext_self, State.size_setSize_self (by omega)]
  exact ⟨rfl, rfl⟩

/-- The bookkeeping at the end of a successful request, in exact arithmetic. -/
theorem tagged_eq (size : s.size b.start = b.size) (bit : s.xBlockAllocatedBit = 2 ^ 31)
    (enough : b.size ≤ s.heap.xFreeBytesRemaining) (bounded : s.heap.xFreeBytesRemaining < 2 ^ 32)
    (small : b.size < 2 ^ 31) :
    (let s := s.setFreeBytesRemaining (wsub s.heap.xFreeBytesRemaining (s.size b.start))
    let s := if s.heap.xFreeBytesRemaining < s.heap.xMinimumEverFreeBytesRemaining then
        s.setMinimumEverFreeBytesRemaining s.heap.xFreeBytesRemaining
      else s
    let s := s.setSize b.start (s.size b.start ||| s.xBlockAllocatedBit)
    (s.setNext b.start 0).countAllocation) = tagged s b := by
  -- the minimum is only assigned when it falls, which is the same as `min`
  have lowered : ∀ t : State, (if t.heap.xFreeBytesRemaining <
      t.heap.xMinimumEverFreeBytesRemaining then
        t.setMinimumEverFreeBytesRemaining t.heap.xFreeBytesRemaining else t) =
      t.setMinimumEverFreeBytesRemaining
        (min t.heap.xFreeBytesRemaining t.heap.xMinimumEverFreeBytesRemaining) := by
    intro t
    split_ifs with lower
    · rw [min_eq_left lower.le]
    · rw [min_eq_right (not_lt.mp lower)]
      rfl
  simp only [tagged, size, wsub_of_le enough bounded, lowered,
    State.size_setMinimumEverFreeBytesRemaining, State.size_setFreeBytesRemaining]
  change State.countAllocation (State.setNext (State.setSize _ _
    (b.size ||| s.xBlockAllocatedBit)) _ _) = _
  rw [bit, lor_top small]
  rfl

theorem handOut_touches (r : Region) (s : State) (l₁ l₂ : List Block) (b : Block) (k : ℕ) :
    Touches s (handOut r s l₁ l₂ b k)
      (lastNode r l₁ :: b.start :: (remainder b k).map Block.start) := by
  have tag := tagged_touches (unlinked r s l₁ l₂ b k) (taken b k)
  rw [taken_start] at tag
  exact (unlinked_writes r s l₁ l₂ b k).toTouches.trans (tag.mono (by simp))

/-- The layout after the request. -/
theorem Layout.handOut (h : Layout r (l₁ ++ b :: l₂) live) (hk : k % 4 = 0) (low : 8 ≤ k) :
    Layout r (l₁ ++ remainder b k ++ l₂) (taken b k :: live) := by
  unfold remainder taken
  split_ifs with splits
  · simpa using h.cut hk low (by omega)
  · simpa using h.take

namespace Represents

section Take

variable (h : Represents r s (l₁ ++ b :: l₂) live) (hk : k % 4 = 0) (low : 8 ≤ k)
  (high : k ≤ b.size)
include h hk low

/-- The header that stays behind is away from the nodes on either side of the block. -/
theorem remainder_apart (splits : k + 16 < b.size) {p : ℕ}
    (hp : p ∈ r.xStartAddr :: l₁.map Block.start ∨ p ∈ l₂.map Block.start ++ [r.hi]) :
    Apart (b.start + k) p := by
  have cut : Layout r (l₁ ++ [⟨b.start + k, b.size - k⟩] ++ l₂) (⟨b.start, k⟩ :: live) := by
    simpa using h.layout.cut hk low (by omega)
  exact cut.apart_free List.mem_cons_self hp

/-- Setting the two sizes is not seen at the other nodes. -/
theorem cutOff_other (splits : k + 16 < b.size) {p : ℕ} (hp : p ∈ nodes r (l₁ ++ l₂)) :
    (cutOff r s l₁ l₂ b k).next p = (s.setNext (lastNode r l₁) (firstNode r l₂)).next p ∧
      (cutOff r s l₁ l₂ b k).size p = (s.setNext (lastNode r l₁) (firstNode r l₂)).size p := by
  have apartB := h.single.layout.apart_free List.mem_cons_self (mem_nodes_append.mp hp)
  have apartNew := h.remainder_apart hk low splits (mem_nodes_append.mp hp)
  unfold cutOff
  rw [State.next_setSize_of_apart apartB, State.next_setSize_of_apart apartNew,
    State.size_setSize_of_apart apartB, State.size_setSize_of_apart apartNew]
  exact ⟨rfl, rfl⟩

/-- The chain without the block. -/
theorem cutOff_linked (splits : k + 16 < b.size) :
    Linked (cutOff r s l₁ l₂ b k).next (nodes r (l₁ ++ l₂)) := by
  have firstLt := h.single.layout.node_lt (firstNode_mem_nodes r (l₁ ++ [b]) l₂)
  have bypassed : Linked (s.setNext (lastNode r l₁) (firstNode r l₂)).next
      (nodes r (l₁ ++ [] ++ l₂)) := by
    refine h.single.layout.linked_splice h.single.linked
      (fun p _ away => State.next_setNext_of_apart away)
      (fun p _ away => State.next_setNext_of_apart away) ?_
    exact Linked.cons_cons.mpr ⟨State.next_setNext_self firstLt, Linked.singleton _ _⟩
  rw [List.append_nil] at bypassed
  exact bypassed.congr fun p hp => (h.cutOff_other hk low splits hp).1

/-- The remainder goes back between the neighbours of the block and merges with
neither. -/
theorem insert_remainder (splits : k + 16 < b.size) :
    prvInsertBlockIntoFreeList (cutOff r s l₁ l₂ b k) (b.start + k) =
      .ok (((cutOff r s l₁ l₂ b k).setNext (b.start + k) (firstNode r l₂)).setNext
        (lastNode r l₁) (b.start + k)) := by
  have stop := h.layout.start_add_size_lt (b := b) (by simp)
  have above := h.stop_le_firstNode
  have firstLt := h.single.layout.node_lt (firstNode_mem_nodes r (l₁ ++ [b]) l₂)
  have lastMem := lastNode_mem_nodes r l₁ l₂
  obtain ⟨-, tail, between⟩ := List.pairwise_append.mp h.layout.separated
  have below : ∀ a ∈ l₁, a.stop < b.start + k := fun a ha =>
    (between a ha b List.mem_cons_self).trans_le (Nat.le_add_right _ _)
  have writes : WritesHeaders s (cutOff r s l₁ l₂ b k) [lastNode r l₁, b.start + k, b.start] :=
    (((WritesHeaders.refl s _).setNext (by simp)).setSize (by simp)).setSize (by simp)
  have sizeNew : (cutOff r s l₁ l₂ b k).size (b.start + k) = b.size - k := by
    rw [cutOff, State.size_setSize_of_apart (Or.inl (by omega)), State.size_setSize_self (by omega)]
  have sizeLast : (cutOff r s l₁ l₂ b k).size (lastNode r l₁) = s.size (lastNode r l₁) :=
    (h.cutOff_other hk low splits lastMem).2.trans State.size_setNext_self
  have next : (cutOff r s l₁ l₂ b k).next (lastNode r l₁) = firstNode r l₂ :=
    (h.cutOff_other hk low splits lastMem).1.trans (State.next_setNext_self firstLt)
  have inserted := prvInsertBlockIntoFreeList_eq (p := b.start + k)
    (h.cutOff_linked hk low splits) (writes.xStartAddr.trans h.xStartAddr)
    (fun a ha => by have := below a ha; unfold Block.stop at this; omega)
    (by unfold Block.stop at above; omega)
    (by have := h.layout.length_free_lt; rw [List.length_append] at this; omega)
  rw [inserted]
  congr 1
  have apartLast := h.remainder_apart hk low splits (.inl (lastNode_mem_left r l₁))
  refine linkBlock_plain next ?_ ?_ apartLast.symm.ne
  · -- the block before the remainder is in use now, and the one before that ends below it
    rw [sizeLast]
    exact h.lastNode_wadd_ne (h.remainder_apart hk low splits (.inl (by simp))).ne below
  · -- after the remainder comes what came after the block: a gap or the end marker
    intro touch
    rw [sizeNew, Word.wadd_of_lt (by omega)] at touch
    rw [writes.pxEnd, h.pxEnd]
    refine firstNode_eq_hi (fun c hc => ?_) touch
    have gap := (List.pairwise_cons.mp tail).1 c hc
    unfold Block.stop at gap
    omega

include high in
/-- `PortMalloc` keeps `k` bytes of the block and puts the rest back in its place. -/
theorem splitBlock_eq (ndebug : Bool) :
    splitBlock ndebug (s.setNext (lastNode r l₁) (firstNode r l₂)) b.start k =
      .ok (unlinked r s l₁ l₂ b k) := by
  have apartLast := h.lastNode_apart
  have memB : b ∈ l₁ ++ b :: l₂ ++ live := by simp
  have stop := h.layout.start_add_size_lt memB
  have start := (h.layout.aligned b memB).1
  have size : (s.setNext (lastNode r l₁) (firstNode r l₂)).size b.start = b.size := by
    rw [State.size_setNext_of_apart apartLast.symm]
    exact h.freeSize b (by simp)
  have left : wsub b.size k = b.size - k := wsub_of_le high (by omega)
  have address : wadd b.start k = b.start + k := wadd_of_lt (by omega)
  simp only [splitBlock, size, left, address, heapMinimumBlockSize_eq, unlinked]
  by_cases splits : k + 16 < b.size
  · rw [if_pos (by omega), if_pos splits, configASSERT,
      if_pos (Or.inr (by rw [portByteAlignmentMask_eq, land_three]; omega))]
    exact h.insert_remainder hk low splits
  · rw [if_neg (by omega), if_neg splits]
    rfl

/-- The header of the block after the split. -/
theorem unlinked_size :
    (unlinked r s l₁ l₂ b k).size (taken b k).start = (taken b k).size := by
  rw [taken_start]
  have apartLast := h.lastNode_apart
  have stop := h.layout.start_add_size_lt (b := b) (by simp)
  unfold unlinked taken
  split_ifs with splits
  · have apartNew : Apart (b.start + k) b.start := Or.inr (by omega)
    rw [State.size_setNext_of_apart apartLast.symm, State.size_setNext_of_apart apartNew,
      State.size_setSize_self (by omega)]
  · rw [State.size_setNext_of_apart apartLast.symm]
    exact h.freeSize b (by simp)

include high in
/-- `PortMalloc` on the block it has found. -/
theorem takeBlock_eq (ndebug : Bool) :
    takeBlock ndebug s (lastNode r l₁) b.start k =
      .ok (handOut r s l₁ l₂ b k, b.start + 8) := by
  have writes := unlinked_writes r s l₁ l₂ b k
  have memB : b ∈ l₁ ++ b :: l₂ ++ live := by simp
  have small := h.layout.size_lt memB
  have stop := h.layout.stop_le memB
  have address : wadd b.start xHeapStructSize = b.start + 8 := by
    have top := r.hi_add_le
    have wrap := r.no_wrap
    have large := h.layout.large b memB
    unfold Block.stop at stop
    exact wadd_of_lt (by rw [xHeapStructSize_eq]; omega)
  -- the subtraction from `xFreeBytesRemaining` is exact
  have enough : (taken b k).size ≤ (unlinked r s l₁ l₂ b k).heap.xFreeBytesRemaining := by
    have part : b.size ≤ totalSize (l₁ ++ b :: l₂) := size_le_totalSize (by simp)
    rw [writes.heap]
    exact h.freeBytes ▸ (taken_size_le high).trans part
  have bounded : (unlinked r s l₁ l₂ b k).heap.xFreeBytesRemaining < 2 ^ 32 := by
    have total := h.layout.totalSize_add
    have region := r.hi_sub_lo_lt
    rw [writes.heap]
    change s.heap.xFreeBytesRemaining < _
    rw [h.freeBytes]
    omega
  have bit : (unlinked r s l₁ l₂ b k).xBlockAllocatedBit = 2 ^ 31 := writes.bit.trans h.bit
  have next : s.next (lastNode r l₁) = b.start := by
    simpa using h.next_lastNode
  have tag := tagged_eq (h.unlinked_size hk low) bit enough bounded
    ((taken_size_le high).trans_lt small)
  rw [taken_start] at tag
  simp only [takeBlock, next, address, h.next_block, h.splitBlock_eq hk low high]
  rw [handOut, ← tag]
  rfl

/-- The chain through the place where the block was. -/
theorem handOut_linked : Linked (handOut r s l₁ l₂ b k).next
    (lastNode r l₁ :: (remainder b k).map Block.start ++ [firstNode r l₂]) := by
  have apartLast := h.lastNode_apart
  have firstLt := h.single.layout.node_lt (firstNode_mem_nodes r (l₁ ++ [b]) l₂)
  have stop := h.layout.start_add_size_lt (b := b) (by simp)
  -- tagging writes the header of the block only
  have untagged : ∀ p, Apart b.start p →
      (handOut r s l₁ l₂ b k).next p = (unlinked r s l₁ l₂ b k).next p := by
    intro p apart
    refine (tagged_touches _ _).next p fun w hw => ?_
    rw [List.mem_singleton.mp hw, taken_start]
    exact apart
  unfold remainder
  split_ifs with splits
  · have apartNew : Apart (lastNode r l₁) (b.start + k) :=
      (h.remainder_apart hk low splits (.inl (lastNode_mem_left r l₁))).symm
    refine Linked.cons_cons.mpr ⟨?_, Linked.cons_cons.mpr ⟨?_, Linked.singleton _ _⟩⟩
    · rw [untagged _ apartLast, unlinked, if_pos splits]
      exact State.next_setNext_self (by omega)
    · rw [untagged _ (Or.inl (by dsimp only; omega)), unlinked, if_pos splits]
      dsimp only
      rw [State.next_setNext_of_apart apartNew, State.next_setNext_self firstLt]
  · refine Linked.cons_cons.mpr ⟨?_, Linked.singleton _ _⟩
    rw [untagged _ apartLast, unlinked, if_neg splits]
    exact State.next_setNext_self firstLt

/-- The header of what stays behind. -/
theorem handOut_remainder : ∀ d ∈ remainder b k,
    (handOut r s l₁ l₂ b k).size d.start = d.size := by
  intro d hd
  have stop := h.layout.start_add_size_lt (b := b) (by simp)
  unfold remainder at hd
  split_ifs at hd with splits
  · obtain rfl := List.mem_singleton.mp hd
    have apartNew : Apart (lastNode r l₁) (b.start + k) :=
      (h.remainder_apart hk low splits (.inl (lastNode_mem_left r l₁))).symm
    have apartB : Apart b.start (b.start + k) := Or.inl (by omega)
    have untagged := (tagged_touches (unlinked r s l₁ l₂ b k) (taken b k)).size (b.start + k)
      fun w hw => by
        rw [List.mem_singleton.mp hw, taken_start]
        exact apartB
    rw [handOut, untagged, unlinked, if_pos splits]
    dsimp only
    rw [State.size_setNext_of_apart apartNew, State.size_setNext_self,
      State.size_setSize_of_apart apartB, State.size_setSize_self (by omega)]
  · simp at hd

include high in
/-- What a successful request leaves behind. -/
theorem handOut_represents : Represents r (handOut r s l₁ l₂ b k) (l₁ ++ remainder b k ++ l₂)
    (taken b k :: live) := by
  have split := h.single
  have layout := h.layout.handOut hk low
  have apartLast := h.lastNode_apart
  have touch := handOut_touches r s l₁ l₂ b k
  have small := h.layout.size_lt (b := b) (by simp)
  have writes := unlinked_writes r s l₁ l₂ b k
  -- the written headers belong to the block or to what stays behind of it
  have owned : ∀ w ∈ b.start :: (remainder b k).map Block.start, ∀ p,
      (p ∈ r.xStartAddr :: l₁.map Block.start ∨ p ∈ l₂.map Block.start ++ [r.hi]) →
      Apart w p := by
    intro w hw p hp
    rcases List.mem_cons.mp hw with rfl | hw
    · exact split.layout.apart_free List.mem_cons_self hp
    · obtain ⟨d, hd, rfl⟩ := List.mem_map.mp hw
      exact layout.apart_free hd hp
  refine split.relink layout (M := b.start :: (remainder b k).map Block.start) rfl rfl touch
    (fun w hw p hp => owned w hw p (.inl hp)) (fun w hw p hp => owned w hw p (.inr hp)) ?lastSize
    (h.handOut_linked hk low) (h.handOut_remainder hk low) ?kept ?bytes
  case lastSize =>
    have untagged := (tagged_touches (unlinked r s l₁ l₂ b k) (taken b k)).size (lastNode r l₁)
      fun w hw => by
        rw [List.mem_singleton.mp hw, taken_start]
        exact apartLast
    rw [handOut, untagged, unlinked]
    split_ifs with splits
    · have apartNew := owned (b.start + k) (by simp [remainder, splits]) (lastNode r l₁)
        (.inl (lastNode_mem_left r l₁))
      rw [State.size_setNext_self, State.size_setNext_of_apart apartNew,
        State.size_setSize_of_apart apartLast, State.size_setSize_of_apart apartNew,
        State.size_setNext_self]
    · exact State.size_setNext_self
  case kept =>
    intro d hd
    rcases List.mem_cons.mp hd with rfl | hd
    · have le := taken_size_le high
      exact .inr (tagged_header (unlinked r s l₁ l₂ b k) (by omega))
    · refine .inl ⟨hd, fun w hw => ?_⟩
      rcases List.mem_cons.mp hw with rfl | hw
      · exact h.layout.apart_live hd (start_mem_nodes (by simp))
      · obtain ⟨e, he, rfl⟩ := List.mem_map.mp hw
        exact layout.apart_live (List.mem_cons_of_mem _ hd) (start_mem_nodes (by simp [he]))
  case bytes =>
    have before := h.layout.totalSize_add
    have after := layout.totalSize_add
    rw [totalSize_cons] at after
    rw [handOut, tagged_heap]
    change (unlinked r s l₁ l₂ b k).heap.xFreeBytesRemaining - _ = _
    rw [writes.heap]
    change s.heap.xFreeBytesRemaining - _ = _
    rw [h.freeBytes]
    omega

end Take

/-! ### The whole call -/

end Represents

section Call

variable (bit : s.xBlockAllocatedBit = 2 ^ 31)
include bit

/-- A request that is empty or has the tag bit set is refused. -/
theorem allocate_outside (hn : n < 2 ^ 32) (ndebug : Bool) (outside : ¬ (0 < n ∧ n < 2 ^ 31)) :
    allocate ndebug s n = .ok (s, 0) := by
  rcases Nat.eq_zero_or_pos n with rfl | pos
  · rw [allocate, if_pos (Nat.zero_and _)]
    rfl
  · have set : ¬ (n &&& s.xBlockAllocatedBit = 0) := by
      rw [bit, land_top_eq_zero_iff hn]
      exact fun large => outside ⟨pos, large⟩
    rw [allocate, if_neg set]
    rfl

/-- What is left of a request in range after its size is computed. -/
theorem allocate_eq (ndebug : Bool) (pos : 0 < n) (hn : n < 2 ^ 31) : allocate ndebug s n =
      if 0 < needed n ∧ needed n ≤ s.heap.xFreeBytesRemaining then do
        let (pxPreviousBlock, pxBlock) ← findBlock s (needed n)
        if pxBlock ≠ s.heap.pxEnd then takeBlock ndebug s pxPreviousBlock pxBlock (needed n)
        else return (s, 0)
      else return (s, 0) := by
  have clear : n &&& s.xBlockAllocatedBit = 0 := by
    rw [bit, land_top_eq_zero_iff (by omega)]
    exact hn
  rw [allocate, if_pos clear, wantedBlockSize_eq ndebug pos hn]
  rfl

end Call

/-- The pointer that is handed out passes the last check of `PortMalloc`. -/
theorem portMalloc_of_allocate {s' : State} {p : ℕ}
    (done : allocate ndebug (ensureInit s) n = .ok (s', p)) (aligned : p % 4 = 0) :
    portMalloc ndebug s n = .ok (s', p) := by
  have check : p &&& portByteAlignmentMask = 0 := by
    rw [portByteAlignmentMask_eq, land_three]
    exact aligned
  rw [portMalloc, done]
  change (configASSERT ndebug .returnAligned (p &&& portByteAlignmentMask = 0) >>= _) = _
  rw [configASSERT, if_pos (Or.inr check)]
  rfl

namespace Represents

/-- A request is refused when it is empty, has the tag bit set or fits in no free
block. -/
theorem allocate_refused (h : Represents r s free live) (hn : n < 2 ^ 32) (ndebug : Bool)
    (none : firstFit free n = none) : allocate ndebug s n = .ok (s, 0) := by
  by_cases range : 0 < n ∧ n < 2 ^ 31
  swap
  · exact allocate_outside h.bit hn ndebug range
  rw [firstFit, if_pos range] at none
  have small : ∀ a ∈ free, a.size < needed n := by simpa using none
  rw [allocate_eq h.bit ndebug range.1 range.2]
  split_ifs with enough
  · -- the walk ends at the end marker
    have all : Represents r s (free ++ []) live := by simpa using h
    rw [all.findBlock_eq small (.inr h.endNext)]
    change (if firstNode r [] ≠ s.heap.pxEnd then _ else _) = _
    rw [firstNode_nil, h.pxEnd, if_neg (by simp)]
    rfl
  · rfl

/-- Otherwise the first block it fits in is handed out. -/
theorem allocate_served (h : Represents r s (l₁ ++ b :: l₂) live) (ndebug : Bool) (pos : 0 < n)
    (hn : n < 2 ^ 31) (small : ∀ a ∈ l₁, a.size < needed n) (fits : needed n ≤ b.size) :
    allocate ndebug s n = .ok (handOut r s l₁ l₂ b (needed n), b.start + 8) := by
  have least := lt_needed n
  have part : b.size ≤ totalSize (l₁ ++ b :: l₂) := size_le_totalSize (by simp)
  have size : s.size (firstNode r (b :: l₂)) = b.size := h.freeSize b (by simp)
  -- the block is not the end marker
  have inner : b.start ≠ s.heap.pxEnd := by
    rw [h.pxEnd]
    exact h.block_ne_hi
  rw [allocate_eq h.bit ndebug pos hn, if_pos ⟨by omega, h.freeBytes ▸ fits.trans part⟩,
    h.findBlock_eq small (.inl (size ▸ fits))]
  change (if firstNode r (b :: l₂) ≠ s.heap.pxEnd then _ else _) = _
  rw [firstNode_cons, if_pos inner]
  exact h.takeBlock_eq (needed_mod n) (by omega) fits ndebug

theorem portMalloc_refused (h : Represents r (ensureInit s) free live) (hn : n < 2 ^ 32)
    (ndebug : Bool) (none : firstFit free n = none) :
    portMalloc ndebug s n = .ok (ensureInit s, 0) :=
  portMalloc_of_allocate (h.allocate_refused hn ndebug none) rfl

theorem portMalloc_served (h : Represents r (ensureInit s) (l₁ ++ b :: l₂) live) (ndebug : Bool)
    (some : firstFit (l₁ ++ b :: l₂) n = some b) (small : ∀ a ∈ l₁, a.size < needed n)
    (fits : needed n ≤ b.size) :
    portMalloc ndebug s n = .ok (handOut r (ensureInit s) l₁ l₂ b (needed n), b.start + 8) := by
  have range : 0 < n ∧ n < 2 ^ 31 := by
    by_contra outside
    rw [firstFit, if_neg outside] at some
    cases some
  have start := (h.layout.aligned b (by simp)).1
  exact portMalloc_of_allocate (h.allocate_served ndebug range.1 range.2 small fits) (by omega)

end Represents

/-- A free list with a block that fits, cut at the first one. -/
theorem exists_split_of_firstFit (some : firstFit free n = some b) :
    ∃ l₁ l₂, free = l₁ ++ b :: l₂ ∧ (∀ a ∈ l₁, a.size < needed n) ∧ needed n ≤ b.size := by
  unfold firstFit at some
  split_ifs at some
  obtain ⟨fits, l₁, l₂, split, small⟩ := List.find?_eq_some_iff_append.mp some
  exact ⟨l₁, l₂, split, by simpa using small, by simpa using fits⟩

end Components.Allocator
