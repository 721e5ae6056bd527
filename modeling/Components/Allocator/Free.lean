import Components.Allocator.FreeList

/-!
# `PortFree` on a live pointer

Freeing a live block clears its tag, adds its size to the free byte counter and
inserts it into the free list, where it merges with the free blocks it touches. In
every case the result represents the layout with the block returned, and only the
headers of the block and of the node before it are written.

## Main results

* `portFree_eq` — the path `PortFree` takes for a live pointer
* `portFree_represents` — what it leaves behind
-/

namespace Components.Allocator

open Word

variable {r : Region} {s : State} {free live live' l₁ l₂ : List Block} {a b c : Block}

/-! ### The checks -/

theorem configASSERT_of {cond : Prop} [Decidable cond] (holds : cond) (ndebug : Bool)
    (site : Assertion) : configASSERT ndebug site cond = .ok () :=
  if_pos (.inr holds)

theorem configASSERT_ndebug {cond : Prop} [Decidable cond] (site : Assertion) :
    configASSERT true site cond = .ok () :=
  if_pos (.inl rfl)

theorem configASSERT_fails {cond : Prop} [Decidable cond] (fails : ¬ cond) (site : Assertion) :
    configASSERT false site cond = .error (.assertion site) :=
  if_neg (by simp [fails])

/-- A loop fails only by not ending. -/
theorem loop_ne_assertion {σ : Type} (cond : σ → Bool) (body : σ → σ) (t : σ) (site : Assertion) :
    loop cond body t ≠ .error (.assertion site) := by
  intro failed
  simp only [loop] at failed
  split at failed
  · cases failed
  · cases failed

theorem prvInsertBlockIntoFreeList_ne_assertion (s : State) (p : ℕ) (site : Assertion) :
    prvInsertBlockIntoFreeList s p ≠ .error (.assertion site) := by
  intro failed
  have ends := loop_ne_assertion (fun q => s.next q < p) s.next s.xStartAddr site
  unfold prvInsertBlockIntoFreeList at failed
  generalize loop (fun q => s.next q < p) s.next s.xStartAddr = walk at failed ends
  cases walk with
  | error e =>
    cases failed
    exact ends rfl
  | ok it => cases failed

section Checks

variable {pv : ℕ} (pointer : pv ≠ 0)
include pointer

/-- A block without a tag fails the first check. -/
theorem portFree_of_untagged
    (clear : s.size (wsub pv xHeapStructSize) &&& s.xBlockAllocatedBit = 0) :
    portFree false s pv = .error (.assertion .blockAllocated) ∧ portFree true s pv = .ok s := by
  have untagged : ¬ s.size (wsub pv xHeapStructSize) &&& s.xBlockAllocatedBit ≠ 0 :=
    not_not.mpr clear
  constructor
  · simp only [portFree, if_pos pointer, configASSERT_fails untagged]
    rfl
  · simp only [portFree, if_pos pointer, configASSERT_ndebug, ok_bind, if_neg untagged, pure_eq_ok]

section Tagged

variable (tagged : s.size (wsub pv xHeapStructSize) &&& s.xBlockAllocatedBit ≠ 0)
include tagged

/-- A tagged block with a successor fails the second check. -/
theorem portFree_of_linked (linked : s.next (wsub pv xHeapStructSize) ≠ 0) :
    portFree false s pv = .error (.assertion .blockUnlinked) ∧ portFree true s pv = .ok s := by
  constructor
  · rw [portFree, if_pos pointer]
    dsimp only
    rw [configASSERT_of tagged, ok_bind, configASSERT_fails linked]
    rfl
  · rw [portFree, if_pos pointer]
    dsimp only
    rw [configASSERT_ndebug, ok_bind, configASSERT_ndebug, ok_bind, if_pos tagged, if_neg linked]
    rfl

/-- Nothing else is checked. -/
theorem portFree_of_marked (unlinked : s.next (wsub pv xHeapStructSize) = 0) (ndebug : Bool)
    (site : Assertion) : portFree ndebug s pv ≠ .error (.assertion site) := by
  rw [portFree, if_pos pointer]
  dsimp only
  rw [configASSERT_of tagged, ok_bind, configASSERT_of unlinked, ok_bind, if_pos tagged,
    if_pos unlinked]
  generalize (s.setSize _ _).setFreeBytesRemaining _ = released
  have inserts := prvInsertBlockIntoFreeList_ne_assertion released (wsub pv xHeapStructSize) site
  generalize prvInsertBlockIntoFreeList released (wsub pv xHeapStructSize) = inserted at inserts ⊢
  intro failed
  cases inserted with
  | error e =>
    cases failed
    exact inserts rfl
  | ok s' => cases failed

end Tagged

end Checks

/-- The state in which `PortFree` starts to insert the block. -/
def released (s : State) (b : Block) : State :=
  (s.setSize b.start b.size).setFreeBytesRemaining (s.heap.xFreeBytesRemaining + b.size)

namespace Represents

theorem live_start_lt (h : Represents r s free live) (hb : b ∈ live) :
    b.start + 8 < 2 ^ 32 := by
  have mem : b ∈ free ++ live := List.mem_append_right _ hb
  have stop := h.layout.stop_le mem
  have large := h.layout.large b mem
  have top := r.hi_add_le
  have wrap := r.no_wrap
  unfold Block.stop at stop
  omega

theorem released_touches (s : State) (b : Block) : Touches s (released s b) [b.start] :=
  ((Touches.refl s _).setSize List.mem_cons_self).setFreeBytesRemaining

theorem released_linked (h : Represents r s free live) (hb : b ∈ live) :
    Linked (released s b).next (nodes r free) := by
  refine h.linked.congr fun p hp => (released_touches s b).next p fun w hw => ?_
  rw [List.mem_singleton.mp hw]
  exact (h.layout.apart_live hb hp).symm

/-- For a live pointer `PortFree` passes its checks and inserts the block. -/
theorem portFree_eq (h : Represents r s (l₁ ++ l₂) live) (hb : b ∈ live)
    (before : ∀ a ∈ l₁, a.stop ≤ b.start) (after : ∀ c ∈ l₂, b.stop ≤ c.start)
    (ndebug : Bool) :
    portFree ndebug s (b.start + 8) =
      .ok (linkBlock (released s b) (lastNode r l₁) b.start).countFree := by
  have mem : b ∈ l₁ ++ l₂ ++ live := List.mem_append_right _ hb
  have small := h.layout.size_lt mem
  -- the header is found and passes both checks
  have link : wsub (b.start + 8) xHeapStructSize = b.start := by
    rw [xHeapStructSize_eq, wsub_of_le (by omega) (h.live_start_lt hb)]
    omega
  have tagged : s.size b.start &&& s.xBlockAllocatedBit ≠ 0 := by
    rw [h.liveSize b hb, h.bit, Ne, land_top_eq_zero_iff (by omega)]
    omega
  -- without its top bit the size is that of the block, and the count goes up by it
  have cleared : s.size b.start &&& wnot s.xBlockAllocatedBit = b.size := by
    rw [h.liveSize b hb, h.bit, land_wnot_top]
    omega
  have counted : wadd s.heap.xFreeBytesRemaining b.size = s.heap.xFreeBytesRemaining + b.size := by
    have total := h.layout.totalSize_add
    have part := size_le_totalSize hb
    have region := r.hi_sub_lo_lt
    rw [h.freeBytes]
    exact wadd_of_lt (by omega)
  have state : ((s.setSize b.start b.size).setFreeBytesRemaining
      (wadd (s.setSize b.start b.size).heap.xFreeBytesRemaining
        ((s.setSize b.start b.size).size b.start))) = released s b := by
    rw [State.size_setSize_self (by omega), State.setSize_free, counted]
    rfl
  -- the walk stops at the last node below the block
  have below : ∀ a ∈ l₁, a.start < b.start := by
    intro a ha
    have stop := before a ha
    have pos := h.layout.pos (b := a) (by simp [ha])
    unfold Block.stop at stop
    omega
  have above : ¬ firstNode r l₂ < b.start := by
    have stop := h.layout.stop_le mem
    rcases firstNode_mem r l₂ with first | ⟨c, hc, first⟩
    · unfold Block.stop at stop
      omega
    · have stop := after c hc
      unfold Block.stop at stop
      omega
  have short : l₁.length < 2 ^ 32 := by
    have len := h.layout.length_free_lt
    rw [List.length_append] at len
    omega
  have inserted := prvInsertBlockIntoFreeList_eq (h.released_linked hb)
    ((released_touches s b).xStartAddr.trans h.xStartAddr) below above short
  simp only [portFree, ne_eq, Nat.add_eq_zero_iff, OfNat.ofNat_ne_zero, and_false,
    not_false_eq_true, ↓reduceIte, link, configASSERT, tagged, h.liveNext b hb, or_true, cleared,
    state, inserted]
  rfl

/-! ### The layout after each outcome -/

section Outcomes

variable (h : Represents r s free live) (hb : b ∈ live)
include h hb

theorem released_next {p : ℕ} (hp : p ∈ nodes r free) : (released s b).next p = s.next p :=
  (released_touches s b).next p fun w hw => by
    rw [List.mem_singleton.mp hw]
    exact (h.layout.apart_live hb hp).symm

theorem released_size {p : ℕ} (hp : p ∈ nodes r free) : (released s b).size p = s.size p :=
  (released_touches s b).size p fun w hw => by
    rw [List.mem_singleton.mp hw]
    exact (h.layout.apart_live hb hp).symm

theorem released_size_self : (released s b).size b.start = b.size :=
  State.size_setSize_self ((h.layout.size_lt (List.mem_append_right _ hb)).trans (by decide))

end Outcomes

/-- The node before the block ends where the block starts only if it is a free block
that does. -/
theorem lastNode_touches (h : Represents r s (l₁ ++ l₂) live) (hb : b ∈ live)
    (before : ∀ a ∈ l₁, a.stop < b.start) :
    wadd (lastNode r l₁) ((released s b).size (lastNode r l₁)) ≠ b.start := by
  rw [h.released_size hb (lastNode_mem_nodes r l₁ l₂)]
  exact h.lastNode_wadd_ne (h.layout.apart_live hb (by simp [nodes])).symm.ne before

/-- Put the block `d` in place of the free blocks `m` and the returned block `b`. -/
theorem relink_released {s' : State} {m : List Block} {d : Block}
    (h : Represents r s (l₁ ++ m ++ l₂) live) (perm : live.Perm (b :: live'))
    (layout : Layout r (l₁ ++ d :: l₂) live')
    (touch : Touches (released s b) s' (lastNode r l₁ :: b.start :: m.map Block.start))
    (lastSize : s'.size (lastNode r l₁) = s.size (lastNode r l₁))
    (lastNext : s'.next (lastNode r l₁) = d.start) (next : s'.next d.start = firstNode r l₂)
    (size : s'.size d.start = d.size)
    (bytes : s'.heap.xFreeBytesRemaining = (released s b).heap.xFreeBytesRemaining) :
    Represents r s' (l₁ ++ d :: l₂) live' := by
  have hb : b ∈ live := perm.mem_iff.mpr List.mem_cons_self
  have new : l₁ ++ d :: l₂ = l₁ ++ [d] ++ l₂ := by simp
  refine h.relink (M := b.start :: m.map Block.start) layout rfl new ?touch ?left ?right lastSize
    ?between ?middle ?kept ?bytes
  case touch =>
    exact ((released_touches s b).mono (by simp)).trans touch
  -- the headers that were written are those of `b` and of `m`, none of which is kept
  case left =>
    intro w hw p hp
    rcases List.mem_cons.mp hw with rfl | hw
    · exact (h.layout.apart_live hb (by rw [List.append_assoc]; exact mem_nodes_left _ hp)).symm
    · obtain ⟨a, ha, rfl⟩ := List.mem_map.mp hw
      exact h.layout.apart_free ha (.inl hp)
  case right =>
    intro w hw p hp
    rcases List.mem_cons.mp hw with rfl | hw
    · exact (h.layout.apart_live hb (mem_nodes_right _ hp)).symm
    · obtain ⟨a, ha, rfl⟩ := List.mem_map.mp hw
      exact h.layout.apart_free ha (.inr hp)
  case between =>
    exact Linked.cons_cons.mpr
      ⟨lastNext, Linked.cons_cons.mpr ⟨next, Linked.singleton _ _⟩⟩
  case middle =>
    intro e he
    rw [List.mem_singleton.mp he, size]
  case kept =>
    intro e he
    have old := perm.mem_iff.mpr (List.mem_cons_of_mem _ he)
    refine .inl ⟨old, fun w hw => ?_⟩
    rcases List.mem_cons.mp hw with rfl | hw
    · exact h.layout.apart_other perm he
    · obtain ⟨a, ha, rfl⟩ := List.mem_map.mp hw
      exact h.layout.apart_live old (start_mem_nodes (by simp [ha]))
  -- both layouts fill the region, so the free bytes grew by the block
  case bytes =>
    have before := h.layout.totalSize_add
    have after := layout.totalSize_add
    have moved := totalSize_perm perm
    rw [totalSize_cons] at moved
    rw [bytes]
    change s.heap.xFreeBytesRemaining + b.size = _
    rw [h.freeBytes]
    omega

theorem link_plain (h : Represents r s (l₁ ++ l₂) live) (perm : live.Perm (b :: live'))
    (before : ∀ a ∈ l₁, a.stop < b.start) (after : ∀ c ∈ l₂, b.stop < c.start) :
    Represents r (linkBlock (released s b) (lastNode r l₁) b.start) (l₁ ++ b :: l₂) live' := by
  have hb : b ∈ live := perm.mem_iff.mpr List.mem_cons_self
  have lastMem := lastNode_mem_nodes r l₁ l₂
  have apartLast : Apart (lastNode r l₁) b.start := h.layout.apart_live hb lastMem
  have next : (released s b).next (lastNode r l₁) = firstNode r l₂ :=
    (h.released_next hb lastMem).trans h.next_lastNode
  -- if the block reaches the next node, this is `pxEnd`, which is not merged
  have noNext : wadd b.start ((released s b).size b.start) = firstNode r l₂ →
      firstNode r l₂ = (released s b).heap.pxEnd := by
    intro touch
    rw [h.released_size_self hb,
      wadd_of_lt (h.layout.start_add_size_lt (List.mem_append_right _ hb))] at touch
    rw [firstNode_eq_hi after touch, (released_touches s b).pxEnd, h.pxEnd]
  have firstLt := h.layout.node_lt (firstNode_mem_nodes r l₁ l₂)
  have startLt : b.start < 2 ^ 32 := (Nat.le_add_right _ _).trans_lt (h.live_start_lt hb)
  have unmerged : Represents r s (l₁ ++ [] ++ l₂) live := by simpa using h
  rw [linkBlock_plain next (h.lastNode_touches hb before) noNext apartLast.ne]
  apply unmerged.relink_released perm (h.layout.giveBack perm before after)
  -- what was written, and what the written headers now say
  · exact ((Touches.refl _ _).setNext (by simp)).setNext (by simp)
  · rw [State.size_setNext_self, State.size_setNext_of_apart apartLast.symm,
      h.released_size hb lastMem]
  · exact State.next_setNext_self startLt
  · rw [State.next_setNext_of_apart apartLast, State.next_setNext_self firstLt]
  · rw [State.size_setNext_of_apart apartLast, State.size_setNext_self, h.released_size_self hb]
  · rw [State.setNext_free, State.setNext_free]

theorem link_prev (h : Represents r s (l₁ ++ a :: l₂) live) (perm : live.Perm (b :: live'))
    (meets : a.stop = b.start) (after : ∀ c ∈ l₂, b.stop < c.start) :
    Represents r (linkBlock (released s b) a.start b.start)
      (l₁ ++ ⟨a.start, a.size + b.size⟩ :: l₂) live' := by
  have hb : b ∈ live := perm.mem_iff.mpr List.mem_cons_self
  have split := h.single
  have nodeA : a.start ∈ nodes r (l₁ ++ a :: l₂) := start_mem_nodes (by simp)
  have nodeLast := lastNode_mem_nodes r l₁ (a :: l₂)
  have apartLast := h.lastNode_apart
  have sizeA : (released s b).size a.start = a.size :=
    (h.released_size hb nodeA).trans (h.freeSize a (by simp))
  have sizeB := h.released_size_self hb
  have next : (released s b).next a.start = firstNode r l₂ :=
    (h.released_next hb nodeA).trans h.next_block
  have stopB := h.layout.start_add_size_lt (List.mem_append_right _ hb)
  -- both blocks lie in the region, so their sizes add up without wrapping
  have sum : wadd a.size b.size = a.size + b.size := by
    unfold Block.stop at meets
    exact wadd_of_lt (by omega)
  have whole : wadd a.start (a.size + b.size) = b.stop := by
    unfold Block.stop at meets ⊢
    rw [wadd_of_lt (by omega)]
    omega
  have prev : wadd a.start ((released s b).size a.start) = b.start := by
    rw [sizeA, wadd_of_lt (h.layout.start_add_size_lt (by simp))]
    exact meets
  -- as above, the grown block reaches `pxEnd` at most
  have noNext : wadd a.start (wadd ((released s b).size a.start) ((released s b).size b.start)) =
      firstNode r l₂ → firstNode r l₂ = (released s b).heap.pxEnd := by
    intro touch
    rw [sizeA, sizeB, sum, whole] at touch
    rw [firstNode_eq_hi after touch, (released_touches s b).pxEnd, h.pxEnd]
  have firstLt := split.layout.node_lt (firstNode_mem_nodes r (l₁ ++ [a]) l₂)
  rw [linkBlock_prev next prev noNext, sizeA, sizeB, sum]
  apply split.relink_released perm (h.layout.mergePrev perm meets after)
  · exact ((Touches.refl _ _).setSize (by simp)).setNext (by simp)
  · rw [State.size_setNext_of_apart apartLast, State.size_setSize_of_apart apartLast,
      h.released_size hb nodeLast]
  · rw [State.next_setNext_of_apart apartLast, State.next_setSize_of_apart apartLast,
      h.released_next hb nodeLast, h.next_lastNode, firstNode_cons]
  · exact State.next_setNext_self firstLt
  · rw [State.size_setNext_self]
    exact State.size_setSize_self (by unfold Block.stop at meets; omega)
  · rw [State.setNext_free, State.setSize_free]

theorem link_next (h : Represents r s (l₁ ++ c :: l₂) live) (perm : live.Perm (b :: live'))
    (meets : b.stop = c.start) (before : ∀ a ∈ l₁, a.stop < b.start) :
    Represents r (linkBlock (released s b) (lastNode r l₁) b.start)
      (l₁ ++ ⟨b.start, b.size + c.size⟩ :: l₂) live' := by
  have hb : b ∈ live := perm.mem_iff.mpr List.mem_cons_self
  have split := h.single
  have nodeC : c.start ∈ nodes r (l₁ ++ c :: l₂) := start_mem_nodes (by simp)
  have nodeLast := lastNode_mem_nodes r l₁ (c :: l₂)
  have apartLast : Apart (lastNode r l₁) b.start := h.layout.apart_live hb nodeLast
  have apartC : Apart c.start b.start := h.layout.apart_live hb nodeC
  have sizeC : (released s b).size c.start = c.size :=
    (h.released_size hb nodeC).trans (h.freeSize c (by simp))
  have sizeB := h.released_size_self hb
  have next : (released s b).next (lastNode r l₁) = c.start :=
    (h.released_next hb nodeLast).trans h.next_lastNode
  have nextC : (released s b).next c.start = firstNode r l₂ :=
    (h.released_next hb nodeC).trans h.next_block
  have stopC := h.layout.start_add_size_lt (b := c) (by simp)
  have touch : wadd b.start ((released s b).size b.start) = c.start := by
    rw [sizeB, wadd_of_lt (h.layout.start_add_size_lt (List.mem_append_right _ hb))]
    exact meets
  -- the block after is free, so it is not `pxEnd`
  have inner : c.start ≠ (released s b).heap.pxEnd := by
    rw [(released_touches s b).pxEnd, h.pxEnd]
    exact h.block_ne_hi
  have sum : wadd b.size c.size = b.size + c.size := by
    unfold Block.stop at meets
    exact wadd_of_lt (by omega)
  have firstLt := split.layout.node_lt (firstNode_mem_nodes r (l₁ ++ [c]) l₂)
  have startLt : b.start < 2 ^ 32 := (Nat.le_add_right _ _).trans_lt (h.live_start_lt hb)
  rw [linkBlock_next next (h.lastNode_touches hb before) touch inner apartLast.symm apartC.symm,
    sizeB, sizeC, sum, nextC]
  apply split.relink_released perm (h.layout.mergeNext perm meets before)
  · exact (((Touches.refl _ _).setSize (by simp)).setNext (by simp)).setNext (by simp)
  · rw [State.size_setNext_self, State.size_setNext_of_apart apartLast.symm,
      State.size_setSize_of_apart apartLast.symm, h.released_size hb nodeLast]
  · exact State.next_setNext_self startLt
  · rw [State.next_setNext_of_apart apartLast, State.next_setNext_self firstLt]
  · rw [State.size_setNext_of_apart apartLast, State.size_setNext_self]
    exact State.size_setSize_self (by unfold Block.stop at meets; omega)
  · rw [State.setNext_free, State.setNext_free, State.setSize_free]

theorem link_both (h : Represents r s (l₁ ++ a :: c :: l₂) live) (perm : live.Perm (b :: live'))
    (meetsPrev : a.stop = b.start) (meetsNext : b.stop = c.start) :
    Represents r (linkBlock (released s b) a.start b.start)
      (l₁ ++ ⟨a.start, a.size + b.size + c.size⟩ :: l₂) live' := by
  have hb : b ∈ live := perm.mem_iff.mpr List.mem_cons_self
  have split : Represents r s (l₁ ++ [a, c] ++ l₂) live := by simpa using h
  have splitA : Represents r s (l₁ ++ [a] ++ c :: l₂) live := h.single
  have nodeA : a.start ∈ nodes r (l₁ ++ a :: c :: l₂) := start_mem_nodes (by simp)
  have nodeC : c.start ∈ nodes r (l₁ ++ a :: c :: l₂) := start_mem_nodes (by simp)
  have nodeLast := lastNode_mem_nodes r l₁ (a :: c :: l₂)
  have apartLast := h.lastNode_apart
  have apartC : Apart a.start c.start :=
    splitA.layout.apart_free List.mem_cons_self (.inr (by simp))
  have sizeA : (released s b).size a.start = a.size :=
    (h.released_size hb nodeA).trans (h.freeSize a (by simp))
  have sizeC : (released s b).size c.start = c.size :=
    (h.released_size hb nodeC).trans (h.freeSize c (by simp))
  have sizeB := h.released_size_self hb
  have next : (released s b).next a.start = c.start :=
    (h.released_next hb nodeA).trans h.next_block
  have nextC : (released s b).next c.start = firstNode r l₂ :=
    (h.released_next hb nodeC).trans splitA.next_block
  have stopC := h.layout.start_add_size_lt (b := c) (by simp)
  have prev : wadd a.start ((released s b).size a.start) = b.start := by
    rw [sizeA, wadd_of_lt (h.layout.start_add_size_lt (by simp))]
    exact meetsPrev
  have sumB : wadd a.size b.size = a.size + b.size := by
    unfold Block.stop at meetsPrev meetsNext
    exact wadd_of_lt (by omega)
  have sumC : wadd (a.size + b.size) c.size = a.size + b.size + c.size := by
    unfold Block.stop at meetsPrev meetsNext
    exact wadd_of_lt (by omega)
  -- first the block before grows, then what it has become reaches the block after
  have touch : wadd a.start (wadd ((released s b).size a.start) ((released s b).size b.start)) =
      c.start := by
    rw [sizeA, sizeB, sumB]
    unfold Block.stop at meetsPrev meetsNext
    rw [wadd_of_lt (by omega)]
    omega
  have inner : c.start ≠ (released s b).heap.pxEnd := by
    rw [(released_touches s b).pxEnd, h.pxEnd]
    exact splitA.block_ne_hi
  have firstLt := split.layout.node_lt (firstNode_mem_nodes r (l₁ ++ [a, c]) l₂)
  rw [linkBlock_both next prev touch inner apartC, sizeA, sizeB, sizeC, sumB, sumC, nextC]
  apply split.relink_released perm (h.layout.mergeBoth perm meetsPrev meetsNext)
  · exact (((Touches.refl _ _).setSize (by simp)).setSize (by simp)).setNext (by simp)
  · rw [State.size_setNext_of_apart apartLast, State.size_setSize_of_apart apartLast,
      State.size_setSize_of_apart apartLast, h.released_size hb nodeLast]
  · rw [State.next_setNext_of_apart apartLast, State.next_setSize_of_apart apartLast,
      State.next_setSize_of_apart apartLast, h.released_next hb nodeLast, h.next_lastNode,
      firstNode_cons]
  · exact State.next_setNext_self firstLt
  · rw [State.size_setNext_self]
    exact State.size_setSize_self (by unfold Block.stop at meetsPrev meetsNext; omega)
  · rw [State.setNext_free, State.setSize_free, State.setSize_free]

/-- The header of a free block is not tagged. -/
theorem freeSize_lt (h : Represents r s free live) {p : ℕ} (hp : p ∈ free.map Block.start) :
    s.size p < 2 ^ 31 := by
  obtain ⟨d, hd, rfl⟩ := List.mem_map.mp hp
  rw [h.freeSize d hd]
  exact h.layout.size_lt (List.mem_append_left live hd)

/-- A block that is merged into the one before keeps the size it was released with. -/
theorem link_size_of_merged (h : Represents r s (l₁ ++ a :: l₂) live) (hb : b ∈ live)
    (meets : a.stop = b.start) :
    (linkBlock (released s b) a.start b.start).size b.start = b.size := by
  have node : a.start ∈ nodes r (l₁ ++ a :: l₂) := start_mem_nodes (by simp)
  have prev : wadd a.start ((released s b).size a.start) = b.start := by
    rw [h.released_size hb node, h.freeSize a (by simp),
      wadd_of_lt (h.layout.start_add_size_lt (by simp))]
    exact meets
  rw [(linkBlock_merged prev).size b.start (by simpa using h.layout.apart_live hb node)]
  exact h.released_size_self hb

/-- Linking a returned block represents the layout with the block merged into its
neighbours. The node before it stays a node, and the header of the block is not tagged. -/
theorem link_represents (h : Represents r s (l₁ ++ l₂) live) (perm : live.Perm (b :: live'))
    (before : ∀ a ∈ l₁, a.stop ≤ b.start) (after : ∀ c ∈ l₂, b.stop ≤ c.start) :
    ∃ free', Represents r (linkBlock (released s b) (lastNode r l₁) b.start) free' live' ∧
      lastNode r l₁ ∈ nodes r free' ∧
      (linkBlock (released s b) (lastNode r l₁) b.start).size b.start < 2 ^ 31 := by
  have hb : b ∈ live := perm.mem_iff.mpr List.mem_cons_self
  have small := h.layout.size_lt (List.mem_append_right _ hb)
  obtain ⟨left, right, -⟩ := List.pairwise_append.mp h.layout.separated
  -- only the last block before and the first block after can touch the returned one
  by_cases prev : ∃ l a, l₁ = l ++ [a] ∧ a.stop = b.start
  · obtain ⟨l, a, rfl, meets⟩ := prev
    rw [lastNode_concat]
    simp only [List.append_assoc, List.singleton_append] at h
    by_cases next : ∃ c l', l₂ = c :: l' ∧ b.stop = c.start
    · obtain ⟨c, l', rfl, meets'⟩ := next
      exact ⟨_, h.link_both perm meets meets', by simp [nodes],
        (h.link_size_of_merged hb meets).trans_lt small⟩
    · exact ⟨_, h.link_prev perm meets (Separated.lt_start right after next), by simp [nodes],
        (h.link_size_of_merged hb meets).trans_lt small⟩
  · have strict := Separated.stop_lt left before prev
    by_cases next : ∃ c l', l₂ = c :: l' ∧ b.stop = c.start
    · obtain ⟨c, l', rfl, meets⟩ := next
      have result := h.link_next perm meets strict
      exact ⟨_, result, lastNode_mem_nodes r l₁ _, result.freeSize_lt (by simp)⟩
    · have result := h.link_plain perm strict (Separated.lt_start right after next)
      exact ⟨_, result, lastNode_mem_nodes r l₁ _, result.freeSize_lt (by simp)⟩

/-- `PortFree` of a live pointer completes and returns the block to the heap. -/
theorem portFree_represents (h : Represents r s free live) (perm : live.Perm (b :: live'))
    (ndebug : Bool) :
    ∃ s' free' p, portFree ndebug s (b.start + 8) = .ok s' ∧ Represents r s' free' live' ∧
      (p ∈ nodes r free ∧ p ∈ nodes r free' ∧ s'.size b.start < 2 ^ 31) ∧
      Touches s s' [p, b.start] ∧
      s'.heap = { s.heap with
        xStart := s'.heap.xStart
        xFreeBytesRemaining := s.heap.xFreeBytesRemaining + b.size
        xNumberOfSuccessfulFrees := wadd s.heap.xNumberOfSuccessfulFrees 1 } := by
  have hb : b ∈ live := perm.mem_iff.mpr List.mem_cons_self
  obtain ⟨l₁, l₂, rfl, before, after⟩ := h.layout.exists_split hb
  obtain ⟨free', result, node, untagged⟩ := h.link_represents perm before after
  have writes := linkBlock_writesHeaders (released s b) (lastNode r l₁) b.start
  refine ⟨_, free', lastNode r l₁, h.portFree_eq hb before after ndebug, result.countFree,
    ⟨lastNode_mem_nodes r l₁ l₂, node, untagged⟩, ?_, ?_⟩
  · exact (((released_touches s b).mono (by simp)).trans writes.toTouches).countFree
  · have record : (released s b).heap = { s.heap with
        xStart := (released s b).heap.xStart
        xFreeBytesRemaining := s.heap.xFreeBytesRemaining + b.size } := by
      change { (s.setSize b.start b.size).heap with
        xFreeBytesRemaining := s.heap.xFreeBytesRemaining + b.size } = _
      rw [State.setSize_heap]
      rfl
    unfold State.countFree
    rw [writes.heap, record]

end Represents

end Components.Allocator
