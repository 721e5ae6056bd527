import Components.Allocator.Layout

/-!
# When memory represents a layout

`Represents r s free live` ties a state of the allocator to a layout of its region:
the free list threads the free blocks in order from `xStart` to `pxEnd`, every
header says what the layout says, and the free byte counter is the sum of the free
sizes. `Touches s s' W` is the frame condition that goes with it: only the record
and the headers at the addresses `W` may differ between the two states.
-/

namespace Components.Allocator

open ByteMemory

/-! ### Frames -/

/-- From `s` to `s'` nothing changed but counters of the record and the headers at
the addresses in `W`. -/
structure Touches (s s' : State) (W : List ℕ) : Prop where
  next : ∀ p, (∀ w ∈ W, Apart w p) → s'.next p = s.next p
  size : ∀ p, (∀ w ∈ W, Apart w p) → s'.size p = s.size p
  mem : ∀ x, (∀ w ∈ W, w = s.xStartAddr ∨ x < w ∨ w + 8 ≤ x) → s'.mem x = s.mem x
  xStartAddr : s'.xStartAddr = s.xStartAddr
  bit : s'.xBlockAllocatedBit = s.xBlockAllocatedBit
  pxEnd : s'.heap.pxEnd = s.heap.pxEnd
  ucHeap : s'.heap.ucHeap = s.heap.ucHeap
  total : s'.heap.configTotalHeapSize = s.heap.configTotalHeapSize

namespace Touches

variable {s s' s'' : State} {W : List ℕ} {p v : ℕ}

theorem refl (s : State) (W : List ℕ) : Touches s s W :=
  ⟨fun _ _ => rfl, fun _ _ => rfl, fun _ _ => rfl, rfl, rfl, rfl, rfl, rfl⟩

theorem trans (h : Touches s s' W) (h' : Touches s' s'' W) : Touches s s'' W where
  next p hp := (h'.next p hp).trans (h.next p hp)
  size p hp := (h'.size p hp).trans (h.size p hp)
  mem x hx := (h'.mem x (h.xStartAddr.symm ▸ hx)).trans (h.mem x hx)
  xStartAddr := h'.xStartAddr.trans h.xStartAddr
  bit := h'.bit.trans h.bit
  pxEnd := h'.pxEnd.trans h.pxEnd
  ucHeap := h'.ucHeap.trans h.ucHeap
  total := h'.total.trans h.total

theorem mono {W' : List ℕ} (h : Touches s s' W) (sub : W ⊆ W') : Touches s s' W' :=
  { h with
    next := fun p hp => h.next p fun w hw => hp w (sub hw)
    size := fun p hp => h.size p fun w hw => hp w (sub hw)
    mem := fun x hx => h.mem x fun w hw => hx w (sub hw) }

theorem setNext (h : Touches s s' W) (hp : p ∈ W) : Touches s (s'.setNext p v) W := by
  refine h.trans ⟨?_, ?_, ?_, State.setNext_xStartAddr, State.setNext_bit, State.setNext_pxEnd,
    by rw [State.setNext_heap], by rw [State.setNext_heap]⟩
  · exact fun q hq => State.next_setNext_of_apart (hq p hp)
  · exact fun q hq => State.size_setNext_of_apart (hq p hp)
  · exact fun x hx => State.setNext_mem_of_outside (hx p hp)

theorem setSize (h : Touches s s' W) (hp : p ∈ W) : Touches s (s'.setSize p v) W := by
  refine h.trans ⟨?_, ?_, ?_, State.setSize_xStartAddr, State.setSize_bit, State.setSize_pxEnd,
    by rw [State.setSize_heap], by rw [State.setSize_heap]⟩
  · exact fun q hq => State.next_setSize_of_apart (hq p hp)
  · exact fun q hq => State.size_setSize_of_apart (hq p hp)
  · exact fun x hx => State.setSize_mem_of_outside (hx p hp)

/-- The counters of the record are no part of any header. -/
theorem setFreeBytesRemaining (h : Touches s s' W) :
    Touches s (s'.setFreeBytesRemaining v) W :=
  h.trans ⟨fun _ _ => rfl, fun _ _ => rfl, fun _ _ => rfl, rfl, rfl, rfl, rfl, rfl⟩

theorem setMinimumEverFreeBytesRemaining (h : Touches s s' W) :
    Touches s (s'.setMinimumEverFreeBytesRemaining v) W :=
  h.trans ⟨fun _ _ => rfl, fun _ _ => rfl, fun _ _ => rfl, rfl, rfl, rfl, rfl, rfl⟩

theorem countAllocation (h : Touches s s' W) : Touches s s'.countAllocation W :=
  h.trans ⟨fun _ _ => rfl, fun _ _ => rfl, fun _ _ => rfl, rfl, rfl, rfl, rfl, rfl⟩

theorem countFree (h : Touches s s' W) : Touches s s'.countFree W :=
  h.trans ⟨fun _ _ => rfl, fun _ _ => rfl, fun _ _ => rfl, rfl, rfl, rfl, rfl, rfl⟩

end Touches

/-- Header writes at the addresses in `W` only: the counters are the same too. -/
structure WritesHeaders (s s' : State) (W : List ℕ) : Prop extends Touches s s' W where
  heap : s'.heap = { s.heap with xStart := s'.heap.xStart }

namespace WritesHeaders

variable {s s' : State} {W : List ℕ} {p v : ℕ}

theorem refl (s : State) (W : List ℕ) : WritesHeaders s s W := ⟨.refl s W, rfl⟩

theorem mono {W' : List ℕ} (h : WritesHeaders s s' W) (sub : W ⊆ W') : WritesHeaders s s' W' :=
  ⟨h.toTouches.mono sub, h.heap⟩

theorem setNext (h : WritesHeaders s s' W) (hp : p ∈ W) : WritesHeaders s (s'.setNext p v) W where
  toTouches := h.toTouches.setNext hp
  heap := by
    rw [State.setNext_heap, h.heap]

theorem setSize (h : WritesHeaders s s' W) (hp : p ∈ W) : WritesHeaders s (s'.setSize p v) W where
  toTouches := h.toTouches.setSize hp
  heap := by
    rw [State.setSize_heap, h.heap]

end WritesHeaders

/-! ### Representation -/

/-- The last node before the free blocks that follow `l`. -/
def lastNode (r : Region) (l : List Block) : ℕ := (l.map Block.start).getLastD r.xStartAddr

/-- The first node from `l` on. -/
def firstNode (r : Region) (l : List Block) : ℕ := (l.map Block.start).headD r.hi

/-- The nodes of a free list, from `xStart` to `pxEnd`. -/
def nodes (r : Region) (free : List Block) : List ℕ :=
  r.xStartAddr :: free.map Block.start ++ [r.hi]

/-- The state represents the free and live blocks of the layout. -/
structure Represents (r : Region) (s : State) (free live : List Block) : Prop where
  layout : Layout r free live
  ucHeap : s.heap.ucHeap = r.ucHeap
  total : s.heap.configTotalHeapSize = r.configTotalHeapSize
  xStartAddr : s.xStartAddr = r.xStartAddr
  pxEnd : s.heap.pxEnd = r.hi
  bit : s.xBlockAllocatedBit = 2 ^ 31
  linked : Linked s.next (nodes r free)
  startSize : s.size r.xStartAddr = 0
  freeSize : ∀ b ∈ free, s.size b.start = b.size
  endNext : s.next r.hi = 0
  endSize : s.size r.hi = 0
  liveNext : ∀ b ∈ live, s.next b.start = 0
  liveSize : ∀ b ∈ live, s.size b.start = b.size + 2 ^ 31
  freeBytes : s.heap.xFreeBytesRemaining = totalSize free

variable {r : Region} {s : State} {free live l l₁ l₂ : List Block} {a b : Block}

@[simp] theorem lastNode_concat : lastNode r (l ++ [a]) = a.start := by
  simp [lastNode]

@[simp] theorem firstNode_nil : firstNode r [] = r.hi := rfl

@[simp] theorem firstNode_cons : firstNode r (a :: l) = a.start := rfl

theorem lastNode_mem (r : Region) (l : List Block) :
    lastNode r l = r.xStartAddr ∨ ∃ a ∈ l, lastNode r l = a.start := by
  rcases List.eq_nil_or_concat l with rfl | ⟨l, a, rfl⟩
  · exact .inl rfl
  · exact .inr ⟨a, by simp, by simp⟩

theorem firstNode_mem (r : Region) (l : List Block) :
    firstNode r l = r.hi ∨ ∃ a ∈ l, firstNode r l = a.start := by
  cases l with
  | nil => exact .inl rfl
  | cons a l => exact .inr ⟨a, by simp, by simp⟩

/-- A block that reaches the first node without touching a block reaches the end marker. -/
theorem firstNode_eq_hi {p : ℕ} (after : ∀ c ∈ l₂, p < c.start) (touch : p = firstNode r l₂) :
    firstNode r l₂ = r.hi := by
  rcases firstNode_mem r l₂ with first | ⟨c, hc, first⟩
  · exact first
  · exact absurd (touch.trans first) (after c hc).ne

/-- The nodes of a free list, cut where `l₁` ends. -/
theorem nodes_append (r : Region) (l₁ l₂ : List Block) :
    ∃ A B, r.xStartAddr :: l₁.map Block.start = A ++ [lastNode r l₁] ∧
      l₂.map Block.start ++ [r.hi] = firstNode r l₂ :: B ∧ A.length = l₁.length ∧
      nodes r (l₁ ++ l₂) = A ++ lastNode r l₁ :: firstNode r l₂ :: B := by
  have left : ∃ A, r.xStartAddr :: l₁.map Block.start = A ++ [lastNode r l₁] := by
    rcases List.eq_nil_or_concat l₁ with rfl | ⟨l, a, rfl⟩
    · exact ⟨[], rfl⟩
    · exact ⟨r.xStartAddr :: l.map Block.start, by simp⟩
  have right : ∃ B, l₂.map Block.start ++ [r.hi] = firstNode r l₂ :: B := by
    cases l₂ with
    | nil => exact ⟨[], rfl⟩
    | cons a l => exact ⟨l.map Block.start ++ [r.hi], by simp⟩
  obtain ⟨A, hA⟩ := left
  obtain ⟨B, hB⟩ := right
  refine ⟨A, B, hA, hB, ?_, ?_⟩
  · simpa using (congrArg List.length hA).symm
  · rw [nodes, List.map_append, ← List.cons_append, hA, List.append_assoc, hB]
    simp

theorem mem_nodes_append {p : ℕ} : p ∈ nodes r (l₁ ++ l₂) ↔
    p ∈ r.xStartAddr :: l₁.map Block.start ∨ p ∈ l₂.map Block.start ++ [r.hi] := by
  rw [nodes, List.map_append, ← List.cons_append, List.append_assoc, List.mem_append]

theorem mem_nodes_left {p : ℕ} (l₂ : List Block) (hp : p ∈ r.xStartAddr :: l₁.map Block.start) :
    p ∈ nodes r (l₁ ++ l₂) :=
  mem_nodes_append.mpr (.inl hp)

theorem mem_nodes_right {p : ℕ} (l₁ : List Block) (hp : p ∈ l₂.map Block.start ++ [r.hi]) :
    p ∈ nodes r (l₁ ++ l₂) :=
  mem_nodes_append.mpr (.inr hp)

theorem start_mem_nodes (ha : a ∈ free) : a.start ∈ nodes r free :=
  List.mem_append_left _ (List.mem_cons_of_mem _ (List.mem_map_of_mem ha))

theorem Layout.nodes_apart (h : Layout r free live) :
    (nodes r free ++ live.map Block.start).Pairwise Apart := by
  refine (List.Perm.pairwise_iff (R := Apart) Apart.symm ?_).mp h.headers_apart
  have moved : (r.hi :: (free.map Block.start ++ live.map Block.start)).Perm
      (free.map Block.start ++ r.hi :: live.map Block.start) := List.perm_middle.symm
  simpa [Layout.headers, nodes] using moved

theorem Layout.apart_live (h : Layout r free live) (hb : b ∈ live) {p : ℕ}
    (hp : p ∈ nodes r free) : Apart p b.start :=
  (List.pairwise_append.mp h.nodes_apart).2.2 p hp _ (List.mem_map_of_mem hb)

theorem Layout.apart_other {live' : List Block} {d : Block} (h : Layout r free live)
    (perm : live.Perm (b :: live')) (hd : d ∈ live') : Apart b.start d.start := by
  have apart := (List.pairwise_append.mp h.nodes_apart).2.1
  rw [(perm.map Block.start).pairwise_iff Apart.symm, List.map_cons, List.pairwise_cons] at apart
  exact apart.1 _ (List.mem_map_of_mem hd)

/-- The headers of some free blocks are away from those of the other nodes. -/
theorem Layout.apart_free {m : List Block} (h : Layout r (l₁ ++ m ++ l₂) live) (ha : a ∈ m)
    {p : ℕ} (hp : p ∈ r.xStartAddr :: l₁.map Block.start ∨ p ∈ l₂.map Block.start ++ [r.hi]) :
    Apart a.start p := by
  have apart := (List.pairwise_append.mp h.nodes_apart).1
  have shape : nodes r (l₁ ++ m ++ l₂) =
      (r.xStartAddr :: l₁.map Block.start) ++ (m.map Block.start ++
        (l₂.map Block.start ++ [r.hi])) := by
    simp [nodes]
  rw [shape, List.pairwise_append] at apart
  have mem : a.start ∈ m.map Block.start := List.mem_map_of_mem ha
  rcases hp with hp | hp
  · exact (apart.2.2 p hp _ (List.mem_append_left _ mem)).symm
  · exact (List.pairwise_append.mp apart.2.1).2.2 _ mem p hp

theorem lastNode_mem_left (r : Region) (l : List Block) :
    lastNode r l ∈ r.xStartAddr :: l.map Block.start := by
  rcases lastNode_mem r l with last | ⟨a, ha, last⟩
  · simp [last]
  · rw [last]
    exact List.mem_cons_of_mem _ (List.mem_map_of_mem ha)

theorem firstNode_mem_right (r : Region) (l : List Block) :
    firstNode r l ∈ l.map Block.start ++ [r.hi] := by
  rcases firstNode_mem r l with first | ⟨a, ha, first⟩
  · simp [first]
  · rw [first]
    exact List.mem_append_left _ (List.mem_map_of_mem ha)

theorem lastNode_mem_nodes (r : Region) (l₁ l₂ : List Block) :
    lastNode r l₁ ∈ nodes r (l₁ ++ l₂) :=
  mem_nodes_left l₂ (lastNode_mem_left r l₁)

theorem firstNode_mem_nodes (r : Region) (l₁ l₂ : List Block) :
    firstNode r l₂ ∈ nodes r (l₁ ++ l₂) :=
  mem_nodes_right l₁ (firstNode_mem_right r l₂)

theorem Layout.node_lt (h : Layout r free live) {p : ℕ} (hp : p ∈ nodes r free) :
    p < 2 ^ 32 := by
  have record := r.record_lt
  have top := r.hi_add_le
  have wrap := r.no_wrap
  simp only [nodes, List.cons_append, List.mem_cons, List.mem_append, List.mem_map,
    List.not_mem_nil, or_false] at hp
  rcases hp with rfl | ⟨b, hb, rfl⟩ | rfl
  · omega
  · have stop := h.start_add_size_lt (List.mem_append_left live hb)
    omega
  · omega

theorem Layout.lastNode_apart {m : List Block} (h : Layout r (l₁ ++ m ++ l₂) live) {p : ℕ}
    (hp : p ∈ l₂.map Block.start ++ [r.hi]) : Apart (lastNode r l₁) p := by
  have apart := (List.pairwise_append.mp h.nodes_apart).1
  have shape : nodes r (l₁ ++ m ++ l₂) =
      (r.xStartAddr :: l₁.map Block.start ++ m.map Block.start) ++
        (l₂.map Block.start ++ [r.hi]) := by
    simp [nodes]
  rw [shape, List.pairwise_append] at apart
  exact apart.2.2 _ (List.mem_append_left _ (lastNode_mem_left r l₁)) p hp

theorem Layout.lastNode_apart_left {m : List Block} (h : Layout r (l₁ ++ m ++ l₂) live) {p : ℕ}
    (hp : p ∈ r.xStartAddr :: l₁.map Block.start) (ne : p ≠ lastNode r l₁) :
    Apart (lastNode r l₁) p := by
  obtain ⟨A, B, hA, -, -, -⟩ := nodes_append r l₁ l₂
  have apart := (List.pairwise_append.mp h.nodes_apart).1
  have shape : nodes r (l₁ ++ m ++ l₂) =
      A ++ ([lastNode r l₁] ++ (m.map Block.start ++ l₂.map Block.start ++ [r.hi])) := by
    rw [← List.append_assoc, ← hA]
    simp [nodes]
  rw [shape, List.pairwise_append] at apart
  rw [hA, List.mem_append, List.mem_singleton] at hp
  rcases hp with hp | rfl
  · exact (apart.2.2 p hp _ (by simp)).symm
  · exact absurd rfl ne

/-- Replace the nodes of `m` by those of `m'` in the chain from `xStart` to `pxEnd`. -/
theorem Layout.linked_splice {next next' : ℕ → ℕ} {m m' : List Block}
    (layout : Layout r (l₁ ++ m ++ l₂) live) (linked : Linked next (nodes r (l₁ ++ m ++ l₂)))
    (left : ∀ p ∈ r.xStartAddr :: l₁.map Block.start, Apart (lastNode r l₁) p → next' p = next p)
    (right : ∀ p ∈ l₂.map Block.start ++ [r.hi], Apart (lastNode r l₁) p → next' p = next p)
    (between : Linked next' (lastNode r l₁ :: m'.map Block.start ++ [firstNode r l₂])) :
    Linked next' (nodes r (l₁ ++ m' ++ l₂)) := by
  obtain ⟨A, B, hA, hB, -, -⟩ := nodes_append r l₁ l₂
  have cut : ∀ m, nodes r (l₁ ++ m ++ l₂) =
      A ++ lastNode r l₁ :: (m.map Block.start ++ firstNode r l₂ :: B) := by
    intro m
    rw [nodes, List.map_append, List.map_append, List.append_assoc, ← List.cons_append, hA, ← hB]
    simp
  have apart := (List.pairwise_append.mp layout.nodes_apart).1
  rw [cut, List.pairwise_append, List.pairwise_cons] at apart
  obtain ⟨-, ⟨apartRight, -⟩, apartLeft⟩ := apart
  rw [cut] at linked ⊢
  refine linked.splice (fun p hp => left p ?_ ?_) between fun p hp => right p (hB ▸ hp) ?_
  · exact hA ▸ List.mem_append_left _ hp
  · exact (apartLeft p hp _ List.mem_cons_self).symm
  · exact apartRight p (List.mem_append_right _ hp)

namespace Represents

theorem countFree (h : Represents r s free live) : Represents r s.countFree free live :=
  ⟨h.layout, h.ucHeap, h.total, h.xStartAddr, h.pxEnd, h.bit, h.linked, h.startSize, h.freeSize,
    h.endNext, h.endSize, h.liveNext, h.liveSize, h.freeBytes⟩

/-- The successor of the last node before `l₂` is the first one from there on. -/
theorem next_lastNode (h : Represents r s (l₁ ++ l₂) live) :
    s.next (lastNode r l₁) = firstNode r l₂ := by
  obtain ⟨A, B, -, -, -, hnodes⟩ := nodes_append r l₁ l₂
  have linked := h.linked
  rw [hnodes] at linked
  exact (Linked.cons_cons.mp (Linked.split.mp linked).2).1

/-- Single out one block of the free list. -/
theorem single (h : Represents r s (l₁ ++ a :: l₂) live) :
    Represents r s (l₁ ++ [a] ++ l₂) live := by
  simpa using h

/-- The successor of a free block. -/
theorem next_block (h : Represents r s (l₁ ++ a :: l₂) live) :
    s.next a.start = firstNode r l₂ := by
  simpa using h.single.next_lastNode

theorem lastNode_apart (h : Represents r s (l₁ ++ a :: l₂) live) :
    Apart a.start (lastNode r l₁) :=
  h.single.layout.apart_free List.mem_cons_self (.inl (lastNode_mem_left r l₁))

theorem block_ne_hi (h : Represents r s (l₁ ++ a :: l₂) live) : a.start ≠ r.hi :=
  (h.single.layout.apart_free List.mem_cons_self (.inr (by simp))).ne

theorem stop_le_firstNode (h : Represents r s (l₁ ++ a :: l₂) live) : a.stop ≤ firstNode r l₂ := by
  have tail := (List.pairwise_append.mp h.layout.separated).2.1
  rcases firstNode_mem r l₂ with first | ⟨c, hc, first⟩
  · rw [first]
    exact h.layout.stop_le (by simp)
  · rw [first]
    exact ((List.pairwise_cons.mp tail).1 c hc).le

/-- The node before a gap in the free list ends before any address above the gap's
start. -/
theorem lastNode_wadd_ne (h : Represents r s (l₁ ++ l₂) live) {p : ℕ} (apart : p ≠ r.xStartAddr)
    (before : ∀ a ∈ l₁, a.stop < p) :
    Word.wadd (lastNode r l₁) (s.size (lastNode r l₁)) ≠ p := by
  rcases lastNode_mem r l₁ with last | ⟨a, ha, last⟩
  · rw [last, h.startSize, Word.wadd_of_lt (by have := r.record_lt; omega), Nat.add_zero]
    exact apart.symm
  · have mem : a ∈ l₁ ++ l₂ := List.mem_append_left _ ha
    rw [last, h.freeSize a mem,
      Word.wadd_of_lt (h.layout.start_add_size_lt (List.mem_append_left _ mem))]
    exact (before a ha).ne

/-- Replace the free blocks `m` by `m'`. The write may touch the successor field of
the node before them, and any headers `M` that belong to no other free block. -/
theorem relink {s' : State} {free' m m' live' : List Block} {M : List ℕ}
    (h : Represents r s free live) (layout : Layout r free' live')
    (old : free = l₁ ++ m ++ l₂) (new : free' = l₁ ++ m' ++ l₂)
    (touch : Touches s s' (lastNode r l₁ :: M))
    (left : ∀ w ∈ M, ∀ p ∈ r.xStartAddr :: l₁.map Block.start, Apart w p)
    (right : ∀ w ∈ M, ∀ p ∈ l₂.map Block.start ++ [r.hi], Apart w p)
    (lastSize : s'.size (lastNode r l₁) = s.size (lastNode r l₁))
    (between : Linked s'.next (lastNode r l₁ :: m'.map Block.start ++ [firstNode r l₂]))
    (middle : ∀ d ∈ m', s'.size d.start = d.size)
    (kept : ∀ b ∈ live', (b ∈ live ∧ ∀ w ∈ M, Apart w b.start) ∨
      s'.next b.start = 0 ∧ s'.size b.start = b.size + 2 ^ 31)
    (bytes : s'.heap.xFreeBytesRemaining = totalSize free') :
    Represents r s' free' live' := by
  subst old new
  -- the headers of the blocks before, after and in use are out of reach
  have away : ∀ p, Apart (lastNode r l₁) p → (∀ w ∈ M, Apart w p) →
      ∀ w ∈ lastNode r l₁ :: M, Apart w p := by
    intro p last rest w hw
    rcases List.mem_cons.mp hw with rfl | hw
    · exact last
    · exact rest w hw
  have lastLive : ∀ b ∈ live, Apart (lastNode r l₁) b.start := fun b hb =>
    h.layout.apart_live hb (by rw [List.append_assoc]; exact lastNode_mem_nodes r l₁ _)
  have lastRight : ∀ p ∈ l₂.map Block.start ++ [r.hi], Apart (lastNode r l₁) p :=
    fun p hp => h.layout.lastNode_apart hp
  -- before the gap only the successor of the last node changes
  have leftSize : ∀ p ∈ r.xStartAddr :: l₁.map Block.start, s'.size p = s.size p := by
    intro p hp
    by_cases same : p = lastNode r l₁
    · rw [same]
      exact lastSize
    · exact touch.size p (away p (h.layout.lastNode_apart_left hp same) fun w hw => left w hw p hp)
  have rightSize : ∀ p ∈ l₂.map Block.start ++ [r.hi], s'.size p = s.size p := fun p hp =>
    touch.size p (away p (lastRight p hp) fun w hw => right w hw p hp)
  exact {
    layout := layout
    ucHeap := touch.ucHeap.trans h.ucHeap
    total := touch.total.trans h.total
    xStartAddr := touch.xStartAddr.trans h.xStartAddr
    pxEnd := touch.pxEnd.trans h.pxEnd
    bit := touch.bit.trans h.bit
    linked := h.layout.linked_splice h.linked
      (fun p hp last => touch.next p (away p last fun w hw => left w hw p hp))
      (fun p hp last => touch.next p (away p last fun w hw => right w hw p hp)) between
    startSize := (leftSize _ List.mem_cons_self).trans h.startSize
    freeSize := by
      intro d hd
      simp only [List.mem_append] at hd
      rcases hd with (hd | hd) | hd
      · exact (leftSize _ (List.mem_cons_of_mem _ (List.mem_map_of_mem hd))).trans
          (h.freeSize d (by simp [hd]))
      · exact middle d hd
      · exact (rightSize _ (List.mem_append_left _ (List.mem_map_of_mem hd))).trans
          (h.freeSize d (by simp [hd]))
    endNext := by
      have mem : r.hi ∈ l₂.map Block.start ++ [r.hi] := by simp
      exact (touch.next _ (away _ (lastRight _ mem) fun w hw => right w hw _ mem)).trans h.endNext
    endSize := (rightSize _ (by simp)).trans h.endSize
    liveNext := by
      intro b hb
      rcases kept b hb with ⟨mem, rest⟩ | fresh
      · exact (touch.next _ (away _ (lastLive b mem) rest)).trans (h.liveNext b mem)
      · exact fresh.1
    liveSize := by
      intro b hb
      rcases kept b hb with ⟨mem, rest⟩ | fresh
      · exact (touch.size _ (away _ (lastLive b mem) rest)).trans (h.liveSize b mem)
      · exact fresh.2
    freeBytes := bytes }

end Represents

end Components.Allocator
