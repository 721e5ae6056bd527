import Components.Allocator.Session

/-!
# States that agree on an array

Two states agree on an array when they have the same record and the same bytes
there. Equal header writes keep them in agreement, and headers in the array read the
same in both. Since every call is a sequence of header writes to addresses that the
layout determines, calls on agreeing states return the same results and leave
agreeing states, whatever the rest of memory and the tag bit of a blank heap are.

## Main definitions

* `Agree` — the same record and the same bytes on a set of addresses
* `Readable` — a header that agreeing states read alike

## Main results

* `Agree.exec` — a call on agreeing states
* `Managed.transfer` — a managed heap stays managed when the rest of memory changes
-/

namespace Components.Allocator

open ByteMemory Word

variable {A : ℕ → Prop} {r : Region} {s s' u u' : State} {free live l₁ l₂ : List Block} {b : Block}
  {op : Op} {ndebug : Bool} {p q v k result : ℕ}

/-- The same record, and the same bytes at the addresses in `A`. -/
structure Agree (A : ℕ → Prop) (s s' : State) : Prop where
  heap : s.heap = s'.heap
  xStartAddr : s.xStartAddr = s'.xStartAddr
  mem : ∀ x, A x → s.mem x = s'.mem x

/-- The header lies in the record or in `A`. -/
def Readable (A : ℕ → Prop) (s : State) (p : ℕ) : Prop :=
  p = s.xStartAddr ∨ ∀ x, p ≤ x → x < p + 8 → A x

theorem Readable.setSize (h : Readable A s p) (q v : ℕ) : Readable A (s.setSize q v) p := by
  rw [Readable, State.setSize_xStartAddr]
  exact h

namespace Agree

/-! ### Header accesses -/

theorem next_eq (h : Agree A s s') (hp : Readable A s p) : s.next p = s'.next p := by
  unfold State.next
  rw [← h.xStartAddr, h.heap]
  -- the header of the record, or four bytes of the array
  split_ifs with record
  · rfl
  · have bytes := hp.resolve_left record
    exact load32_congr fun x low high => h.mem x (bytes x low (by omega))

theorem size_eq (h : Agree A s s') (hp : Readable A s p) : s.size p = s'.size p := by
  unfold State.size
  rw [← h.xStartAddr, h.heap]
  split_ifs with record
  · rfl
  · have bytes := hp.resolve_left record
    exact load32_congr fun x low high => h.mem x (bytes x (by omega) (by omega))

theorem setNext (h : Agree A s s') (p v : ℕ) : Agree A (s.setNext p v) (s'.setNext p v) := by
  unfold State.setNext
  rw [← h.xStartAddr]
  split_ifs with record
  · exact ⟨by dsimp only; rw [h.heap], rfl, h.mem⟩
  · exact ⟨h.heap, rfl, store32_congr_on h.mem p v⟩

theorem setSize (h : Agree A s s') (p v : ℕ) : Agree A (s.setSize p v) (s'.setSize p v) := by
  unfold State.setSize
  rw [← h.xStartAddr]
  split_ifs with record
  · exact ⟨by dsimp only; rw [h.heap], rfl, h.mem⟩
  · exact ⟨h.heap, rfl, store32_congr_on h.mem (p + 4) v⟩

/-- A change of the record that does not look at memory. -/
theorem mapHeap (h : Agree A s s') (f : Heap → Heap) :
    Agree A { s with heap := f s.heap } { s' with heap := f s'.heap } :=
  ⟨congrArg f h.heap, h.xStartAddr, h.mem⟩

/-! ### The pieces of the calls -/

theorem initialised (h : Agree A s s') (r : Region) :
    Agree A (initialised r s) (initialised r s') := by
  have record := h.mapHeap fun heap => { heap with
    xStart := { pxNextFreeBlock := r.lo, xBlockSize := 0 }
    pxEnd := r.hi }
  have written : Agree A (laidOut r s) (laidOut r s') :=
    (((record.setSize r.hi 0).setNext r.hi 0).setSize r.lo (r.hi - r.lo)).setNext r.lo r.hi
  have counted := written.mapHeap fun heap => { heap with
    xMinimumEverFreeBytesRemaining := r.hi - r.lo
    xFreeBytesRemaining := r.hi - r.lo }
  unfold Allocator.initialised
  exact ⟨counted.heap, counted.xStartAddr, counted.mem⟩

theorem ensureInit (h : Agree A s s') (configured : Configured r s)
    (configured' : Configured r s') :
    Agree A (ensureInit s) (ensureInit s') := by
  unfold Allocator.ensureInit
  rw [← h.heap]
  split_ifs with blank
  · rw [heapInit_eq configured, heapInit_eq configured']
    exact h.initialised r
  · exact h

theorem tagged (h : Agree A s s') (b : Block) : Agree A (tagged s b) (tagged s' b) := by
  have counted := h.mapHeap fun heap => { heap with
    xFreeBytesRemaining := heap.xFreeBytesRemaining - b.size
    xMinimumEverFreeBytesRemaining :=
      min (heap.xFreeBytesRemaining - b.size) heap.xMinimumEverFreeBytesRemaining }
  exact ((counted.setSize _ _).setNext _ _).mapHeap fun heap => { heap with
    xNumberOfSuccessfulAllocations := wadd heap.xNumberOfSuccessfulAllocations 1 }

theorem handOut (h : Agree A s s') (r : Region) (l₁ l₂ : List Block) (b : Block) (k : ℕ) :
    Agree A (handOut r s l₁ l₂ b k) (handOut r s' l₁ l₂ b k) := by
  -- each write is the same in both states, whatever the values it replaces
  have taken : Agree A (unlinked r s l₁ l₂ b k) (unlinked r s' l₁ l₂ b k) := by
    have cut := h.setNext (lastNode r l₁) (firstNode r l₂)
    unfold unlinked
    dsimp only
    split_ifs
    · exact (((cut.setSize _ _).setSize _ _).setNext _ _).setNext _ _
    · exact cut
  exact taken.tagged (Allocator.taken b k)

theorem released (h : Agree A s s') (b : Block) : Agree A (released s b) (released s' b) := by
  have cleared := (h.setSize b.start b.size).mapHeap fun heap => { heap with
    xFreeBytesRemaining := heap.xFreeBytesRemaining + b.size }
  refine ⟨?_, cleared.xStartAddr, cleared.mem⟩
  have counter := cleared.heap
  unfold Allocator.released State.setFreeBytesRemaining
  simpa only [State.setSize_free] using counter

/-- The second half of linking, after a possible merge with the block before. -/
theorem linkNext (h : Agree A s s') (it : Readable A s p) (block : Readable A s q)
    (next : Readable A s (s.next p)) (stable : ∀ v, (s.setSize q v).next p = s.next p) :
    Agree A
      (if wadd q (s.size q) = s.next p then
        if s.next p ≠ s.heap.pxEnd then
          let s := s.setSize q (wadd (s.size q) (s.size (s.next p)))
          s.setNext q (s.next (s.next p))
        else s.setNext q s.heap.pxEnd
      else s.setNext q (s.next p))
      (if wadd q (s'.size q) = s'.next p then
        if s'.next p ≠ s'.heap.pxEnd then
          let s := s'.setSize q (wadd (s'.size q) (s'.size (s'.next p)))
          s.setNext q (s.next (s.next p))
        else s'.setNext q s'.heap.pxEnd
      else s'.setNext q (s'.next p)) := by
  rw [← h.size_eq block, ← h.next_eq it, ← h.heap, ← h.size_eq next]
  split_ifs
  · dsimp only
    have sized := h.setSize q (wadd (s.size q) (s.size (s.next p)))
    -- the size is written first, and the successors are read after
    rw [← sized.next_eq (it.setSize q _), stable, ← sized.next_eq (next.setSize q _)]
    exact sized.setNext _ _
  · exact h.setNext _ _
  · exact h.setNext _ _

/-- Linking reads the two nodes and the successor of the first. -/
theorem linkBlock (h : Agree A s s') (it : Readable A s p) (block : Readable A s q)
    (next : Readable A s (s.next p)) (apart : Apart p q) :
    Agree A (linkBlock s p q) (linkBlock s' p q) := by
  unfold Allocator.linkBlock
  dsimp only
  rw [← h.size_eq it, ← h.size_eq block]
  by_cases prev : wadd p (s.size p) = q
  · -- after the merge the first node stands for the block
    have sized := h.setSize p (wadd (s.size p) (s.size q))
    have it' : Readable A (s.setSize p (wadd (s.size p) (s.size q))) p := it.setSize p _
    have next' : Readable A (s.setSize p (wadd (s.size p) (s.size q)))
        ((s.setSize p (wadd (s.size p) (s.size q))).next p) := by
      rw [State.next_setSize_self]
      exact next.setSize p _
    simp only [prev, ↓reduceIte, ne_eq, not_true_eq_false]
    exact sized.linkNext it' it' next' fun v => State.next_setSize_self
  · simp only [prev, ↓reduceIte, apart.ne, ne_eq, not_false_eq_true]
    exact (h.linkNext it block next fun v =>
      State.next_setSize_of_apart apart.symm).setNext p q

end Agree

/-! ### Calls -/

/-- Every header of a layout lies in the record or in the array. -/
theorem Represents.readable (h : Represents r s free live)
    (hp : p ∈ nodes r free ++ live.map Block.start) : Readable r.Holds s p := by
  have low := r.ucHeap_le_lo
  have room := r.lo_add_le_hi
  have high := r.hi_add_le
  unfold Readable Region.Holds
  rw [h.xStartAddr]
  -- the record, the end marker, and the blocks
  rcases mem_headers hp with rfl | rfl | ⟨d, hd, rfl⟩
  · exact .inl rfl
  · exact .inr fun x _ _ => ⟨by omega, by omega⟩
  · have start := h.layout.le_start hd
    have stop := h.layout.stop_le hd
    have large := h.layout.large d hd
    unfold Block.stop at stop
    exact .inr fun x _ _ => ⟨by omega, by omega⟩

/-- A heap is represented by its record and its array alone, but for the tag bit. -/
theorem Represents.transfer (h : Represents r s free live) (agree : Agree r.Holds s s')
    (bit : s'.xBlockAllocatedBit = 2 ^ 31) : Represents r s' free live := by
  -- every header that the representation reads is readable
  have node : ∀ w ∈ nodes r free, s'.next w = s.next w ∧ s'.size w = s.size w := fun w hw =>
    have readable := h.readable (List.mem_append_left _ hw)
    ⟨(agree.next_eq readable).symm, (agree.size_eq readable).symm⟩
  have used : ∀ b ∈ live, s'.next b.start = s.next b.start ∧ s'.size b.start = s.size b.start :=
    fun b hb =>
      have readable := h.readable (List.mem_append_right _ (List.mem_map_of_mem hb))
      ⟨(agree.next_eq readable).symm, (agree.size_eq readable).symm⟩
  have last : r.hi ∈ nodes r free := by simp [nodes]
  exact {
    layout := h.layout
    ucHeap := agree.heap ▸ h.ucHeap
    total := agree.heap ▸ h.total
    xStartAddr := agree.xStartAddr ▸ h.xStartAddr
    pxEnd := agree.heap ▸ h.pxEnd
    bit := bit
    linked := h.linked.congr fun w hw => (node w hw).1
    startSize := ((node _ (by simp [nodes])).2).trans h.startSize
    freeSize := fun b hb => ((node _ (start_mem_nodes hb)).2).trans (h.freeSize b hb)
    endNext := (node _ last).1.trans h.endNext
    endSize := (node _ last).2.trans h.endSize
    liveNext := fun b hb => (used b hb).1.trans (h.liveNext b hb)
    liveSize := fun b hb => (used b hb).2.trans (h.liveSize b hb)
    freeBytes := agree.heap ▸ h.freeBytes }

namespace Managed

/-- A managed heap stays managed when the rest of memory changes. -/
theorem transfer (h : Managed r s live) (agree : Agree r.Holds s s')
    (bit : s'.xBlockAllocatedBit = s.xBlockAllocatedBit ∨ s'.xBlockAllocatedBit = 2 ^ 31) :
    Managed r s' live := by
  refine ⟨⟨agree.heap ▸ h.configured.ucHeap, agree.heap ▸ h.configured.total,
    agree.xStartAddr ▸ h.configured.xStartAddr⟩, ?_⟩
  rcases h.blank_or with blank | ⟨free, represents⟩
  · exact .inl (agree.heap ▸ blank)
  · refine .inr ⟨free, represents.transfer agree ?_⟩
    rcases bit with same | set
    · exact same.trans represents.bit
    · exact set

/-- A call leaves the tag bit alone or sets it to its one value. -/
theorem exec_bit (h : Managed r s live) (allowed : op.Allowed live)
    (done : op.exec ndebug s = .ok (u, result)) :
    u.xBlockAllocatedBit = s.xBlockAllocatedBit ∨ u.xBlockAllocatedBit = 2 ^ 31 := by
  cases op with
  -- only `HeapInit` writes the bit, which `malloc` may call
  | malloc n =>
    obtain ⟨free, represents, ⟨-, refused⟩ | ⟨l₁, b, l₂, -, rfl, fits, served⟩⟩ :=
      h.malloc_cases n ndebug
    · cases refused.symm.trans done
      exact .inr represents.bit
    · cases served.symm.trans done
      exact .inr ((handOut_touches r _ l₁ l₂ b _).bit.trans represents.bit)
  | free pv =>
    rcases h.free_cases allowed ndebug with ⟨nothing, -⟩ |
      ⟨_, _, _, _, _, -, -, -, freed, -, -, -, touch, -⟩
    · cases nothing.symm.trans done
      exact .inl rfl
    · cases freed.symm.trans done
      exact .inl touch.bit
  | reinit =>
    have after := h.reinit_represents.bit
    rw [← (Prod.mk.inj (Except.ok.inj done)).1]
    exact .inr after
  | write a v =>
    rw [← (Prod.mk.inj (Except.ok.inj done)).1]
    exact .inl rfl

end Managed

namespace Agree

/-- Freeing the same live block in agreeing states. -/
theorem portFree (h : Agree r.Holds s s') (represents : Represents r s free live)
    (represents' : Represents r s' free live) (hb : b ∈ live) (ndebug : Bool) :
    ∃ u u', portFree ndebug s (b.start + 8) = .ok u ∧
      portFree ndebug s' (b.start + 8) = .ok u' ∧ Agree r.Holds u u' := by
  obtain ⟨l₁, l₂, rfl, before, after⟩ := represents.layout.exists_split hb
  have last := lastNode_mem_nodes r l₁ l₂
  have addr : (Allocator.released s b).xStartAddr = s.xStartAddr :=
    (Represents.released_touches s b).xStartAddr
  -- releasing writes the header of the block and leaves `xStart` where it is
  have readable : ∀ w, w ∈ nodes r (l₁ ++ l₂) ++ live.map Block.start →
      Readable r.Holds (Allocator.released s b) w := by
    intro w hw
    unfold Readable
    rw [addr]
    exact represents.readable hw
  have next : (Allocator.released s b).next (lastNode r l₁) = firstNode r l₂ :=
    (represents.released_next hb last).trans represents.next_lastNode
  have linked := (h.released b).linkBlock (readable _ (List.mem_append_left _ last))
    (readable b.start (List.mem_append_right _ (List.mem_map_of_mem hb)))
    (next ▸ readable _ (List.mem_append_left _ (firstNode_mem_nodes r l₁ l₂)))
    (represents.layout.apart_live hb last)
  refine ⟨_, _, represents.portFree_eq hb before after ndebug,
    represents'.portFree_eq hb before after ndebug, ?_⟩
  exact linked.mapHeap fun heap => { heap with
    xNumberOfSuccessfulFrees := wadd heap.xNumberOfSuccessfulFrees 1 }

/-- Agreeing managed heaps answer a call alike and agree afterwards. -/
theorem exec (h : Agree r.Holds s s') (managed : Managed r s live) (managed' : Managed r s' live)
    (allowed : op.Allowed live) (ndebug : Bool) :
    ∃ u u' result, op.exec ndebug s = .ok (u, result) ∧ op.exec ndebug s' = .ok (u', result) ∧
      Agree r.Holds u u' ∧ op.live u result live = op.live u' result live := by
  cases op with
  | malloc n =>
    obtain ⟨free, represents⟩ := managed.ensureInit_represents
    obtain ⟨free', represents'⟩ := managed'.ensureInit_represents
    -- the live blocks determine the free list, so both heaps have the same one
    have lists : free = free' :=
      represents.layout.free_eq_of_live_perm represents'.layout (List.Perm.refl _)
    subst lists
    have agree := h.ensureInit managed.configured managed'.configured
    -- the search gives the same block or fails in both
    cases fit : firstFit free n.toNat with
    | none =>
      exact ⟨_, _, 0, represents.portMalloc_refused n.toNat_lt ndebug fit,
        represents'.portMalloc_refused n.toNat_lt ndebug fit, agree, rfl⟩
    | some b =>
      obtain ⟨l₁, l₂, rfl, small, fits⟩ := exists_split_of_firstFit fit
      refine ⟨_, _, _, represents.portMalloc_served ndebug fit small fits,
        represents'.portMalloc_served ndebug fit small fits, agree.handOut r l₁ l₂ b _, ?_⟩
      rw [(represents.served fits).1, (represents'.served fits).1]
  | free pv =>
    rcases allowed with rfl | ⟨b, hb, rfl⟩
    · exact ⟨_, _, 0, rfl, rfl, h, rfl⟩
    · obtain ⟨free, represents⟩ := managed.represents_of_mem hb
      obtain ⟨free', represents'⟩ := managed'.represents_of_mem hb
      have lists : free = free' :=
        represents.layout.free_eq_of_live_perm represents'.layout (List.Perm.refl _)
      subst lists
      obtain ⟨u, u', done, done', agree⟩ := h.portFree represents represents' hb ndebug
      refine ⟨u, u', 0, ?_, ?_, agree, rfl⟩
      · rw [Op.exec, done]
        rfl
      · rw [Op.exec, done']
        rfl
  | reinit =>
    have cleared : Agree r.Holds s.cleared s'.cleared := by
      refine ⟨?_, h.xStartAddr, h.mem⟩
      unfold State.cleared
      dsimp only
      rw [h.heap]
    refine ⟨_, _, 0, rfl, rfl, ?_, by simp only [Op.live]⟩
    rw [reinit_eq managed.configured, reinit_eq managed'.configured]
    exact cleared.initialised r
  | write a v =>
    refine ⟨_, _, 0, rfl, rfl, ⟨h.heap, h.xStartAddr, fun x hx => ?_⟩, rfl⟩
    by_cases same : x = a
    · subst same
      simp
    · simp [same, h.mem x hx]

end Agree

end Components.Allocator
