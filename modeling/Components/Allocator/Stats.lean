import Components.Allocator.Requests

/-!
# Heap statistics

`vPortGetHeapStats` walks the free list and counts its blocks, with the largest and the
smallest of them. The version of `original_heap_4.c` has a `do`-`while` loop, which always
looks at one block before it tests for `pxEnd`. When the free list is empty this block is
`pxEnd` itself, whose successor is `NULL`, and the walk goes on from there. The rewritten
loop tests first.

## Main definitions

* `vPortGetHeapStats`, `originalVPortGetHeapStats` — the two versions
* `ExactStats` — what the first four statistics mean
* `Fresh` — a record in static storage, after `heap_cfg`

## Main results

* `Represents.stats`, `Represents.originalStats` — the walks over a represented free list
* `session_stats` — in every reachable state the statistics are exact
-/

namespace Components.Allocator

open Word

/-- `portMAX_DELAY`. -/
def portMaxDelay : ℕ := 0xffffffff

/-- `HeapStats_t`. -/
structure HeapStats where
  xAvailableHeapSpaceInBytes : ℕ
  xSizeOfLargestFreeBlockInBytes : ℕ
  xSizeOfSmallestFreeBlockInBytes : ℕ
  xNumberOfFreeBlocks : ℕ
  xMinimumEverFreeBytesRemaining : ℕ
  xNumberOfSuccessfulAllocations : ℕ
  xNumberOfSuccessfulFrees : ℕ
  deriving DecidableEq, Repr

/-- What `vPortGetHeapStats` counts. -/
structure Tally where
  xBlocks : ℕ
  xMaxSize : ℕ
  xMinSize : ℕ
  deriving DecidableEq, Repr

/-- Before the first block. -/
def Tally.start : Tally := ⟨0, 0, portMaxDelay⟩

/-- One more block. -/
def Tally.add (v : Tally) (xBlockSize : ℕ) : Tally where
  xBlocks := wadd v.xBlocks 1
  xMaxSize := if xBlockSize > v.xMaxSize then xBlockSize else v.xMaxSize
  xMinSize := if xBlockSize < v.xMinSize then xBlockSize else v.xMinSize

/-- One round of the loop, which also moves `pxBlock` on. -/
def statsRound (s : State) (v : ℕ × Tally) : ℕ × Tally := (s.next v.1, v.2.add (s.size v.1))

/-- The statistics, once the blocks are counted. -/
def heapStats (s : State) (v : Tally) : HeapStats where
  xAvailableHeapSpaceInBytes := s.heap.xFreeBytesRemaining
  xSizeOfLargestFreeBlockInBytes := v.xMaxSize
  xSizeOfSmallestFreeBlockInBytes := v.xMinSize
  xNumberOfFreeBlocks := v.xBlocks
  xMinimumEverFreeBytesRemaining := s.heap.xMinimumEverFreeBytesRemaining
  xNumberOfSuccessfulAllocations := s.heap.xNumberOfSuccessfulAllocations
  xNumberOfSuccessfulFrees := s.heap.xNumberOfSuccessfulFrees

/-- `vPortGetHeapStats` of `heap.c`. -/
def vPortGetHeapStats (s : State) : Except Fault HeapStats := do
  let pxBlock := s.next s.xStartAddr
  -- `NULL` when the heap has not been initialised
  if pxBlock ≠ 0 then
    let v ← loop (fun v => v.1 ≠ s.heap.pxEnd) (statsRound s) (pxBlock, .start)
    return heapStats s v.2
  else return heapStats s .start

/-- `vPortGetHeapStats` of `original_heap_4.c`: the first round comes before the test. -/
def originalVPortGetHeapStats (s : State) : Except Fault HeapStats := do
  let pxBlock := s.next s.xStartAddr
  if pxBlock ≠ 0 then
    let v ← loop (fun v => v.1 ≠ s.heap.pxEnd) (statsRound s) (statsRound s (pxBlock, .start))
    return heapStats s v.2
  else return heapStats s .start

variable {r : Region} {s s' : State} {free live : List Block} {b : Block} {op : Op}
  {ops : List Op} {ndebug : Bool} {result : ℕ} {t : Session}

/-! ### Counting -/

/-- The tally of a list of sizes. -/
def Tally.all (v : Tally) (sizes : List ℕ) : Tally := sizes.foldl Tally.add v

namespace Tally

theorem add_xMaxSize (v : Tally) (n : ℕ) : (v.add n).xMaxSize = max v.xMaxSize n := by
  unfold add
  dsimp only
  split_ifs <;> omega

theorem add_xMinSize (v : Tally) (n : ℕ) : (v.add n).xMinSize = min v.xMinSize n := by
  unfold add
  dsimp only
  split_ifs <;> omega

theorem all_xMaxSize (v : Tally) (sizes : List ℕ) :
    (v.all sizes).xMaxSize = sizes.foldl max v.xMaxSize := by
  induction sizes generalizing v with
  | nil => rfl
  | cons n sizes ih =>
    rw [List.foldl_cons, ← add_xMaxSize]
    exact ih (v.add n)

theorem all_xMinSize (v : Tally) (sizes : List ℕ) :
    (v.all sizes).xMinSize = sizes.foldl min v.xMinSize := by
  induction sizes generalizing v with
  | nil => rfl
  | cons n sizes ih =>
    rw [List.foldl_cons, ← add_xMinSize]
    exact ih (v.add n)

theorem all_xBlocks (v : Tally) (sizes : List ℕ) (few : v.xBlocks + sizes.length < 2 ^ 32) :
    (v.all sizes).xBlocks = v.xBlocks + sizes.length := by
  induction sizes generalizing v with
  | nil => rfl
  | cons n sizes ih =>
    rw [List.length_cons] at few ⊢
    have one : (v.add n).xBlocks = v.xBlocks + 1 := wadd_of_lt (by omega)
    have rest := ih (v.add n) (by omega)
    rw [one] at rest
    exact rest.trans (by omega)

theorem start_xMaxSize (sizes : List ℕ) : (start.all sizes).xMaxSize = sizes.max?.getD 0 := by
  rw [all_xMaxSize]
  cases sizes with
  | nil => rfl
  | cons n sizes => simp [start, List.max?]

theorem start_xMinSize {sizes : List ℕ} (small : ∀ n ∈ sizes, n ≤ portMaxDelay) :
    (start.all sizes).xMinSize = sizes.min?.getD portMaxDelay := by
  rw [all_xMinSize]
  cases sizes with
  | nil => rfl
  | cons n sizes =>
    have first : min start.xMinSize n = n := min_eq_right (small n List.mem_cons_self)
    rw [List.foldl_cons, first]
    rfl

end Tally

/-! ### The walk -/

/-- The statistics of the free list: the number of its blocks, the largest and the smallest
size, and their sum. -/
structure ExactStats (free : List Block) (stats : HeapStats) : Prop where
  blocks : stats.xNumberOfFreeBlocks = free.length
  largest : stats.xSizeOfLargestFreeBlockInBytes = (free.map Block.size).max?.getD 0
  smallest : stats.xSizeOfSmallestFreeBlockInBytes = (free.map Block.size).min?.getD portMaxDelay
  available : stats.xAvailableHeapSpaceInBytes = totalSize free

namespace Represents

/-- The end marker is no free block. -/
theorem start_ne_pxEnd (h : Represents r s free live) (hb : b ∈ free) :
    b.start ≠ s.heap.pxEnd := by
  obtain ⟨l, l', rfl⟩ := List.append_of_mem hb
  rw [h.pxEnd]
  exact h.block_ne_hi

/-- The walk from any node of the free list. -/
theorem stats_loop {l₁ l₂ : List Block} (h : Represents r s (l₁ ++ l₂) live) (v : Tally) :
    loop (fun v => v.1 ≠ s.heap.pxEnd) (statsRound s) (firstNode r l₂, v) =
      .ok (r.hi, v.all (l₂.map Block.size)) := by
  obtain ⟨A, B, -, hB, -, hnodes⟩ := nodes_append r l₁ l₂
  have linked : Linked s.next (l₂.map Block.start ++ [r.hi]) := by
    have all := h.linked
    rw [hnodes, Linked.split] at all
    rw [hB]
    exact all.2.tail
  have short : (l₂.map Block.start).length < 2 ^ 32 := by
    have len := h.layout.length_free_lt
    rw [List.length_append] at len
    rw [List.length_map]
    omega
  have onward : ∀ p ∈ l₂.map Block.start, decide (p ≠ s.heap.pxEnd) = true := by
    intro p hp
    obtain ⟨b, hb, rfl⟩ := List.mem_map.mp hp
    exact decide_eq_true (h.start_ne_pxEnd (List.mem_append_right _ hb))
  have walk := whileLoop_linked_fold (f := fun v p => v.add (s.size p)) (b := v) linked
    (p := firstNode r l₂) (by rw [hB]; rfl) onward (by simp [h.pxEnd]) short
  -- the sizes in the headers are those of the blocks
  have sizes : (l₂.map Block.start).foldl (fun v p => v.add (s.size p)) v =
      v.all (l₂.map Block.size) := by
    rw [Tally.all, List.foldl_map, List.foldl_map]
    refine List.foldl_ext _ _ _ fun v b hb => ?_
    rw [h.freeSize b (List.mem_append_right _ hb)]
  rw [sizes] at walk
  exact loop_of_whileLoop walk

/-- The list starts at a block, or at the end marker. -/
theorem first (h : Represents r s free live) (array : r.ucHeap ≠ 0) :
    s.next s.xStartAddr = firstNode r free ∧ firstNode r free ≠ 0 := by
  have all : Represents r s ([] ++ free) live := h
  have above := r.ucHeap_le_lo
  refine ⟨h.xStartAddr ▸ all.next_lastNode, ?_⟩
  rcases firstNode_mem r free with last | ⟨b, hb, start⟩
  · have room := r.lo_add_le_hi
    omega
  · have low := h.layout.le_start (List.mem_append_left live hb)
    omega

/-- Over a represented free list the statistics are exact. -/
theorem exactStats (h : Represents r s free live) :
    ExactStats free (heapStats s (Tally.start.all (free.map Block.size))) where
  blocks := by
    have len := h.layout.length_free_lt
    have count := Tally.all_xBlocks .start (free.map Block.size)
      (by rw [List.length_map]; simp only [Tally.start]; omega)
    simpa [heapStats, Tally.start] using count
  largest := Tally.start_xMaxSize _
  smallest := by
    refine Tally.start_xMinSize fun n hn => ?_
    obtain ⟨b, hb, rfl⟩ := List.mem_map.mp hn
    have small := h.layout.size_lt (List.mem_append_left live hb)
    unfold portMaxDelay
    omega
  available := h.freeBytes

theorem stats (h : Represents r s free live) (array : r.ucHeap ≠ 0) :
    vPortGetHeapStats s = .ok (heapStats s (Tally.start.all (free.map Block.size))) := by
  have all : Represents r s ([] ++ free) live := h
  obtain ⟨next, ne⟩ := h.first array
  rw [vPortGetHeapStats, next, if_pos ne, all.stats_loop]
  rfl

/-- The `do`-`while` loop has counted the first block when it tests for the end. -/
theorem originalStats (h : Represents r s free live) (array : r.ucHeap ≠ 0) (some : free ≠ []) :
    originalVPortGetHeapStats s = .ok (heapStats s (Tally.start.all (free.map Block.size))) := by
  obtain ⟨next, ne⟩ := h.first array
  obtain ⟨b, l, rfl⟩ := List.exists_cons_of_ne_nil some
  have rest : Represents r s ([b] ++ l) live := h
  have front : Represents r s ([] ++ b :: l) live := h
  have round : statsRound s (firstNode r (b :: l), .start) =
      (firstNode r l, Tally.start.add b.size) := by
    rw [firstNode_cons, statsRound, front.next_block, h.freeSize b List.mem_cons_self]
  rw [originalVPortGetHeapStats, next, if_pos ne, round, rest.stats_loop]
  rfl

end Represents

/-! ### Reachable states -/

theorem walk_pxEnd (s : State) (n : ℕ) : walk s n s.heap.pxEnd = [] := by
  cases n with
  | zero => rfl
  | succ n => exact if_pos rfl

/-- A record in static storage, with an array that is an object, after `heap_cfg`. -/
structure Fresh (r : Region) (s : State) : Prop extends Blank r s where
  array : r.ucHeap ≠ 0
  xStart : s.heap.xStart.pxNextFreeBlock = 0
  freeBytes : s.heap.xFreeBytesRemaining = 0

/-- As long as the heap is not initialised its record is as `heap_cfg` leaves it. -/
structure Zeroed (s : State) : Prop where
  first : s.next s.xStartAddr = 0
  freeBytes : s.heap.xFreeBytesRemaining = 0

theorem Fresh.zeroed (h : Fresh r s) : Zeroed s where
  first := by rw [State.next, if_pos rfl, h.xStart]
  freeBytes := h.freeBytes

/-- Only the first `PortMalloc` and `name_reinit` change the record of a heap that is not
initialised, and they initialise it. -/
theorem Managed.exec_zeroed (h : Managed r s live) (allowed : op.Allowed live)
    (done : op.exec ndebug s = .ok (s', result)) (zeroed : s.heap.pxEnd = 0 → Zeroed s)
    (blank : s'.heap.pxEnd = 0) : Zeroed s' := by
  cases op with
  | malloc n =>
    obtain ⟨free, represents, ⟨-, refused⟩ | ⟨l₁, b, l₂, -, rfl, fits, served⟩⟩ :=
      h.malloc_cases n ndebug
    · cases refused.symm.trans done
      exact absurd blank represents.pxEnd_ne
    · have after := (represents.served fits).2
      cases served.symm.trans done
      exact absurd blank after.pxEnd_ne
  | free pv =>
    rcases h.free_cases allowed ndebug with ⟨nothing, -⟩ |
      ⟨free, free', b, p, t, -, -, -, freed, after, -⟩
    · cases nothing.symm.trans done
      exact zeroed blank
    · cases freed.symm.trans done
      exact absurd blank after.pxEnd_ne
  | reinit =>
    cases done
    exact absurd blank h.reinit_represents.pxEnd_ne
  | write a v =>
    cases done
    have before := zeroed blank
    exact ⟨by simpa [State.next] using before.first, before.freeBytes⟩

/-- What every session that starts fresh satisfies. -/
structure Tracked (r : Region) (t : Session) : Prop extends Sound r t where
  zeroed : t.state.heap.pxEnd = 0 → Zeroed t.state

namespace Tracked

theorem run (h : Tracked r t) (adm : (machine ndebug).Admissible t ops) :
    ∃ t' results, (machine ndebug).run t ops = .ok (t', results) ∧ Tracked r t' := by
  refine Machine.exists_run_of_invariant (fun t op tracked allowed => ?_) h adm
  obtain ⟨t', result, done, sound⟩ := tracked.toSound.step allowed ndebug
  obtain ⟨s', result', exec, -⟩ := tracked.managed.exec allowed ndebug
  cases done.symm.trans (Session.step_eq exec)
  exact ⟨_, _, done, sound, tracked.managed.exec_zeroed allowed exec tracked.zeroed⟩

/-- The statistics are those of the free list, initialised or not. -/
theorem stats (h : Tracked r t) (array : r.ucHeap ≠ 0) :
    ∃ stats, vPortGetHeapStats t.state = .ok stats ∧ ExactStats (freeBlocks t.state) stats ∧
      (freeBlocks t.state ≠ [] → originalVPortGetHeapStats t.state = .ok stats) := by
  by_cases init : t.state.heap.pxEnd = 0
  · obtain ⟨first, freeBytes⟩ := h.zeroed init
    have list : freeBlocks t.state = [] := by
      rw [freeBlocks, first, ← init]
      exact walk_pxEnd t.state _
    rw [list]
    refine ⟨heapStats t.state .start, ?_, ⟨rfl, rfl, rfl, freeBytes⟩, fun some => absurd rfl some⟩
    rw [vPortGetHeapStats, first, if_neg (by decide)]
    rfl
  · obtain ⟨free, represents⟩ := h.managed.represents init
    rw [represents.freeBlocks_eq]
    exact ⟨_, represents.stats array, represents.exactStats, represents.originalStats array⟩

end Tracked

/-- Some free block is large enough exactly when the largest one is. -/
theorem ExactStats.fits_iff {stats : HeapStats} (h : ExactStats free stats) {n : ℕ} (pos : 0 < n) :
    (∃ b ∈ free, n ≤ b.size) ↔ n ≤ stats.xSizeOfLargestFreeBlockInBytes := by
  rw [h.largest]
  cases max : (free.map Block.size).max? with
  | none =>
    have empty : free = [] := by simpa using max
    simp [empty, pos.ne']
  | some m =>
    obtain ⟨mem, upper⟩ := List.max?_eq_some_iff.mp max
    obtain ⟨b, hb, rfl⟩ := List.mem_map.mp mem
    constructor
    · rintro ⟨c, hc, fits⟩
      exact fits.trans (upper _ (List.mem_map_of_mem hc))
    · exact fun fits => ⟨b, hb, fits⟩

/-- In every reachable state the statistics are those of the free list. They agree with the
original version unless the free list is empty, and on an initialised heap the largest
block tells whether the next request is served. -/
theorem session_stats (fresh : Fresh r s) (adm : (machine ndebug).Admissible (.start s) ops) :
    ∃ t results stats, (machine ndebug).run (.start s) ops = .ok (t, results) ∧
      vPortGetHeapStats t.state = .ok stats ∧ ExactStats (freeBlocks t.state) stats ∧
      (freeBlocks t.state ≠ [] → originalVPortGetHeapStats t.state = .ok stats) ∧
      (t.state.heap.pxEnd ≠ 0 → ∀ n : UInt32, 0 < n.toNat → n.toNat < 2 ^ 31 →
        ∃ t' p, (machine ndebug).step t (.malloc n) = .ok (t', p) ∧
          (p ≠ 0 ↔ needed n.toNat ≤ stats.xSizeOfLargestFreeBlockInBytes)) := by
  have start : Tracked r (.start s) := ⟨fresh.toBlank.sound, fun _ => fresh.zeroed⟩
  obtain ⟨t, results, done, tracked⟩ := start.run adm
  obtain ⟨stats, walk, exact, original⟩ := tracked.stats fresh.array
  refine ⟨t, results, stats, done, walk, exact, original, fun init n pos small => ?_⟩
  obtain ⟨t', p, step, -⟩ := tracked.managed.malloc_spec n ndebug
  refine ⟨t', p, step, ?_⟩
  have same : ensureInit t.state = t.state := if_neg init
  have low : 0 < needed n.toNat := Nat.lt_of_lt_of_le (by decide) (eight_le_needed n.toNat)
  rw [tracked.managed.malloc_served_iff n step, same, firstFit_isSome_iff, exact.fits_iff low]
  exact ⟨fun served => served.2.2, fun fits => ⟨pos.ne', small, fits⟩⟩

theorem smallState_fresh : Fresh smallRegion smallState := ⟨smallState_blank, by decide, rfl, rfl⟩

/-- After `busyRun` one block of 68 bytes is left, which a request for 60 bytes takes. -/
theorem session_stats_small :
    ∃ t results stats, (machine false).run (.start smallState) busyRun = .ok (t, results) ∧
      vPortGetHeapStats t.state = .ok stats ∧ originalVPortGetHeapStats t.state = .ok stats ∧
      stats.xNumberOfFreeBlocks = 1 ∧ stats.xSizeOfLargestFreeBlockInBytes = 68 ∧
      ∃ t' p, (machine false).step t (.malloc 60) = .ok (t', p) ∧ p ≠ 0 := by
  have adm : (machine false).Admissible (.start smallState) busyRun := by decide +kernel
  obtain ⟨t, results, stats, done, walk, exact, original, next⟩ :=
    session_stats smallState_fresh adm
  have final : ((machine false).run (.start smallState) busyRun).map
      (fun final => (freeBlocks final.1.state, final.1.state.heap.pxEnd)) =
        .ok ([⟨1052, 68⟩], 1120) := by
    decide +kernel
  rw [done] at final
  obtain ⟨list, pxEnd⟩ := Prod.mk.inj (Except.ok.inj final)
  rw [list] at exact original
  have largest : stats.xSizeOfLargestFreeBlockInBytes = 68 := exact.largest
  obtain ⟨t', p, step, served⟩ := next (by rw [pxEnd]; decide) 60 (by decide) (by decide)
  refine ⟨t, results, stats, done, walk, original (by simp), exact.blocks, largest, t', p, step, ?_⟩
  rw [served, largest]
  decide

end Components.Allocator
