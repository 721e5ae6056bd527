import Components.Allocator.Headers
import Components.Math.Blocks

/-!
# How a heap array is divided into blocks

A region is the array of one heap together with the address of its record, under
the conditions the allocator needs: the array does not wrap around the address
space, is shorter than `2 ^ 31` bytes, has room for two headers after alignment,
and does not overlap the record. A layout divides the part from the aligned start
to the end marker into free and live blocks.

This layer knows nothing of memory. It states what the free list is for — the free
blocks are exactly the maximal gaps between the live ones — and how taking,
cutting and returning a block change the division.

## Main definitions

* `Region`, `Region.lo`, `Region.hi` — the array, its aligned start, its end marker
* `Layout` — free and live blocks that divide a region
* `Layout.headers` — the addresses of all headers in use

## Main results

* `Layout.headers_apart` — headers do not overlap
* `Layout.free_eq_of_live_perm` — the live blocks determine the free list
* `Layout.take`, `Layout.cut`, `Layout.giveBack` and the merging variants — the moves
-/

namespace Components.Allocator

/-- The array of a heap and the place of its record. -/
structure Region where
  ucHeap : ℕ
  configTotalHeapSize : ℕ
  /-- The address of the `xStart` member of the heap record. -/
  xStartAddr : ℕ
  size_lt : configTotalHeapSize < 2 ^ 31
  no_wrap : ucHeap + configTotalHeapSize ≤ 2 ^ 32
  /-- After alignment there is room for two headers. -/
  room : (ucHeap + 3) / 4 * 4 + 16 ≤ ucHeap + configTotalHeapSize
  record_lt : xStartAddr + 8 ≤ 2 ^ 32
  /-- The record is an object of its own. -/
  record_apart : xStartAddr + 8 ≤ ucHeap ∨ ucHeap + configTotalHeapSize ≤ xStartAddr

namespace Region

/-- The aligned start of the array. -/
def lo (r : Region) : ℕ := (r.ucHeap + 3) / 4 * 4

/-- The address of the end marker. -/
def hi (r : Region) : ℕ := (r.ucHeap + r.configTotalHeapSize - 8) / 4 * 4

/-- The arrays of two heaps have the same address and size. -/
structure SameArray (r r' : Region) : Prop where
  ucHeap : r.ucHeap = r'.ucHeap
  total : r.configTotalHeapSize = r'.configTotalHeapSize

/-- The address lies in the array. -/
def Holds (r : Region) (x : ℕ) : Prop :=
  r.ucHeap ≤ x ∧ x < r.ucHeap + r.configTotalHeapSize

variable (r : Region)

theorem ucHeap_le_lo : r.ucHeap ≤ r.lo := by
  unfold lo
  omega

theorem lo_mod : r.lo % 4 = 0 := by
  unfold lo
  omega

theorem hi_mod : r.hi % 4 = 0 := by
  unfold hi
  omega

theorem lo_add_le_hi : r.lo + 8 ≤ r.hi := by
  have := r.room
  unfold lo hi
  omega

theorem hi_add_le : r.hi + 8 ≤ r.ucHeap + r.configTotalHeapSize := by
  have := r.room
  unfold hi
  omega

theorem hi_sub_lo_lt : r.hi - r.lo < 2 ^ 31 := by
  have := r.size_lt
  have := r.hi_add_le
  have := r.ucHeap_le_lo
  omega

theorem apart_xStartAddr {p : ℕ} (low : r.lo ≤ p) (high : p ≤ r.hi) : Apart r.xStartAddr p := by
  have := r.record_apart
  have := r.hi_add_le
  have := r.ucHeap_le_lo
  unfold Apart
  omega

end Region

theorem Region.SameArray.lo_eq {r r' : Region} (h : r.SameArray r') : r.lo = r'.lo := by
  unfold Region.lo
  rw [h.ucHeap]

theorem Region.SameArray.hi_eq {r r' : Region} (h : r.SameArray r') : r.hi = r'.hi := by
  unfold Region.hi
  rw [h.ucHeap, h.total]

/-- The free and the live blocks divide the region: each address between the
aligned start and the end marker lies in exactly one block, blocks are aligned and
hold at least a header, and no free block touches another. -/
structure Layout (r : Region) (free live : List Block) : Prop where
  aligned : ∀ b ∈ free ++ live, b.start % 4 = 0 ∧ b.size % 4 = 0
  large : ∀ b ∈ free ++ live, 8 ≤ b.size
  tiles : Tiles (free ++ live) r.lo r.hi
  separated : Separated free

/-- The addresses at which a layout keeps a header. -/
def Layout.headers (r : Region) (free live : List Block) : List ℕ :=
  r.xStartAddr :: r.hi :: (free ++ live).map Block.start

namespace Layout

variable {r : Region} {free free' live live' l₁ l₂ : List Block} {a b c : Block} {k : ℕ}

theorem pos (h : Layout r free live) (hb : b ∈ free ++ live) : 0 < b.size :=
  Nat.lt_of_lt_of_le (by decide) (h.large b hb)

theorem le_start (h : Layout r free live) (hb : b ∈ free ++ live) : r.lo ≤ b.start :=
  h.tiles.le_start hb (h.pos hb)

theorem stop_le (h : Layout r free live) (hb : b ∈ free ++ live) : b.stop ≤ r.hi :=
  h.tiles.stop_le hb (h.pos hb)

theorem totalSize_add (h : Layout r free live) :
    totalSize free + totalSize live = r.hi - r.lo := by
  rw [← totalSize_append]
  exact h.tiles.sum_size fun b hb => h.pos hb

/-- There are far fewer free blocks than words. -/
theorem length_free_lt (h : Layout r free live) : free.length < 2 ^ 31 := by
  have size := mul_length_le_totalSize (l := free) (k := 8)
    fun b hb => h.large b (List.mem_append_left _ hb)
  have total := h.totalSize_add
  have region := r.hi_sub_lo_lt
  omega

theorem start_add_size_lt (h : Layout r free live) (hb : b ∈ free ++ live) :
    b.start + b.size < 2 ^ 32 := by
  have stop := h.stop_le hb
  have top := r.hi_add_le
  have wrap := r.no_wrap
  unfold Block.stop at stop
  omega

theorem size_lt (h : Layout r free live) (hb : b ∈ free ++ live) : b.size < 2 ^ 31 := by
  have start := h.le_start hb
  have stop := h.stop_le hb
  have region := r.hi_sub_lo_lt
  unfold Block.stop at stop
  omega

/-- The headers of a layout do not overlap one another, nor the record. -/
theorem headers_apart (h : Layout r free live) : (headers r free live).Pairwise Apart := by
  have ends : Apart r.xStartAddr r.hi :=
    r.apart_xStartAddr (Nat.le_of_add_right_le r.lo_add_le_hi) le_rfl
  -- each block has room for its header and ends before the end marker
  have inner : ∀ b ∈ free ++ live, Apart r.xStartAddr b.start ∧ Apart r.hi b.start := by
    intro b hb
    have start := h.le_start hb
    have stop := h.stop_le hb
    have size := h.large b hb
    unfold Block.stop at stop
    exact ⟨r.apart_xStartAddr start (by omega), Or.inr (by omega)⟩
  refine List.pairwise_cons.mpr ⟨?_, List.pairwise_cons.mpr ⟨?_, List.pairwise_map.mpr ?_⟩⟩
  · intro p hp
    simp only [List.mem_cons, List.mem_map] at hp
    rcases hp with rfl | ⟨b, hb, rfl⟩
    · exact ends
    · exact (inner b hb).1
  · intro p hp
    obtain ⟨b, hb, rfl⟩ := List.mem_map.mp hp
    exact (inner b hb).2
  · refine (h.tiles.pairwise_disjoint fun b hb => h.pos hb).imp_of_mem fun ha hb separate => ?_
    have sizeA := h.large _ ha
    have sizeB := h.large _ hb
    unfold Block.Disjoint Block.stop at separate
    unfold Apart
    omega

theorem nodup_live (h : Layout r free live) : live.Nodup := by
  have disjoint := h.tiles.pairwise_disjoint fun b hb => h.pos hb
  have inner := (List.pairwise_append.mp disjoint).2.1
  refine inner.imp_of_mem fun {a _} ha _ separate same => ?_
  have size := h.large a (List.mem_append_right _ ha)
  subst same
  unfold Block.Disjoint Block.stop at separate
  omega

/-- A free and a live block share no address. -/
theorem disjoint_free_live (h : Layout r free live) (ha : a ∈ free) (hb : b ∈ live) :
    a.Disjoint b :=
  (List.pairwise_append.mp (h.tiles.pairwise_disjoint fun _ hc => h.pos hc)).2.2 a ha b hb

/-- A live block shares no address with the other ones. -/
theorem disjoint_other (h : Layout r free live) (perm : live.Perm (b :: live')) (hc : c ∈ live') :
    b.Disjoint c := by
  have disjoint := (List.pairwise_append.mp (h.tiles.pairwise_disjoint fun _ hc => h.pos hc)).2.1
  have moved := (perm.pairwise_iff (R := Block.Disjoint) fun sep => sep.symm).mp disjoint
  exact (List.pairwise_cons.mp moved).1 c hc

/-- A free and a live block are told apart by where they start. -/
theorem stop_le_of_lt (h : Layout r free live) (ha : a ∈ free) (hb : b ∈ live)
    (lt : a.start < b.start) : a.stop ≤ b.start := by
  have separate := h.disjoint_free_live ha hb
  have size := h.pos (List.mem_append_right _ hb)
  unfold Block.Disjoint Block.stop at *
  omega

theorem stop_le_of_not_lt (h : Layout r free live) (ha : a ∈ free) (hb : b ∈ live)
    (not_lt : ¬ a.start < b.start) : b.stop ≤ a.start := by
  have separate := h.disjoint_free_live ha hb
  have size := h.pos (List.mem_append_left _ ha)
  unfold Block.Disjoint Block.stop at *
  omega

/-! ### The live blocks determine the free list -/

theorem covers_free_iff (h : Layout r free live) (x : ℕ) :
    (∃ b ∈ free, b.Contains x) ↔ (r.lo ≤ x ∧ x < r.hi) ∧ coverage live x = 0 := by
  rw [← coverage_pos_iff]
  have total := h.tiles x
  rw [coverage_append] at total
  split_ifs at total with inside
  · simp only [inside, and_self, true_and]
    omega
  · simp only [inside, false_and, iff_false]
    omega

theorem free_eq_of_live_perm (h : Layout r free live) (h' : Layout r free' live')
    (same : live.Perm live') : free = free' := by
  refine h.separated.eq_of_covers h'.separated
    (fun b hb => h.pos (List.mem_append_left _ hb))
    (fun b hb => h'.pos (List.mem_append_left _ hb)) fun x => ?_
  rw [h.covers_free_iff, h'.covers_free_iff, coverage_perm same]

/-- Where the record lies does not matter for the blocks. -/
theorem congr {r' : Region} (h : Layout r free live) (array : r.SameArray r') :
    Layout r' free live where
  aligned := h.aligned
  large := h.large
  tiles := by
    rw [← array.lo_eq, ← array.hi_eq]
    exact h.tiles
  separated := h.separated

/-! ### Moves -/

/-- Any rearrangement of the same blocks whose free list is separated. -/
theorem rearrange (h : Layout r free live) (perm : (free ++ live).Perm (free' ++ live'))
    (separated : Separated free') : Layout r free' live' where
  aligned b hb := h.aligned b (perm.mem_iff.mpr hb)
  large b hb := h.large b (perm.mem_iff.mpr hb)
  tiles := h.tiles.perm perm
  separated := separated

/-- Replace some free and live blocks by others that cover the same addresses. -/
theorem exchange (h : Layout r free live)
    (aligned : ∀ b ∈ free' ++ live', b.start % 4 = 0 ∧ b.size % 4 = 0)
    (large : ∀ b ∈ free' ++ live', 8 ≤ b.size)
    (same : ∀ x, coverage (free' ++ live') x = coverage (free ++ live) x)
    (separated : Separated free') : Layout r free' live' where
  aligned := aligned
  large := large
  tiles := h.tiles.of_coverage_eq same
  separated := separated

/-- Hand out a free block. -/
theorem take (h : Layout r (l₁ ++ b :: l₂) live) : Layout r (l₁ ++ l₂) (b :: live) := by
  refine h.rearrange ?_ (h.separated.sublist ((List.sublist_cons_self b l₂).append_left l₁))
  have front : (l₁ ++ b :: l₂ ++ live).Perm (b :: (l₁ ++ l₂ ++ live)) :=
    List.perm_middle.append_right live
  exact front.trans List.perm_middle.symm

/-- Hand out the first `k` bytes of a free block and keep the rest. -/
theorem cut (h : Layout r (l₁ ++ b :: l₂) live) (hk : k % 4 = 0) (low : 8 ≤ k)
    (high : k + 8 ≤ b.size) :
    Layout r (l₁ ++ ⟨b.start + k, b.size - k⟩ :: l₂) (⟨b.start, k⟩ :: live) := by
  have alignedB := h.aligned b (by simp)
  obtain ⟨-, right, between⟩ := List.pairwise_append.mp h.separated
  have after := (List.pairwise_cons.mp right).1
  have kept : ∀ c ∈ l₁ ++ ⟨b.start + k, b.size - k⟩ :: l₂ ++ ⟨b.start, k⟩ :: live,
      c = ⟨b.start + k, b.size - k⟩ ∨ c = ⟨b.start, k⟩ ∨ c ∈ l₁ ++ b :: l₂ ++ live := by
    intro c hc
    simp only [List.append_assoc, List.cons_append, List.mem_append, List.mem_cons] at hc ⊢
    tauto
  refine h.exchange (fun c hc => ?_) (fun c hc => ?_) (fun x => ?_)
    (h.take.separated.insert (fun a ha => ?_) fun c hc => ?_)
  · rcases kept c hc with rfl | rfl | hc
    · dsimp only
      omega
    · dsimp only
      omega
    · exact h.aligned c hc
  · rcases kept c hc with rfl | rfl | hc
    · dsimp only
      omega
    · exact low
    · exact h.large c hc
  · have pieces := coverage_cut (b := b) (k := k) (by omega) x
    simp only [coverage_append, coverage_cons, coverage_nil] at pieces ⊢
    omega
  -- the remainder lies inside the old block, so the gaps only grow
  · have gap := between a ha b List.mem_cons_self
    dsimp only
    omega
  · have gap := after c hc
    unfold Block.stop at gap ⊢
    dsimp only
    omega

/-- Where a block returned to the heap belongs in the free list. -/
theorem exists_split (h : Layout r free live) (hb : b ∈ live) :
    ∃ l₁ l₂, free = l₁ ++ l₂ ∧ (∀ a ∈ l₁, a.stop ≤ b.start) ∧ ∀ c ∈ l₂, b.stop ≤ c.start := by
  suffices ∀ l : List Block, Separated l → ∃ l₁ l₂, l = l₁ ++ l₂ ∧
      (∀ a ∈ l₁, a.start < b.start) ∧ ∀ c ∈ l₂, ¬ c.start < b.start by
    obtain ⟨l₁, l₂, rfl, below, above⟩ := this free h.separated
    exact ⟨l₁, l₂, rfl, fun a ha => h.stop_le_of_lt (List.mem_append_left _ ha) hb (below a ha),
      fun c hc => h.stop_le_of_not_lt (List.mem_append_right _ hc) hb (above c hc)⟩
  intro l separated
  induction l with
  | nil => exact ⟨[], [], rfl, by simp, by simp⟩
  | cons d l ih =>
    by_cases below : d.start < b.start
    · obtain ⟨l₁, l₂, rfl, belows, aboves⟩ := ih separated.tail
      exact ⟨d :: l₁, l₂, rfl, by simpa [below] using belows, aboves⟩
    · refine ⟨[], d :: l, rfl, by simp, fun c hc => ?_⟩
      rcases List.mem_cons.mp hc with rfl | hc
      · exact below
      · have gap := separated.head_lt hc
        unfold Block.stop at gap
        omega

section GiveBack

variable (perm : live.Perm (b :: live'))
include perm

/-- Return a block that touches no free block. -/
theorem giveBack (h : Layout r (l₁ ++ l₂) live) (before : ∀ a ∈ l₁, a.stop < b.start)
    (after : ∀ c ∈ l₂, b.stop < c.start) : Layout r (l₁ ++ b :: l₂) live' := by
  refine h.rearrange ((perm.append_left _).trans ?_) (h.separated.insert before after)
  exact List.perm_middle.trans (List.perm_middle.append_right live').symm

/-- Return a block and merge it into what stood in its place, when the merged block
starts and stops right. -/
theorem merge {m : List Block} {d : Block} (h : Layout r (l₁ ++ m ++ l₂) live)
    (aligned : d.start % 4 = 0 ∧ d.size % 4 = 0) (large : 8 ≤ d.size)
    (same : ∀ x, coverage [d] x = coverage (b :: m) x)
    (before : ∀ a ∈ l₁, a.stop < d.start) (after : ∀ c ∈ l₂, d.stop < c.start) :
    Layout r (l₁ ++ d :: l₂) live' := by
  have separated : Separated (l₁ ++ l₂) :=
    h.separated.sublist ((List.sublist_append_left l₁ m).append_right l₂)
  have kept : ∀ c ∈ l₁ ++ d :: l₂ ++ live', c = d ∨ c ∈ l₁ ++ m ++ l₂ ++ live := by
    intro c hc
    simp only [List.append_assoc, List.cons_append, List.mem_append, List.mem_cons,
      perm.mem_iff] at hc ⊢
    tauto
  refine h.exchange (fun c hc => ?_) (fun c hc => ?_) (fun x => ?_)
    (separated.insert before after)
  · rcases kept c hc with rfl | hc
    · exact aligned
    · exact h.aligned c hc
  · rcases kept c hc with rfl | hc
    · exact large
    · exact h.large c hc
  · have pieces := same x
    have returned := coverage_perm perm x
    simp only [coverage_append, coverage_cons, coverage_nil] at pieces returned ⊢
    omega

/-- Return a block that starts where a free one stops. -/
theorem mergePrev (h : Layout r (l₁ ++ a :: l₂) live) (meets : a.stop = b.start)
    (after : ∀ c ∈ l₂, b.stop < c.start) :
    Layout r (l₁ ++ ⟨a.start, a.size + b.size⟩ :: l₂) live' := by
  have old : Layout r (l₁ ++ [a] ++ l₂) live := by simpa using h
  have hb : b ∈ l₁ ++ a :: l₂ ++ live := by simp [perm.mem_iff]
  have alignedA := h.aligned a (by simp)
  have alignedB := h.aligned b hb
  have largeA := h.large a (by simp)
  refine old.merge perm ⟨alignedA.1, by dsimp only; omega⟩ (by dsimp only; omega) (fun x => ?_)
    (fun d hd => ?_) fun c hc => ?_
  · rw [coverage_join meets]
    exact coverage_perm (List.Perm.swap _ _ _) x
  · exact (List.pairwise_append.mp h.separated).2.2 d hd a List.mem_cons_self
  · have gap := after c hc
    unfold Block.stop at meets gap ⊢
    dsimp only
    omega

/-- Return a block that stops where a free one starts. -/
theorem mergeNext (h : Layout r (l₁ ++ c :: l₂) live) (meets : b.stop = c.start)
    (before : ∀ a ∈ l₁, a.stop < b.start) :
    Layout r (l₁ ++ ⟨b.start, b.size + c.size⟩ :: l₂) live' := by
  have old : Layout r (l₁ ++ [c] ++ l₂) live := by simpa using h
  have hb : b ∈ l₁ ++ c :: l₂ ++ live := by simp [perm.mem_iff]
  have alignedB := h.aligned b hb
  have alignedC := h.aligned c (by simp)
  have largeB := h.large b hb
  refine old.merge perm ⟨alignedB.1, by dsimp only; omega⟩ (by dsimp only; omega) (fun x => ?_)
    before fun d hd => ?_
  · exact coverage_join meets x
  · have tail := (List.pairwise_append.mp h.separated).2.1
    have gap := (List.pairwise_cons.mp tail).1 d hd
    unfold Block.stop at meets gap ⊢
    dsimp only
    omega

/-- Return a block that fills the gap between two free ones. -/
theorem mergeBoth (h : Layout r (l₁ ++ a :: c :: l₂) live) (prev : a.stop = b.start)
    (next : b.stop = c.start) :
    Layout r (l₁ ++ ⟨a.start, a.size + b.size + c.size⟩ :: l₂) live' := by
  have old : Layout r (l₁ ++ [a, c] ++ l₂) live := by simpa using h
  have hb : b ∈ l₁ ++ a :: c :: l₂ ++ live := by simp [perm.mem_iff]
  have alignedA := h.aligned a (by simp)
  have alignedB := h.aligned b hb
  have alignedC := h.aligned c (by simp)
  have largeA := h.large a (by simp)
  refine old.merge perm ⟨alignedA.1, by dsimp only; omega⟩ (by dsimp only; omega) (fun x => ?_)
    (fun d hd => ?_) fun d hd => ?_
  -- join the block to the one before, then the result to the one after
  · have first := coverage_join prev x
    have stop : (⟨a.start, a.size + b.size⟩ : Block).stop = c.start := by
      unfold Block.stop at prev next ⊢
      dsimp only
      omega
    have second := coverage_join stop x
    simp only [coverage_cons, coverage_nil] at first second ⊢
    omega
  · exact (List.pairwise_append.mp h.separated).2.2 d hd a List.mem_cons_self
  · have tail := (List.pairwise_cons.mp (List.pairwise_append.mp h.separated).2.1).2
    have gap := (List.pairwise_cons.mp tail).1 d hd
    unfold Block.stop at prev next gap ⊢
    dsimp only
    omega

end GiveBack

end Layout

end Components.Allocator
