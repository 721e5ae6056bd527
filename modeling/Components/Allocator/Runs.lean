import Components.Allocator.Session
import Mathlib.Data.Nat.ModEq

/-!
# Whole runs of one heap

From a blank heap, every admissible run of a client completes. Whenever the heap is
initialised, the chain from `xStart` and the live blocks divide the array as the
allocator promises, the counters say what the blocks say, and no call touches what
another live pointer owns.

## Main definitions

* `freeBlocks` — the blocks met on the chain from `xStart`
* `WellFormed` — what the chain, the headers and the live blocks look like
* `Accounted` — what the counters say about them

## Main results

* `session_wellFormed` — the heap is well formed after every run
* `session_frame` — what `PortMalloc` and `PortFree` leave alone, in every reachable state
* `session_accounting` — the counters after every run, and that no update of them wraps
-/

namespace Components.Allocator

open Word

/-! ### The free list as it lies in memory -/

/-- The blocks met from `p` on before `pxEnd`. -/
def walk (s : State) : ℕ → ℕ → List Block
  | 0, _ => []
  | n + 1, p => if p = s.heap.pxEnd then [] else ⟨p, s.size p⟩ :: walk s n (s.next p)

/-- The blocks met on the chain from `xStart`. -/
def freeBlocks (s : State) : List Block := walk s (2 ^ 32) (s.next s.xStartAddr)

variable {r : Region} {s s' : State} {free live : List Block} {op : Op} {ops : List Op}
  {ndebug : Bool} {t : Session} {result n : ℕ} {results : List ℕ}

theorem walk_linked {last : ℕ} (linked : Linked s.next (free.map Block.start ++ [last]))
    (sizes : ∀ b ∈ free, s.size b.start = b.size) (inner : ∀ b ∈ free, b.start ≠ last)
    (pxEnd : s.heap.pxEnd = last) (bound : free.length < n) :
    walk s n ((free.map Block.start).headD last) = free := by
  induction free generalizing n with
  | nil =>
    obtain ⟨n, rfl⟩ := Nat.exists_eq_succ_of_ne_zero (Nat.ne_of_gt bound)
    simp [walk, pxEnd]
  | cons b free ih =>
    obtain ⟨n, rfl⟩ := Nat.exists_eq_succ_of_ne_zero (Nat.ne_of_gt (Nat.zero_lt_of_lt bound))
    have next : s.next b.start = (free.map Block.start).headD last := by
      cases free with
      | nil => exact (Linked.cons_cons.mp linked).1
      | cons c free => exact (Linked.cons_cons.mp linked).1
    have rest := ih linked.tail (fun c hc => sizes c (List.mem_cons_of_mem _ hc))
      (fun c hc => inner c (List.mem_cons_of_mem _ hc)) (by simpa using bound)
    have size := sizes b List.mem_cons_self
    have apart : b.start ≠ s.heap.pxEnd := pxEnd ▸ inner b List.mem_cons_self
    simp only [List.map_cons, List.headD_cons, walk, if_neg apart, size, next, rest]

/-- A represented free list is the one met on the chain. -/
theorem Represents.freeBlocks_eq (h : Represents r s free live) : freeBlocks s = free := by
  have all : Represents r s ([] ++ free) live := h
  have first : s.next s.xStartAddr = (free.map Block.start).headD r.hi := by
    rw [h.xStartAddr]
    exact all.next_lastNode
  have len := h.layout.length_free_lt
  unfold freeBlocks
  rw [first]
  refine walk_linked h.linked.tail h.freeSize (fun b hb => ?_) h.pxEnd (by omega)
  have split : Layout r ([] ++ free ++ []) live := by simpa using h.layout
  exact (split.apart_free hb (.inr (by simp))).ne

/-! ### The representation invariant -/

/-- The chain from `xStart`, the headers and the live blocks of an initialised heap. -/
structure WellFormed (r : Region) (s : State) (live : List Block) : Prop where
  chain : Linked s.next (s.xStartAddr :: (freeBlocks s).map Block.start ++ [s.heap.pxEnd])
  increasing : ((freeBlocks s).map Block.start ++ [s.heap.pxEnd]).Pairwise (· < ·)
  freeSize : ∀ b ∈ freeBlocks s, s.size b.start = b.size
  endMarker : s.size s.heap.pxEnd = 0 ∧ s.next s.heap.pxEnd = 0
  tiles : Tiles (freeBlocks s ++ live) r.lo s.heap.pxEnd
  aligned : ∀ b ∈ freeBlocks s ++ live, b.start % portByteAlignment = 0 ∧
    b.size % portByteAlignment = 0
  coalesced : ∀ a ∈ freeBlocks s, ∀ b ∈ freeBlocks s, a.stop ≠ b.start
  tagged : ∀ b ∈ live, s.size b.start = b.size ||| s.xBlockAllocatedBit ∧ s.next b.start = 0

theorem Represents.wellFormed (h : Represents r s free live) : WellFormed r s live := by
  have list := h.freeBlocks_eq
  have split : Layout r ([] ++ free ++ []) live := by simpa using h.layout
  have tiles := h.layout.tiles
  exact {
    chain := by
      rw [list, h.xStartAddr, h.pxEnd]
      exact h.linked
    increasing := by
      rw [list, h.pxEnd]
      refine List.pairwise_append.mpr ⟨List.pairwise_map.mpr ?_, List.pairwise_singleton _ _, ?_⟩
      · refine h.layout.separated.imp fun {a b} gap => ?_
        unfold Block.stop at gap
        omega
      · intro p hp q hq
        obtain ⟨b, hb, rfl⟩ := List.mem_map.mp hp
        have stop := h.layout.stop_le (List.mem_append_left live hb)
        have pos := h.layout.pos (List.mem_append_left live hb)
        rw [List.mem_singleton.mp hq]
        unfold Block.stop at stop
        omega
    freeSize := by
      rw [list]
      exact h.freeSize
    endMarker := by
      rw [h.pxEnd]
      exact ⟨h.endSize, h.endNext⟩
    tiles := by
      rw [list, h.pxEnd]
      exact tiles
    aligned := by
      rw [list]
      exact h.layout.aligned
    coalesced := by
      rw [list]
      exact fun a ha b hb => h.layout.separated.stop_ne_start ha hb
        (h.layout.pos (List.mem_append_left live ha))
    tagged := by
      intro b hb
      have small := h.layout.size_lt (List.mem_append_right _ hb)
      exact ⟨by rw [h.liveSize b hb, h.bit, lor_top small], h.liveNext b hb⟩ }

/-! ### Counters -/

/-- The counters of an initialised heap. -/
structure Accounted (r : Region) (t : Session) : Prop where
  freeList : t.state.heap.xFreeBytesRemaining = totalSize (freeBlocks t.state)
  live : t.state.heap.xFreeBytesRemaining + totalSize t.live = t.state.heap.pxEnd - r.lo
  minimum : t.freeBytes.min? = some t.state.heap.xMinimumEverFreeBytesRemaining
  calls : t.state.heap.xNumberOfSuccessfulAllocations ≡
    t.state.heap.xNumberOfSuccessfulFrees + t.live.length [MOD 2 ^ 32]

/-- What every reachable session satisfies. -/
structure Sound (r : Region) (t : Session) : Prop where
  managed : Managed r t.state t.live
  calls : t.state.heap.xNumberOfSuccessfulAllocations ≡
    t.state.heap.xNumberOfSuccessfulFrees + t.live.length [MOD 2 ^ 32]
  minimum : t.state.heap.pxEnd ≠ 0 →
    t.freeBytes.min? = some t.state.heap.xMinimumEverFreeBytesRemaining
  least : t.state.heap.pxEnd ≠ 0 →
    t.state.heap.xMinimumEverFreeBytesRemaining ≤ t.state.heap.xFreeBytesRemaining

/-- The record of a heap that belongs to a region and was never used. -/
structure Blank (r : Region) (s : State) : Prop extends Configured r s where
  pxEnd : s.heap.pxEnd = 0
  allocations : s.heap.xNumberOfSuccessfulAllocations = 0
  frees : s.heap.xNumberOfSuccessfulFrees = 0

/-- The session in which a client starts. -/
def Session.start (s : State) : Session := ⟨s, [], []⟩

theorem Blank.sound (h : Blank r s) : Sound r (.start s) where
  managed := ⟨h.toConfigured, .inl ⟨h.pxEnd, rfl⟩⟩
  calls := by simp [Session.start, h.allocations, h.frees, Nat.ModEq]
  minimum init := absurd h.pxEnd init
  least init := absurd h.pxEnd init

theorem Managed.ensureInit_counts (h : Managed r s live) :
    (ensureInit s).heap.xNumberOfSuccessfulAllocations = s.heap.xNumberOfSuccessfulAllocations ∧
    (ensureInit s).heap.xNumberOfSuccessfulFrees = s.heap.xNumberOfSuccessfulFrees ∧
    (s.heap.pxEnd = 0 → (ensureInit s).heap.xMinimumEverFreeBytesRemaining =
      (ensureInit s).heap.xFreeBytesRemaining) := by
  unfold ensureInit
  split_ifs with blank
  · rw [heapInit_eq h.configured, initialised_heap]
    exact ⟨rfl, rfl, fun _ => rfl⟩
  · exact ⟨rfl, rfl, fun init => absurd init blank⟩

/-- One successful allocation more, one live block more. -/
theorem modEq_allocated {a f k : ℕ} (h : a ≡ f + k [MOD 2 ^ 32]) :
    wadd a 1 ≡ f + (k + 1) [MOD 2 ^ 32] :=
  (Nat.mod_modEq _ _).trans (h.add_right 1)

/-- One free more, one live block less. -/
theorem modEq_freed {a f k : ℕ} (h : a ≡ f + (k + 1) [MOD 2 ^ 32]) :
    a ≡ wadd f 1 + k [MOD 2 ^ 32] := by
  have sum : f + (k + 1) = f + 1 + k := by ring
  rw [sum] at h
  exact h.trans ((Nat.mod_modEq _ _).symm.add_right k)

theorem Session.step_eq (done : op.exec ndebug t.state = .ok (s', result)) :
    t.step ndebug op = .ok (⟨s', op.live s' result t.live, s'.heap.xFreeBytesRemaining ::
      if t.state.heap.pxEnd = 0 ∨ op = .reinit then [] else t.freeBytes⟩, result) := by
  simp only [step, done]
  rfl

theorem min?_cons_of_eq {seen : List ℕ} {m : ℕ} (h : seen.min? = some m) (x : ℕ) :
    (x :: seen).min? = some (min x m) := by
  simp [List.min?_cons, h]

namespace Sound

/-- A call that changes no counter, on an initialised heap. -/
theorem seen_again (h : Sound r t) (init : t.state.heap.pxEnd ≠ 0) :
    (t.state.heap.xFreeBytesRemaining :: t.freeBytes).min? =
      some t.state.heap.xMinimumEverFreeBytesRemaining := by
  rw [min?_cons_of_eq (h.minimum init), min_eq_right (h.least init)]

theorem step_malloc (h : Sound r t) (n : UInt32) (ndebug : Bool) :
    ∃ t' result, t.step ndebug (.malloc n) = .ok (t', result) ∧ Sound r t' := by
  obtain ⟨allocations, frees, fresh⟩ := h.managed.ensureInit_counts
  obtain ⟨free, represents, ⟨-, done⟩ | ⟨l₁, b, l₂, -, rfl, fits, done⟩⟩ :=
    h.managed.malloc_cases n ndebug
  -- refused: at most the first call has changed something, by initialising the heap
  · refine ⟨_, _, Session.step_eq done, represents.managed, ?_, fun _ => ?_, fun _ => ?_⟩
    · simpa [allocations, frees, Op.live] using h.calls
    -- a call that initialises starts a new record of free byte counts
    · by_cases init : t.state.heap.pxEnd = 0
      · simp [init, fresh init]
      · have same : ensureInit t.state = t.state := if_neg init
        simpa [init, same] using h.seen_again init
    · by_cases init : t.state.heap.pxEnd = 0
      · exact (fresh init).le
      · have same : ensureInit t.state = t.state := if_neg init
        simpa [same] using h.least init
  · obtain ⟨blocks, after⟩ := represents.served fits
    have record := tagged_heap (unlinked r (ensureInit t.state) l₁ l₂ b (needed n.toNat))
      (taken b (needed n.toNat))
    have kept := (unlinked_writes r (ensureInit t.state) l₁ l₂ b (needed n.toNat)).heap
    refine ⟨_, _, Session.step_eq done, ?_, ?_, fun _ => ?_, fun _ => ?_⟩
    · rw [blocks]
      exact after.managed
    · dsimp only
      rw [blocks, handOut, record, kept, List.length_cons]
      dsimp only
      rw [allocations, frees]
      exact modEq_allocated h.calls
    · dsimp only
      rw [handOut, record, kept]
      dsimp only
      by_cases init : t.state.heap.pxEnd = 0
      · simp [init, fresh init]
      · have same : ensureInit t.state = t.state := if_neg init
        simp only [init, reduceCtorEq, or_self, ↓reduceIte, same]
        exact min?_cons_of_eq (h.minimum init) _
    · dsimp only
      rw [handOut, record]
      exact min_le_left _ _

theorem step_free (h : Sound r t) {pv : ℕ} (allowed : (Op.free pv).Allowed t.live) (ndebug : Bool) :
    ∃ t' result, t.step ndebug (.free pv) = .ok (t', result) ∧ Sound r t' := by
  rcases h.managed.free_cases allowed ndebug with ⟨done, rfl⟩ |
    ⟨free, free', b, p, s', represents, hb, -, done, after, perm, -, -, record⟩
  · have kept : (Op.free 0).live t.state 0 t.live = t.live := by simp [Op.live]
    refine ⟨_, _, Session.step_eq done, ?_, ?_, fun init => ?_, fun init => h.least init⟩
    · rw [kept]
      exact h.managed
    · rw [kept]
      exact h.calls
    · have init : t.state.heap.pxEnd ≠ 0 := init
      simpa [init] using h.seen_again init
  · have init := represents.pxEnd_ne
    have fewer := perm.length_eq
    rw [List.length_cons] at fewer
    refine ⟨_, _, Session.step_eq done, after.managed, ?_, fun _ => ?_, fun _ => ?_⟩
    · dsimp only
      rw [record]
      exact modEq_freed (fewer ▸ h.calls)
    -- the count goes up, so the minimum stays
    · have grows := h.least init
      simp only [init, reduceCtorEq, or_self, ↓reduceIte]
      rw [record, min?_cons_of_eq (h.minimum init)]
      dsimp only
      rw [min_eq_right (by omega)]
    · have grows := h.least init
      dsimp only
      rw [record]
      dsimp only
      omega

theorem step_reinit (h : Sound r t) (ndebug : Bool) :
    ∃ t' result, t.step ndebug .reinit = .ok (t', result) ∧ Sound r t' := by
  have record := initialised_heap r t.state.cleared
  have done : Op.exec ndebug t.state .reinit = .ok (initialised r t.state.cleared, 0) := by
    rw [← reinit_eq h.managed.configured]
    rfl
  have after := h.managed.reinit_represents
  rw [reinit_eq h.managed.configured] at after
  refine ⟨_, _, Session.step_eq done, after.managed, ?_, fun _ => ?_, fun _ => ?_⟩
  · dsimp only
    rw [record]
    rfl
  · dsimp only
    rw [record]
    simp
  · dsimp only
    rw [record]

/-- Every allowed call completes and keeps a session sound. -/
theorem step (h : Sound r t) (allowed : op.Allowed t.live) (ndebug : Bool) :
    ∃ t' result, t.step ndebug op = .ok (t', result) ∧ Sound r t' := by
  cases op with
  | malloc n => exact h.step_malloc n ndebug
  | free pv => exact h.step_free allowed ndebug
  | reinit => exact h.step_reinit ndebug
  | write a v =>
    obtain ⟨s', result, done, managed⟩ := h.managed.exec allowed ndebug
    cases done
    refine ⟨_, _, Session.step_eq rfl, managed, h.calls, fun init => ?_, fun init => h.least init⟩
    have init : t.state.heap.pxEnd ≠ 0 := init
    simpa [init] using h.seen_again init

theorem accounted (h : Sound r t) (init : t.state.heap.pxEnd ≠ 0) : Accounted r t := by
  obtain ⟨free, represents⟩ := h.managed.represents init
  refine ⟨?_, ?_, h.minimum init, h.calls⟩
  · rw [represents.freeBlocks_eq, represents.freeBytes]
  · rw [represents.freeBytes, represents.pxEnd]
    exact represents.layout.totalSize_add

/-- Every admissible run completes in a sound session. -/
theorem run (h : Sound r t) (adm : (machine ndebug).Admissible t ops) :
    ∃ t' results, (machine ndebug).run t ops = .ok (t', results) ∧ Sound r t' :=
  Machine.exists_run_of_invariant (fun _ _ sound allowed => sound.step allowed ndebug) h adm

end Sound

/-! ### A small heap -/

/-- The array of the small heap on which the results are tried out: 128 bytes at an
address that is not aligned. -/
def smallRegion : Region where
  ucHeap := 1001
  configTotalHeapSize := 128
  xStartAddr := 16
  size_lt := by decide
  no_wrap := by decide
  room := by decide
  record_lt := by decide
  record_apart := by decide

/-- Its record as `heap_cfg` leaves it. -/
def smallState : State where
  mem _ := 0
  heap := {
    configTotalHeapSize := 128
    ucHeap := 1001
    heap := 0
    namep := some "small"
    xStart := { pxNextFreeBlock := 0, xBlockSize := 0 }
    pxEnd := 0
    xFreeBytesRemaining := 0
    xMinimumEverFreeBytesRemaining := 0
    xNumberOfSuccessfulAllocations := 0
    xNumberOfSuccessfulFrees := 0 }
  xStartAddr := 16
  xBlockAllocatedBit := 0

theorem smallState_blank : Blank smallRegion smallState := ⟨⟨rfl, rfl, rfl⟩, rfl, rfl, rfl⟩

/-- A run with a split, a write to a payload, and a free that merges. -/
def smallRun : List Op :=
  [.malloc 10, .malloc 20, .write 1012 7, .free 1012, .free 1032]

theorem smallRun_admissible : (machine false).Admissible (.start smallState) smallRun := by
  decide +kernel

theorem smallRun_pxEnd
    (done : (machine false).run (.start smallState) smallRun = .ok (t, results)) :
    t.state.heap.pxEnd ≠ 0 := by
  have value : ((machine false).run (.start smallState) smallRun).map
      (fun final => final.1.state.heap.pxEnd) = .ok 1120 := by
    decide +kernel
  rw [done] at value
  have pxEnd : t.state.heap.pxEnd = 1120 := Except.ok.inj value
  omega

/-! ### The results -/

/-- After every run from a blank heap, an initialised heap is well formed. -/
theorem session_wellFormed (blank : Blank r s)
    (adm : (machine ndebug).Admissible (.start s) ops) :
    ∃ t results, (machine ndebug).run (.start s) ops = .ok (t, results) ∧
      (t.state.heap.pxEnd ≠ 0 → WellFormed r t.state t.live) := by
  obtain ⟨t, results, done, sound⟩ := blank.sound.run adm
  refine ⟨t, results, done, fun init => ?_⟩
  obtain ⟨free, represents⟩ := sound.managed.represents init
  exact represents.wellFormed

theorem session_wellFormed_small :
    ∃ t results, (machine false).run (.start smallState) smallRun = .ok (t, results) ∧
      t.state.heap.pxEnd ≠ 0 ∧ WellFormed smallRegion t.state t.live := by
  obtain ⟨t, results, done, wellFormed⟩ :=
    session_wellFormed smallState_blank smallRun_admissible
  have init := smallRun_pxEnd done
  exact ⟨t, results, done, init, wellFormed init⟩

/-- In every reachable state, `PortMalloc` and `PortFree` complete, write no byte of
the payload of another live block, and no byte outside the array. -/
theorem session_frame (blank : Blank r s) (adm : (machine ndebug).Admissible (.start s) ops) :
    ∃ t results, (machine ndebug).run (.start s) ops = .ok (t, results) ∧
      ∀ op, op.IsCall → op.Allowed t.live →
        ∃ t' result, (machine ndebug).step t op = .ok (t', result) ∧
          (∀ c ∈ t.live, op ≠ .free (c.start + 8) → ∀ x, Payload c x →
            t'.state.mem x = t.state.mem x) ∧
          ∀ x, ¬ r.Holds x → t'.state.mem x = t.state.mem x := by
  obtain ⟨t, results, done, sound⟩ := blank.sound.run adm
  refine ⟨t, results, done, fun op call allowed => ?_⟩
  obtain ⟨s', result, exec, -⟩ := sound.managed.exec allowed ndebug
  refine ⟨_, _, Session.step_eq exec, ?_, ?_⟩
  · intro c hc other x hx
    exact sound.managed.exec_frame allowed call exec hc other hx
  · intro x hx
    exact sound.managed.exec_outside allowed exec hx

/-- A run that leaves two blocks live. -/
def busyRun : List Op := [.malloc 10, .malloc 20, .write 1012 7]

theorem session_frame_small :
    ∃ t results, (machine false).run (.start smallState) busyRun = .ok (t, results) ∧
      t.live = [⟨1024, 28⟩, ⟨1004, 20⟩] ∧
      ∀ op, op.IsCall → op.Allowed t.live →
        ∃ t' result, (machine false).step t op = .ok (t', result) ∧
          (∀ c ∈ t.live, op ≠ .free (c.start + 8) → ∀ x, Payload c x →
            t'.state.mem x = t.state.mem x) ∧
          ∀ x, ¬ smallRegion.Holds x → t'.state.mem x = t.state.mem x := by
  have adm : (machine false).Admissible (.start smallState) busyRun := by decide +kernel
  obtain ⟨t, results, done, frame⟩ := session_frame smallState_blank adm
  have blocks : ((machine false).run (.start smallState) busyRun).map (fun final => final.1.live) =
      .ok [⟨1024, 28⟩, ⟨1004, 20⟩] := by decide +kernel
  rw [done] at blocks
  exact ⟨t, results, done, Except.ok.inj blocks, frame⟩

/-- After every run from a blank heap the counters of an initialised heap are exact,
and the next `PortMalloc` or `PortFree` changes `xFreeBytesRemaining` by the size of
the block in exact arithmetic. -/
theorem session_accounting (blank : Blank r s)
    (adm : (machine ndebug).Admissible (.start s) ops) :
    ∃ t results, (machine ndebug).run (.start s) ops = .ok (t, results) ∧
      (t.state.heap.pxEnd ≠ 0 → Accounted r t) ∧
      (∀ n, ∃ t' p, (machine ndebug).step t (.malloc n) = .ok (t', p) ∧
        (p = 0 ∧ t'.state.heap.xFreeBytesRemaining =
            (ensureInit t.state).heap.xFreeBytesRemaining ∨
          ∃ b, t'.live = b :: t.live ∧ (ensureInit t.state).heap.xFreeBytesRemaining =
            t'.state.heap.xFreeBytesRemaining + b.size)) ∧
      ∀ b ∈ t.live, ∃ t' p, (machine ndebug).step t (.free (b.start + 8)) = .ok (t', p) ∧
        t'.state.heap.xFreeBytesRemaining = t.state.heap.xFreeBytesRemaining + b.size ∧
        t'.state.heap.xFreeBytesRemaining < 2 ^ 32 := by
  obtain ⟨t, results, done, sound⟩ := blank.sound.run adm
  refine ⟨t, results, done, sound.accounted, fun n => ?_, fun b hb => ?_⟩
  · obtain ⟨free, represents, ⟨-, refused⟩ | ⟨l₁, b, l₂, -, rfl, fits, served⟩⟩ :=
      sound.managed.malloc_cases n ndebug
    · exact ⟨_, _, Session.step_eq refused, .inl ⟨rfl, rfl⟩⟩
    · obtain ⟨blocks, after⟩ := represents.served fits
      have before := represents.layout.totalSize_add
      have later := after.layout.totalSize_add
      refine ⟨_, _, Session.step_eq served, .inr ⟨_, blocks, ?_⟩⟩
      dsimp only
      rw [totalSize_cons] at later
      rw [after.freeBytes, represents.freeBytes]
      omega
  · have allowed : (Op.free (b.start + 8)).Allowed t.live := .inr ⟨b, hb, rfl⟩
    rcases sound.managed.free_cases allowed ndebug with ⟨-, null⟩ |
      ⟨free, free', c, p, s', represents, hc, same, exec, after, -, -, -, record⟩
    · omega
    · have total := after.layout.totalSize_add
      have region := r.hi_sub_lo_lt
      have starts : c = b := represents.layout.live_ext hc hb (by omega)
      refine ⟨_, _, Session.step_eq exec, ?_, ?_⟩
      · dsimp only
        rw [record, starts]
      · dsimp only
        rw [after.freeBytes]
        omega

theorem session_accounting_small :
    ∃ t results, (machine false).run (.start smallState) smallRun = .ok (t, results) ∧
      t.state.heap.pxEnd ≠ 0 ∧ Accounted smallRegion t := by
  obtain ⟨t, results, done, accounted, -, -⟩ :=
    session_accounting smallState_blank smallRun_admissible
  have init := smallRun_pxEnd done
  exact ⟨t, results, done, init, accounted init⟩

end Components.Allocator
