import Components.Allocator.Agreement
import Components.Allocator.Runs

/-!
# Several heaps over one memory

`heap_arr` holds one record for each configured heap. The heaps share memory and the
static `xBlockAllocatedBit`, which every initialisation sets. Their arrays are
disjoint, and a heap reads nothing but its record, its array and the tag bit, so what
one heap returns, records and stores does not depend on the calls made on the others.

The tag bit is read by a heap only once that heap is initialised, and from the first
initialisation of any heap on it has its one value.

## Main definitions

* `Config`, `Heaps`, `heapCfg` — the configured heaps, `heap_arr` and `heap_cfg`
* `Call`, `heaps` — calls on the different heaps, and their runs

## Main results

* `heap_isolation` — the results, the record and the array of a heap are those of its own
  calls alone
-/

namespace Components.Allocator

variable {ι : Type} [DecidableEq ι]

/-- The heaps listed in `heap_std.h`, on disjoint arrays. -/
structure Config (ι : Type) where
  region : ι → Region
  /-- The constant of the heap in the enumeration of heaps. -/
  number : ι → ℕ
  namestr : ι → String
  disjoint : ∀ i j, i ≠ j → ∀ x, (region i).Holds x → ¬ (region j).Holds x

/-- Memory, the records and the tag bit, with the blocks live in each heap. -/
structure Heaps (ι : Type) where
  mem : ByteMemory
  heap_arr : ι → Heap
  xBlockAllocatedBit : ℕ
  live : ι → List Block

/-- Calls of `name_malloc`, `name_free` and `name_reinit` for one of the names, client
writes, and `heap_cfg`. -/
inductive Call (ι : Type)
  | on (heap : ι) (op : Op)
  | heapCfg
  deriving DecidableEq, Repr

variable {c : Config ι} {h h' : Heaps ι} {i j : ι} {op : Op} {ndebug : Bool} {u : State}
  {live : List Block} {result : ℕ}

/-- What the allocator sees of one heap. -/
def Heaps.state (c : Config ι) (h : Heaps ι) (i : ι) : State where
  mem := h.mem
  heap := h.heap_arr i
  xStartAddr := (c.region i).xStartAddr
  xBlockAllocatedBit := h.xBlockAllocatedBit

/-- Write back what a call on one heap left. -/
def Heaps.put (h : Heaps ι) (i : ι) (s : State) (live : List Block) : Heaps ι where
  mem := s.mem
  heap_arr := Function.update h.heap_arr i s.heap
  xBlockAllocatedBit := s.xBlockAllocatedBit
  live := Function.update h.live i live

/-- `heap_cfg`: set the fixed members of every record. -/
def heapCfg (c : Config ι) (h : Heaps ι) : Heaps ι :=
  { h with heap_arr := fun i => { h.heap_arr i with
      configTotalHeapSize := (c.region i).configTotalHeapSize
      ucHeap := (c.region i).ucHeap
      heap := c.number i
      namep := some (c.namestr i) } }

/-- One call. -/
def Heaps.step (c : Config ι) (ndebug : Bool) (h : Heaps ι) :
    Call ι → Except Fault (Heaps ι × ℕ)
  | .on i op => do
    let (s, result) ← op.exec ndebug (h.state c i)
    return (h.put i s (op.live s result (h.live i)), result)
  | .heapCfg => return (heapCfg c h, 0)

/-- A client frees what is live in the heap it names, and writes to live payloads. -/
def Call.Allowed (h : Heaps ι) : Call ι → Prop
  | .on i op => op.Allowed (h.live i)
  | .heapCfg => True

instance (h : Heaps ι) (call : Call ι) : Decidable (call.Allowed h) :=
  match call with
  | .on i op => inferInstanceAs (Decidable (op.Allowed (h.live i)))
  | .heapCfg => inferInstanceAs (Decidable True)

/-- Runs over all heaps. -/
def heaps (c : Config ι) (ndebug : Bool) : Machine (Heaps ι) (Call ι) ℕ Fault where
  step := Heaps.step c ndebug
  Allowed h call := call.Allowed h

instance (c : Config ι) (ndebug : Bool) (h : Heaps ι) (call : Call ι) :
    Decidable ((heaps c ndebug).Allowed h call) :=
  inferInstanceAs (Decidable (call.Allowed h))

/-- A record before `heap_cfg`: static storage is zero. -/
def zeroHeap : Heap where
  configTotalHeapSize := 0
  ucHeap := 0
  heap := 0
  namep := none
  xStart := { pxNextFreeBlock := 0, xBlockSize := 0 }
  pxEnd := 0
  xFreeBytesRemaining := 0
  xMinimumEverFreeBytesRemaining := 0
  xNumberOfSuccessfulAllocations := 0
  xNumberOfSuccessfulFrees := 0

/-- The heaps after the first `heap_cfg`. -/
def Heaps.start (c : Config ι) (mem : ByteMemory) (xBlockAllocatedBit : ℕ) : Heaps ι :=
  heapCfg c ⟨mem, fun _ => zeroHeap, xBlockAllocatedBit, fun _ => []⟩

/-- The calls that concern a heap: those on it, and `heap_cfg`. -/
def Call.concerns (i : ι) : Call ι → Bool
  | .on j _ => j = i
  | .heapCfg => true

/-! ### One call -/

theorem Heaps.step_on (done : op.exec ndebug (h.state c i) = .ok (u, result)) :
    h.step c ndebug (.on i op) = .ok (h.put i u (op.live u result (h.live i)), result) := by
  simp only [step, done]
  rfl

theorem Heaps.state_put_self (addr : u.xStartAddr = (c.region i).xStartAddr) :
    (h.put i u live).state c i = u := by
  simp [state, put, ← addr]

theorem Heaps.live_put_self : (h.put i u live).live i = live := by
  simp [put]

theorem Heaps.live_put_other (ne : j ≠ i) : (h.put i u live).live j = h.live j := by
  simp [put, ne]

/-- A call on one heap leaves the record and the array of every other. -/
theorem Heaps.agree_put_other (managed : Managed (c.region i) (h.state c i) (h.live i))
    (allowed : op.Allowed (h.live i)) (done : op.exec ndebug (h.state c i) = .ok (u, result))
    (ne : j ≠ i) (live : List Block) :
    Agree (c.region j).Holds (h.state c j) ((h.put i u live).state c j) where
  heap := by simp [state, put, ne]
  xStartAddr := rfl
  mem x hx := (managed.exec_outside allowed done (c.disjoint j i ne x hx)).symm

/-- Every heap is managed. -/
def Heaps.AllManaged (c : Config ι) (h : Heaps ι) : Prop :=
  ∀ i, Managed (c.region i) (h.state c i) (h.live i)

/-- A call on one heap keeps all of them managed. -/
theorem Heaps.AllManaged.put (all : h.AllManaged c) (allowed : op.Allowed (h.live i))
    (done : op.exec ndebug (h.state c i) = .ok (u, result)) :
    (h.put i u (op.live u result (h.live i))).AllManaged c := by
  obtain ⟨v, w, exec, managed⟩ := (all i).exec allowed ndebug
  cases exec.symm.trans done
  intro j
  -- the heap that was called, and the others, which share memory and the tag bit with it
  by_cases same : j = i
  · subst same
    rw [state_put_self managed.configured.xStartAddr, live_put_self]
    exact managed
  · have bit := (all i).exec_bit allowed done
    rw [live_put_other same]
    exact (all j).transfer (agree_put_other (all i) allowed done same _) bit

omit [DecidableEq ι] in
theorem Configured.heapCfg (h : Heaps ι) (i : ι) :
    Configured (c.region i) ((heapCfg c h).state c i) :=
  ⟨rfl, rfl, rfl⟩

omit [DecidableEq ι] in
/-- `heap_cfg` writes nothing that a heap depends on. -/
theorem Managed.heapCfg (managed : Managed (c.region i) (h.state c i) (h.live i)) :
    Managed (c.region i) ((heapCfg c h).state c i) ((heapCfg c h).live i) := by
  refine ⟨.heapCfg h i, ?_⟩
  rcases managed.blank_or with blank | ⟨free, represents⟩
  · exact .inl blank
  · exact .inr ⟨free, { represents with ucHeap := rfl, total := rfl }⟩

/-! ### The result -/

/-- The heap `i` is the same in both systems. -/
structure SameHeap (c : Config ι) (i : ι) (h h' : Heaps ι) : Prop where
  all : h.AllManaged c
  managed : Managed (c.region i) (h'.state c i) (h'.live i)
  agree : Agree (c.region i).Holds (h.state c i) (h'.state c i)
  live : h.live i = h'.live i

namespace SameHeap

/-- A call on the heap itself. -/
theorem own (same : SameHeap c i h h') (allowed : op.Allowed (h.live i)) (ndebug : Bool) :
    ∃ k k' result, h.step c ndebug (.on i op) = .ok (k, result) ∧
      h'.step c ndebug (.on i op) = .ok (k', result) ∧ SameHeap c i k k' := by
  have before : Managed (c.region i) (h.state c i) (h.live i) := same.all i
  obtain ⟨u, u', result, done, done', agree, blocks⟩ :=
    same.agree.exec before (same.live ▸ same.managed) allowed ndebug
  have all := same.all.put allowed done
  obtain ⟨_, _, exec', managed'⟩ := same.managed.exec (same.live ▸ allowed) ndebug
  cases exec'.symm.trans done'
  have addr : u.xStartAddr = (c.region i).xStartAddr :=
    agree.xStartAddr.trans managed'.configured.xStartAddr
  -- the records and arrays agree before the call, so they do after it
  refine ⟨_, _, result, Heaps.step_on done, Heaps.step_on done', all, ?_, ?_, ?_⟩
  · rw [Heaps.state_put_self managed'.configured.xStartAddr, Heaps.live_put_self]
    exact managed'
  · rw [Heaps.state_put_self addr, Heaps.state_put_self managed'.configured.xStartAddr]
    exact agree
  · rw [Heaps.live_put_self, Heaps.live_put_self, blocks, same.live]

/-- A call on another heap. -/
theorem other (same : SameHeap c i h h') (ne : j ≠ i) (allowed : op.Allowed (h.live j))
    (ndebug : Bool) :
    ∃ k result, h.step c ndebug (.on j op) = .ok (k, result) ∧ SameHeap c i k h' := by
  obtain ⟨u, result, done, -⟩ := (same.all j).exec allowed ndebug
  have kept := Heaps.agree_put_other (same.all j) allowed done ne.symm
    (op.live u result (h.live j))
  refine ⟨_, _, Heaps.step_on done, same.all.put allowed done, same.managed, ?_, ?_⟩
  · exact ⟨kept.heap.symm.trans same.agree.heap, rfl,
      fun x hx => (kept.mem x hx).symm.trans (same.agree.mem x hx)⟩
  · rw [Heaps.live_put_other ne.symm]
    exact same.live

omit [DecidableEq ι] in
/-- `heap_cfg` on both sides. -/
theorem heapCfg (same : SameHeap c i h h') :
    SameHeap c i (Allocator.heapCfg c h) (Allocator.heapCfg c h') where
  all j := (same.all j).heapCfg
  managed := same.managed.heapCfg
  agree := by
    have record : h.heap_arr i = h'.heap_arr i := same.agree.heap
    refine ⟨?_, rfl, same.agree.mem⟩
    simp only [Heaps.state, Allocator.heapCfg, record]
  live := same.live

omit [DecidableEq ι] in
theorem start (c : Config ι) (i : ι) (mem : ByteMemory) (bit : ℕ) :
    SameHeap c i (.start c mem bit) (.start c mem bit) := by
  have blank : ∀ j, Managed (c.region j) ((Heaps.start c mem bit).state c j)
      ((Heaps.start c mem bit).live j) := fun j => ⟨⟨rfl, rfl, rfl⟩, .inl ⟨rfl, rfl⟩⟩
  exact ⟨blank, blank i, ⟨rfl, rfl, fun _ _ => rfl⟩, rfl⟩

end SameHeap

/-- In every interleaving of calls on the different heaps, the results returned for one
heap, its record and the bytes of its array are those of running only the calls that
concern it. -/
theorem heap_isolation (c : Config ι) (ndebug : Bool) (mem : ByteMemory) (bit : ℕ) (i : ι)
    (calls : List (Call ι)) (adm : (heaps c ndebug).Admissible (.start c mem bit) calls) :
    (heaps c ndebug).Admissible (.start c mem bit) (calls.filter (Call.concerns i)) ∧
      ∃ h h' results, (heaps c ndebug).run (.start c mem bit) calls = .ok (h, results) ∧
        (heaps c ndebug).run (.start c mem bit) (calls.filter (Call.concerns i)) =
          .ok (h', Machine.select (Call.concerns i) calls results) ∧
        h.heap_arr i = h'.heap_arr i ∧
        ∀ x, (c.region i).Holds x → h.mem x = h'.mem x := by
  have simulation := Machine.run_filter_of_simulation (N := heaps c ndebug) (R := SameHeap c i)
    (Call.concerns i) ?both ?alone (.start c i mem bit) adm
  · obtain ⟨own, h, h', results, run, run', same⟩ := simulation
    exact ⟨own, h, h', results, run, run', same.agree.heap, same.agree.mem⟩
  -- a call that concerns the heap is made on both sides
  case both =>
    intro h h' call concerned same allowed
    cases call with
    | on j op =>
      obtain rfl : j = i := by simpa [Call.concerns] using concerned
      have allowed : op.Allowed (h.live j) := allowed
      exact ⟨(same.live ▸ allowed : op.Allowed (h'.live j)), same.own allowed ndebug⟩
    | heapCfg => exact ⟨trivial, _, _, 0, rfl, rfl, same.heapCfg⟩
  -- any other is made in the full run only
  case alone =>
    intro h h' call unconcerned same allowed
    cases call with
    | on j op =>
      have ne : j ≠ i := by simpa [Call.concerns] using unconcerned
      exact same.other ne allowed ndebug
    | heapCfg => exact absurd rfl unconcerned

/-- Two heaps: the small one, and one of 100 bytes above it. -/
def twoHeaps : Config Bool where
  region second := if second then {
      ucHeap := 2000
      configTotalHeapSize := 100
      xStartAddr := 64
      size_lt := by decide
      no_wrap := by decide
      room := by decide
      record_lt := by decide
      record_apart := by decide } else smallRegion
  number second := if second then 1 else 0
  namestr second := if second then "second" else "small"
  disjoint := by
    intro i j ne x holds holds'
    have bounds : 1001 ≤ x ∧ x < 1129 ∧ 2000 ≤ x := by
      cases i <;> cases j
      · exact absurd rfl ne
      · exact ⟨holds.1, holds.2, holds'.1⟩
      · exact ⟨holds'.1, holds'.2, holds.1⟩
      · exact absurd rfl ne
    omega

/-- Calls on both heaps in turn; the second one is initialised between a request and
the free of the first. -/
def mixedCalls : List (Call Bool) :=
  [.on false (.malloc 10), .on true (.malloc 8), .heapCfg, .on false (.free 1012),
    .on true .reinit, .on false (.malloc 30)]

theorem heap_isolation_two :
    ∃ h h' results,
      (heaps twoHeaps false).run (.start twoHeaps (fun _ => 0) 0) mixedCalls = .ok (h, results) ∧
      (heaps twoHeaps false).run (.start twoHeaps (fun _ => 0) 0)
          (mixedCalls.filter (Call.concerns false)) =
        .ok (h', Machine.select (Call.concerns false) mixedCalls results) ∧
      h.heap_arr false = h'.heap_arr false ∧
      ∀ x, (twoHeaps.region false).Holds x → h.mem x = h'.mem x :=
  (heap_isolation twoHeaps false (fun _ => 0) 0 false mixedCalls (by decide +kernel)).2

end Components.Allocator
