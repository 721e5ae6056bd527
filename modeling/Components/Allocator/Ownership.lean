import Components.Allocator.Isolation

/-!
# Whose block `PortFree` is given

`PortFree` checks that the block is actually allocated, and what it looks at is the tag bit
and the link in the header before the pointer. A pointer that a client holds may belong to
another heap, or to a heap that was reinitialised after it was returned. The header of a
block of another heap is marked like that of a block of its own; `name_reinit` writes
only the first and the last header of the array, and leaves the marks of the others.

The owner of a pointer is kept beside the heaps: the heap whose `malloc` returned it, and
whether that heap has been reinitialised since.

## Main definitions

* `Held`, `Ownership`, `ownership` — the heaps with the pointers that clients hold
* `Rejected` — `PortFree` refuses a pointer
* `Marked` — the words before a pointer look like those of an allocated block

## Main results

* `rejected_iff` — a pointer is refused exactly when the words before it are not marked
* `ownership_checked_iff` — when `PortFree` refuses the pointers it should, in every
  reachable state
-/

namespace Components.Allocator

open Word

variable {ι : Type} [DecidableEq ι]

/-! ### The pointers that clients hold -/

/-- A pointer that a client holds. -/
structure Held (ι : Type) where
  /-- The heap whose `malloc` returned it. -/
  heap : ι
  pointer : ℕ
  /-- The heap has not been reinitialised since. -/
  current : Bool
  deriving DecidableEq, Repr

/-- The pointers held after a call, given its result: those returned and not freed
since. -/
def Call.held (call : Call ι) (result : ℕ) (before : List (Held ι)) : List (Held ι) :=
  match call with
  | .on i (.malloc _) =>
    if result = 0 then before
    else ⟨i, result, true⟩ :: before.filter fun e => e.pointer ≠ result
  | .on _ (.free pv) => before.filter fun e => e.pointer ≠ pv
  | .on i .reinit => before.map fun e => if e.heap = i then { e with current := false } else e
  | .on _ (.write _ _) => before
  | .heapCfg => before

/-- The heaps with the pointers that clients hold. -/
structure Ownership (ι : Type) where
  heaps : Heaps ι
  held : List (Held ι)

/-- One call. -/
def Ownership.step (c : Config ι) (ndebug : Bool) (o : Ownership ι) (call : Call ι) :
    Except Fault (Ownership ι × ℕ) := do
  let (h, result) ← o.heaps.step c ndebug call
  return (⟨h, call.held result o.held⟩, result)

/-- The words before the pointer are those of an allocated block. -/
def Marked (mem : ByteMemory) (p : ℕ) : Prop :=
  2 ^ 31 ≤ mem.load32 (p - 4) ∧ mem.load32 (p - 8) = 0

instance (mem : ByteMemory) (p : ℕ) : Decidable (Marked mem p) :=
  inferInstanceAs (Decidable (_ ∧ _))

/-- The free of a pointer to a heap that was reinitialised, of which no mark is left. -/
def Ownership.Outdated (o : Ownership ι) : Call ι → Prop
  | .on _ (.free pv) => ∃ e ∈ o.held, e.pointer = pv ∧ ¬ e.current ∧ ¬ Marked o.heaps.mem pv
  | _ => False

instance (o : Ownership ι) (call : Call ι) : Decidable (o.Outdated call) :=
  match call with
  | .on _ (.free _) => inferInstanceAs (Decidable (∃ e ∈ o.held, _))
  | .on _ (.malloc _) => inferInstanceAs (Decidable False)
  | .on _ .reinit => inferInstanceAs (Decidable False)
  | .on _ (.write _ _) => inferInstanceAs (Decidable False)
  | .heapCfg => inferInstanceAs (Decidable False)

/-- Runs over all heaps. When assertions are compiled out they may go on after the free of
an outdated pointer. -/
def ownership (c : Config ι) (ndebug : Bool) : Machine (Ownership ι) (Call ι) ℕ Fault where
  step := Ownership.step c ndebug
  Allowed o call := call.Allowed o.heaps ∨ ndebug = true ∧ o.Outdated call

instance (c : Config ι) (ndebug : Bool) (o : Ownership ι) (call : Call ι) :
    Decidable ((ownership c ndebug).Allowed o call) :=
  inferInstanceAs (Decidable (_ ∨ _ ∧ _))

/-- Before the first call no pointer is held. -/
def Ownership.start (c : Config ι) (mem : ByteMemory) (bit : ℕ) : Ownership ι :=
  ⟨.start c mem bit, []⟩

/-- The records of `heap_arr` are no part of any array. -/
def Config.RecordsApart (c : Config ι) : Prop :=
  ∀ i j, ¬ (c.region i).Holds (c.region j).xStartAddr

variable {c : Config ι} {o o' : Ownership ι} {i j : ι} {op : Op} {ndebug : Bool} {s u : State}
  {result p : ℕ} {e : Held ι} {call : Call ι}

/-! ### What `PortFree` looks at -/

/-- `PortFree` refuses the pointer: it fails an assertion, and changes nothing when
assertions are compiled out. -/
def Rejected (s : State) (p : ℕ) : Prop :=
  (∃ site, portFree false s p = .error (.assertion site)) ∧ portFree true s p = .ok s

/-- An unmarked pointer is refused, and only such a pointer. -/
theorem rejected_iff (low : 8 ≤ p) (high : p < 2 ^ 32) (bit : s.xBlockAllocatedBit = 2 ^ 31)
    (record : p - 8 ≠ s.xStartAddr) : Rejected s p ↔ ¬ Marked s.mem p := by
  have pointer : p ≠ 0 := by omega
  have link : wsub p xHeapStructSize = p - 8 := by
    rw [xHeapStructSize_eq]
    exact wsub_of_le low high
  have next : s.next (wsub p xHeapStructSize) = s.mem.load32 (p - 8) := by
    rw [link, State.next, if_neg record]
  have word : p - 8 + 4 = p - 4 := by omega
  have tag : s.size (wsub p xHeapStructSize) &&& s.xBlockAllocatedBit = 0 ↔
      s.mem.load32 (p - 4) < 2 ^ 31 := by
    rw [link, State.size, if_neg record, word, bit]
    exact land_top_eq_zero_iff (ByteMemory.load32_lt _ _)
  constructor
  · rintro ⟨⟨site, failed⟩, -⟩ ⟨tagged, unlinked⟩
    exact portFree_of_marked pointer (fun clear => absurd (tag.mp clear) (not_lt.mpr tagged))
      (next.trans unlinked) false site failed
  · intro unmarked
    by_cases clear : s.size (wsub p xHeapStructSize) &&& s.xBlockAllocatedBit = 0
    · have result := portFree_of_untagged pointer clear
      exact ⟨⟨_, result.1⟩, result.2⟩
    · have tagged : 2 ^ 31 ≤ s.mem.load32 (p - 4) := not_lt.mp fun small => clear (tag.mpr small)
      have linked : s.next (wsub p xHeapStructSize) ≠ 0 := fun unlinked =>
        unmarked ⟨tagged, next.symm.trans unlinked⟩
      have result := portFree_of_linked pointer clear linked
      exact ⟨⟨_, result.1⟩, result.2⟩

/-! ### What each call does to the pointers -/

/-- What every reachable state satisfies. -/
structure Ownership.Known (c : Config ι) (o : Ownership ι) : Prop where
  all : o.heaps.AllManaged c
  /-- The pointers of a heap that has not been reinitialised are those of live blocks. -/
  live : ∀ e ∈ o.held, e.current → ∃ b ∈ o.heaps.live e.heap, e.pointer = b.start + 8
  inside : ∀ e ∈ o.held, (c.region e.heap).lo + 8 ≤ e.pointer ∧ e.pointer ≤ (c.region e.heap).hi
  bit : o.held ≠ [] → o.heaps.xBlockAllocatedBit = 2 ^ 31

/-- The pointer of a live block lies in the array. -/
theorem Managed.pointer_inside {r : Region} {live : List Block} {b : Block} (h : Managed r s live)
    (hb : b ∈ live) : r.lo + 8 ≤ b.start + 8 ∧ b.start + 8 ≤ r.hi := by
  obtain ⟨free, represents⟩ := h.represents_of_mem hb
  have mem : b ∈ free ++ live := List.mem_append_right _ hb
  have start := represents.layout.le_start mem
  have stop := represents.layout.stop_le mem
  have large := represents.layout.large b mem
  unfold Block.stop at stop
  omega

/-- A call drops no live block but the one it frees. -/
theorem Op.mem_live {live : List Block} {b : Block} (hb : b ∈ live)
    (kept : op ≠ .free (b.start + 8)) (noReinit : op ≠ .reinit) : b ∈ op.live u result live := by
  cases op with
  | malloc n =>
    rw [Op.live]
    split_ifs
    · exact hb
    · exact List.mem_cons_of_mem _ hb
  | free pv =>
    refine List.mem_filter.mpr ⟨hb, decide_eq_true fun same => kept ?_⟩
    rw [same]
  | reinit => exact absurd rfl noReinit
  | write a v => exact hb

/-- A pointer that is held was returned by the call, or was held before. -/
theorem Call.mem_held {before : List (Held ι)} (he : e ∈ (Call.on i op).held result before) :
    (∃ n, op = .malloc n ∧ result ≠ 0 ∧ e = ⟨i, result, true⟩) ∨
      ∃ d ∈ before, e.heap = d.heap ∧ e.pointer = d.pointer ∧ op ≠ .free e.pointer ∧
        (e.current → d.current ∧ (d.heap = i → op ≠ .reinit)) := by
  cases op with
  | malloc n =>
    rw [held] at he
    split_ifs at he with null
    · exact .inr ⟨e, he, rfl, rfl, by simp, fun current => ⟨current, by simp⟩⟩
    · rcases List.mem_cons.mp he with rfl | he
      · exact .inl ⟨n, rfl, null, rfl⟩
      · have old := (List.mem_filter.mp he).1
        exact .inr ⟨e, old, rfl, rfl, by simp, fun current => ⟨current, by simp⟩⟩
  | free pv =>
    obtain ⟨old, other⟩ := List.mem_filter.mp he
    have other : e.pointer ≠ pv := of_decide_eq_true other
    refine .inr ⟨e, old, rfl, rfl, ?_, fun current => ⟨current, by simp⟩⟩
    simpa using other.symm
  | reinit =>
    obtain ⟨d, old, rfl⟩ := List.mem_map.mp he
    refine .inr ⟨d, old, ?_, ?_, by simp, ?_⟩
    · split_ifs <;> rfl
    · split_ifs <;> rfl
    · split_ifs with own
      · exact fun current => nomatch current
      · exact fun current => ⟨current, fun same => absurd same own⟩
  | write a v => exact .inr ⟨e, he, rfl, rfl, by simp, fun current => ⟨current, by simp⟩⟩

namespace Ownership

theorem step_eq {h : Heaps ι} (done : o.heaps.step c ndebug call = .ok (h, result)) :
    o.step c ndebug call = .ok (⟨h, call.held result o.held⟩, result) := by
  simp only [step, done]
  rfl

namespace Known

omit [DecidableEq ι] in
/-- The pointer returned by `malloc` is that of a live block. -/
theorem live_new {n : UInt32} (k : o.Known c) (ne : result ≠ 0)
    (done : (Op.malloc n).exec ndebug (o.heaps.state c i) = .ok (u, result)) :
    ∃ b ∈ (Op.malloc n).live u result (o.heaps.live i), result = b.start + 8 := by
  obtain ⟨free, represents, ⟨-, refused⟩ | ⟨l₁, b, l₂, -, rfl, fits, served⟩⟩ :=
    (k.all i).malloc_cases n ndebug
  · cases refused.symm.trans done
    exact absurd rfl ne
  · have blocks := (represents.served fits).1
    cases served.symm.trans done
    rw [blocks]
    exact ⟨_, List.mem_cons_self, by rw [taken_start]⟩

/-- A call on one of the heaps that clients may make. -/
theorem on (k : o.Known c) (allowed : op.Allowed (o.heaps.live i)) (ndebug : Bool) :
    ∃ o' result, o.step c ndebug (.on i op) = .ok (o', result) ∧ o'.Known c := by
  obtain ⟨u, result, done, managed⟩ := (k.all i).exec allowed ndebug
  refine ⟨_, _, step_eq (Heaps.step_on done), k.all.put allowed done, ?_, ?_, ?_⟩
  · intro e he current
    rcases Call.mem_held he with ⟨n, rfl, ne, rfl⟩ | ⟨d, hd, heap, pointer, kept, same⟩
    · rw [Heaps.live_put_self]
      exact k.live_new ne done
    · obtain ⟨before, noReinit⟩ := same current
      obtain ⟨b, hb, start⟩ := k.live d hd before
      rw [pointer, start] at kept
      refine ⟨b, ?_, pointer.trans start⟩
      -- the live blocks of the heap that is called change, those of the others do not
      by_cases own : d.heap = i
      · rw [heap, own, Heaps.live_put_self]
        exact Op.mem_live (own ▸ hb) kept (noReinit own)
      · rw [heap, Heaps.live_put_other own]
        exact hb
  · intro e he
    rcases Call.mem_held he with ⟨n, rfl, ne, rfl⟩ | ⟨d, hd, heap, pointer, -⟩
    · obtain ⟨b, hb, start⟩ := k.live_new ne done
      rw [start]
      exact managed.pointer_inside hb
    · rw [heap, pointer]
      exact k.inside d hd
  · intro some
    obtain ⟨e, he⟩ := List.exists_mem_of_ne_nil _ some
    rcases Call.mem_held he with ⟨n, rfl, ne, -⟩ | ⟨d, hd, -⟩
    · obtain ⟨b, hb, -⟩ := k.live_new ne done
      obtain ⟨free, represents⟩ := managed.represents_of_mem hb
      exact represents.bit
    · rcases (k.all i).exec_bit allowed done with same | set
      · exact same.trans (k.bit (List.ne_nil_of_mem hd))
      · exact set

omit [DecidableEq ι] in
/-- What `PortFree` of any heap makes of a pointer that is held. -/
theorem rejected_iff (k : o.Known c) (records : c.RecordsApart) (he : e ∈ o.held) (j : ι) :
    Rejected (o.heaps.state c j) e.pointer ↔ ¬ Marked o.heaps.mem e.pointer := by
  obtain ⟨low, high⟩ := k.inside e he
  have start := (c.region e.heap).ucHeap_le_lo
  have top := (c.region e.heap).hi_add_le
  have wrap := (c.region e.heap).no_wrap
  refine Allocator.rejected_iff (s := o.heaps.state c j) (by omega) (by omega)
    (k.bit (List.ne_nil_of_mem he)) fun record => ?_
  have record : e.pointer - 8 = (c.region j).xStartAddr := record
  exact records e.heap j ⟨by omega, by omega⟩

omit [DecidableEq ι] in
/-- The blocks that are live in a heap are marked. -/
theorem marked_live (k : o.Known c) {b : Block} (hb : b ∈ o.heaps.live i) :
    Marked o.heaps.mem (b.start + 8) := by
  obtain ⟨free, represents⟩ := (k.all i).represents_of_mem hb
  have record : b.start ≠ (o.heaps.state c i).xStartAddr := by
    rw [represents.xStartAddr]
    exact (represents.layout.apart_live hb (by simp [nodes])).symm.ne
  have size := represents.liveSize b hb
  have next := represents.liveNext b hb
  rw [State.size, if_neg record] at size
  rw [State.next, if_neg record] at next
  exact ⟨(Nat.le_add_left _ _).trans size.ge, next⟩

/-- The free of an outdated pointer changes nothing. -/
theorem outdated (k : o.Known c) (records : c.RecordsApart) (h : o.Outdated call) :
    ∃ o' result, o.step c true call = .ok (o', result) ∧ o'.Known c := by
  cases call with
  | heapCfg => exact h.elim
  | on j op =>
    cases op with
    | malloc n => exact h.elim
    | reinit => exact h.elim
    | write a v => exact h.elim
    | free pv =>
      obtain ⟨e, he, rfl, -, unmarked⟩ := h
      have rejected := ((k.rejected_iff records he j).mpr unmarked).2
      have done : (Op.free e.pointer).exec true (o.heaps.state c j) =
          .ok (o.heaps.state c j, 0) := by
        rw [Op.exec, rejected]
        rfl
      -- live blocks are marked, so the pointer is not that of one
      have kept : (Op.free e.pointer).live (o.heaps.state c j) 0 (o.heaps.live j) =
          o.heaps.live j := by
        refine List.filter_eq_self.mpr fun b hb => decide_eq_true fun same => unmarked ?_
        exact same ▸ k.marked_live hb
      have same : o.heaps.put j (o.heaps.state c j) (o.heaps.live j) = o.heaps := by
        simp [Heaps.put, Heaps.state]
      have step := step_eq (Heaps.step_on done)
      rw [kept, same] at step
      refine ⟨_, _, step, k.all, fun d hd => ?_, fun d hd => ?_, fun _ => ?_⟩
      · exact k.live d (List.mem_filter.mp hd).1
      · exact k.inside d (List.mem_filter.mp hd).1
      · exact k.bit (List.ne_nil_of_mem he)

theorem step (k : o.Known c) (records : c.RecordsApart)
    (allowed : (ownership c ndebug).Allowed o call) :
    ∃ o' result, o.step c ndebug call = .ok (o', result) ∧ o'.Known c := by
  rcases allowed with allowed | ⟨rfl, outdated⟩
  · cases call with
    | on i op => exact k.on allowed ndebug
    | heapCfg => exact ⟨_, _, rfl, fun i => (k.all i).heapCfg, k.live, k.inside, k.bit⟩
  · exact k.outdated records outdated

omit [DecidableEq ι] in
theorem start (c : Config ι) (mem : ByteMemory) (bit : ℕ) :
    (Ownership.start c mem bit).Known c where
  all _ := ⟨⟨rfl, rfl, rfl⟩, .inl ⟨rfl, rfl⟩⟩
  live _ he := nomatch he
  inside _ he := nomatch he
  bit some := absurd rfl some

end Known

end Ownership

/-! ### The result -/

/-- `PortFree` of the heap `j` accepts the pointer only if it belongs to `j`, and that heap
has not been reinitialised since. -/
def OwnerChecked (c : Config ι) (o : Ownership ι) (e : Held ι) (j : ι) : Prop :=
  e.heap = j ∧ e.current ∨ Rejected (o.heaps.state c j) e.pointer

/-- In every reachable state, and for every pointer that is held: `PortFree` of a heap
checks the owner exactly when the pointer is its own, or is outdated and not marked. -/
theorem ownership_checked_iff (records : c.RecordsApart) (ndebug : Bool) (mem : ByteMemory)
    (bit : ℕ) (calls : List (Call ι))
    (adm : (ownership c ndebug).Admissible (.start c mem bit) calls) :
    ∃ o results, (ownership c ndebug).run (.start c mem bit) calls = .ok (o, results) ∧
      ∀ e ∈ o.held, ∀ j, OwnerChecked c o e j ↔
        e.heap = j ∧ e.current ∨ ¬ e.current ∧ ¬ Marked o.heaps.mem e.pointer := by
  obtain ⟨o, results, done, known⟩ := Machine.exists_run_of_invariant
    (fun _ _ inv allowed => Ownership.Known.step inv records allowed) (.start c mem bit) adm
  refine ⟨o, results, done, fun e he j => ?_⟩
  unfold OwnerChecked
  rw [known.rejected_iff records he j]
  refine or_congr_right ⟨fun unmarked => ⟨fun current => ?_, unmarked⟩, fun h => h.2⟩
  obtain ⟨b, hb, start⟩ := known.live e he current
  exact unmarked (start ▸ known.marked_live hb)

theorem twoHeaps_recordsApart : twoHeaps.RecordsApart := by
  rintro i j ⟨low, -⟩
  have record : (twoHeaps.region j).xStartAddr ≤ 64 := by cases j <;> decide
  have array : 1001 ≤ (twoHeaps.region i).ucHeap := by cases i <;> decide
  omega

/-- The first heap is reinitialised while two of its pointers are held. -/
def outdatedCalls : List (Call Bool) :=
  [.on false (.malloc 10), .on false (.malloc 20), .on true (.malloc 8), .on false .reinit]

/-- The new first header has erased the mark before the pointer 1012. The mark before
1032 is still there. -/
theorem ownership_checked_iff_two :
    ∃ o results, (ownership twoHeaps false).run (.start twoHeaps (fun _ => 0) 0) outdatedCalls =
        .ok (o, results) ∧
      o.held = [⟨true, 2008, true⟩, ⟨false, 1032, false⟩, ⟨false, 1012, false⟩] ∧
      OwnerChecked twoHeaps o ⟨false, 1012, false⟩ false ∧
      ¬ OwnerChecked twoHeaps o ⟨false, 1032, false⟩ false := by
  have adm : (ownership twoHeaps false).Admissible (.start twoHeaps (fun _ => 0) 0)
      outdatedCalls := by decide +kernel
  obtain ⟨o, results, done, checked⟩ :=
    ownership_checked_iff twoHeaps_recordsApart false (fun _ => 0) 0 outdatedCalls adm
  have value : ((ownership twoHeaps false).run (.start twoHeaps (fun _ => 0) 0) outdatedCalls).map
      (fun final => (final.1.held, decide (Marked final.1.heaps.mem 1012),
        decide (Marked final.1.heaps.mem 1032))) =
      .ok ([⟨true, 2008, true⟩, ⟨false, 1032, false⟩, ⟨false, 1012, false⟩], false, true) := by
    decide +kernel
  rw [done] at value
  obtain ⟨held, marks⟩ := Prod.mk.inj (Except.ok.inj value)
  obtain ⟨erased, kept⟩ := Prod.mk.inj marks
  have held : o.held = [⟨true, 2008, true⟩, ⟨false, 1032, false⟩, ⟨false, 1012, false⟩] := held
  refine ⟨o, results, done, held, ?_, ?_⟩
  · exact (checked ⟨false, 1012, false⟩ (by simp [held]) false).mpr
      (.inr ⟨by decide, of_decide_eq_false erased⟩)
  · rw [checked ⟨false, 1032, false⟩ (by simp [held]) false]
    rintro (⟨-, current⟩ | ⟨-, unmarked⟩)
    · cases current
    · exact unmarked (of_decide_eq_true kept)

/-- Both heaps have a live block. -/
def foreignCalls : List (Call Bool) := [.on false (.malloc 10), .on true (.malloc 8)]

/-- The second heap takes the block of the first. -/
theorem ownership_foreign :
    ∃ o results, (ownership twoHeaps false).run (.start twoHeaps (fun _ => 0) 0) foreignCalls =
        .ok (o, results) ∧
      (⟨false, 1012, true⟩ : Held Bool) ∈ o.held ∧
      ¬ OwnerChecked twoHeaps o ⟨false, 1012, true⟩ true := by
  have value : ((ownership twoHeaps false).run (.start twoHeaps (fun _ => 0) 0)
      foreignCalls).map (fun final => (final.1.held,
        (portFree false (final.1.heaps.state twoHeaps true) 1012).map
          fun s => s.heap.xNumberOfSuccessfulFrees)) =
      .ok ([⟨true, 2008, true⟩, ⟨false, 1012, true⟩], .ok 1) := by
    decide +kernel
  cases done : (ownership twoHeaps false).run (.start twoHeaps (fun _ => 0) 0) foreignCalls with
  | error fault =>
    rw [done] at value
    cases value
  | ok final =>
    rw [done] at value
    obtain ⟨held, freed⟩ := Prod.mk.inj (Except.ok.inj value)
    refine ⟨final.1, final.2, rfl, by simp [held], ?_⟩
    rintro (⟨other, -⟩ | ⟨⟨site, failed⟩, -⟩)
    · cases other
    · have failed : portFree false (final.1.heaps.state twoHeaps true) 1012 =
          .error (.assertion site) := failed
      rw [failed] at freed
      cases freed

end Components.Allocator
