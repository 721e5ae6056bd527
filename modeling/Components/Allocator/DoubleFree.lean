import Components.Allocator.Runs

/-!
# Freeing a pointer twice

After a block is freed its header stays in memory, where it may become the header of a
free block, or a stale pair of words inside a larger one. Later calls split and merge that
block, and write headers that may overlap the stale one in part. The pointer is *stale*
until a block that overlaps its old header is handed out. As long as it is, no write sets
the tag bit there: the size field of the old header either is the size field of a free
block, or lies outside every header.

## Main definitions

* `Ledger`, `ledger` — sessions that also keep the stale pointers
* `Vacant` — the header of a pointer lies in free memory
* `Stale` — and its tag bit is clear

## Main results

* `Represents.untagged` — header writes that respect a layout set no tag in free memory
* `ledger_doubleFree` — in every reachable state the free of a stale pointer is rejected
-/

namespace Components.Allocator

open Word

/-- The header of a pointer. -/
def headerOf (p : ℕ) : Block := ⟨p - 8, 8⟩

/-- The freed pointers whose header no block handed out since overlaps, given the result
of the call and the live blocks after it. -/
def Op.stale (op : Op) (result : ℕ) (live : List Block) (before : List ℕ) : List ℕ :=
  match op with
  | malloc _ =>
    if result = 0 then before
    else before.filter fun p => ∀ c ∈ live, c.start + 8 = result → c.Disjoint (headerOf p)
  | free pv => if pv = 0 then before else pv :: before
  | reinit => []
  | write _ _ => before

/-- A session with its stale pointers. -/
structure Ledger extends Session where
  stale : List ℕ

/-- One call of the client. -/
def Ledger.step (ndebug : Bool) (t : Ledger) (op : Op) : Except Fault (Ledger × ℕ) := do
  let (t', result) ← t.toSession.step ndebug op
  return (⟨t', op.stale result t'.live t.stale⟩, result)

/-- Clients that do not call `name_reinit`. When assertions are compiled out they may also
free a stale pointer again. -/
def ledger (ndebug : Bool) : Machine Ledger Op ℕ Fault where
  step := Ledger.step ndebug
  Allowed t op := op ≠ .reinit ∧
    (op.Allowed t.live ∨ ndebug = true ∧ ∃ p ∈ t.stale, op = .free p)

instance (ndebug : Bool) (t : Ledger) (op : Op) : Decidable ((ledger ndebug).Allowed t op) :=
  inferInstanceAs (Decidable (_ ∧ (_ ∨ _ ∧ _)))

/-- The ledger in which a client starts. -/
def Ledger.start (s : State) : Ledger := ⟨.start s, []⟩

variable {r : Region} {s s' : State} {free free' live live' : List Block} {b : Block} {op : Op}
  {ops : List Op} {ndebug : Bool} {result p : ℕ} {t : Ledger}

/-! ### Headers in free memory -/

/-- The header of the pointer lies in the region, and no live block overlaps it. -/
structure Vacant (r : Region) (live : List Block) (p : ℕ) : Prop where
  aligned : p % 4 = 0
  low : r.lo + 8 ≤ p
  high : p ≤ r.hi
  apart : ∀ c ∈ live, c.Disjoint (headerOf p)

namespace Vacant

/-- One free block contains the whole header. -/
theorem exists_free (h : Vacant r live p) (layout : Layout r free live) :
    ∃ d ∈ free, d.start + 8 ≤ p ∧ p ≤ d.stop := by
  have low := h.low
  have covers : ∀ x, p - 8 ≤ x → x < p → ∃ d ∈ free, d.Contains x := by
    intro x above below
    have high := h.high
    refine (layout.covers_free_iff x).mpr ⟨by omega, Nat.eq_zero_of_not_pos fun covered => ?_⟩
    obtain ⟨c, hc, inside⟩ := coverage_pos_iff.mp covered
    have apart := h.apart c hc
    unfold Block.Contains at inside
    unfold Block.Disjoint headerOf at apart
    unfold Block.stop at *
    dsimp only at *
    omega
  obtain ⟨d, hd, start, stop⟩ := layout.separated.exists_covering (by omega) covers
  exact ⟨d, hd, by omega, stop⟩

/-- A live block has its header away from a vacant one. -/
theorem apart_start (h : Vacant r live p) (layout : Layout r free live) (hb : b ∈ live) :
    Apart b.start (p - 8) := by
  have large := layout.large b (List.mem_append_right _ hb)
  have apart := h.apart b hb
  unfold Block.Disjoint Block.stop headerOf at apart
  unfold Apart
  dsimp only at apart
  omega

theorem mono (h : Vacant r live p) (sub : live' ⊆ live) : Vacant r live' p :=
  { h with apart := fun c hc => h.apart c (sub hc) }

end Vacant

/-- Headers of free blocks either start where a vacant one does or leave its size field
alone. -/
theorem Layout.outside_size (h : Layout r free live) (vacant : Vacant r live p)
    (other : p - 8 ∉ free.map Block.start) {w x : ℕ} (hw : w ∈ nodes r free) (low : p - 4 ≤ x)
    (high : x < p) : w = r.xStartAddr ∨ x < w ∨ w + 8 ≤ x := by
  obtain ⟨d, hd, start, stop⟩ := vacant.exists_free h
  have bound := vacant.high
  have header : w ∈ nodes r free ++ ([] : List Block).map Block.start :=
    List.mem_append_left _ hw
  rcases mem_headers header with rfl | rfl | ⟨e, he, rfl⟩
  · exact .inl rfl
  · exact .inr (.inl (by omega))
  · rw [List.append_nil] at he
    by_cases same : e = d
    -- both are aligned, so the header of the block ends where the size field starts
    · subst same
      have ne : e.start ≠ p - 8 := fun eq => other (eq ▸ List.mem_map_of_mem hd)
      have aligned := (h.aligned e (List.mem_append_left _ hd)).1
      have aligned' := vacant.aligned
      omega
    · have disjoint := h.tiles.pairwise_disjoint fun c hc => h.pos hc
      have separate := disjoint.forall (List.mem_append_left live he) (List.mem_append_left live hd)
        same
      have large := h.large e (List.mem_append_left live he)
      unfold Block.Disjoint at separate
      unfold Block.stop at *
      omega

/-- The size field at an address of the region lies in memory. -/
theorem Represents.size_of_vacant (h : Represents r s free live) (vacant : Vacant r live' p) :
    s.size (p - 8) = s.mem.load32 (p - 8 + 4) := by
  have low := vacant.low
  have high := vacant.high
  have apart := r.apart_xStartAddr (p := p - 8) (by omega) (by omega)
  rw [State.size, if_neg (h.xStartAddr ▸ apart.ne.symm)]

/-- Writes to headers of the free list, and to headers away from a vacant one, set no tag
in it. -/
theorem Represents.untagged {W : List ℕ} (before : Represents r s free live)
    (after : Represents r s' free' live') (vacant : Vacant r live' p) (touch : Touches s s' W)
    (owned : ∀ w ∈ W, Apart w (p - 8) ∨ w ∈ nodes r free') (clear : s.size (p - 8) < 2 ^ 31) :
    s'.size (p - 8) < 2 ^ 31 := by
  have low := vacant.low
  by_cases starts : p - 8 ∈ free'.map Block.start
  · exact after.freeSize_lt starts
  · have same : s'.mem.load32 (p - 8 + 4) = s.mem.load32 (p - 8 + 4) := by
      refine ByteMemory.load32_congr fun x above below => touch.mem x fun w hw => ?_
      rw [before.xStartAddr]
      rcases owned w hw with apart | node
      · unfold Apart at apart
        omega
      · exact after.layout.outside_size vacant starts node (by omega) (by omega)
    rw [after.size_of_vacant vacant, same, ← before.size_of_vacant vacant]
    exact clear

/-! ### Stale pointers -/

/-- The pointer has a vacant header without a tag. -/
structure Stale (r : Region) (s : State) (live : List Block) (p : ℕ) : Prop
    extends Vacant r live p where
  init : s.heap.pxEnd ≠ 0
  untagged : s.size (p - 8) < 2 ^ 31

/-- The free of a stale pointer fails the first check. -/
theorem Stale.rejected (h : Stale r s live p) (managed : Managed r s live) :
    portFree false s p = .error (.assertion .blockAllocated) ∧ portFree true s p = .ok s := by
  obtain ⟨free, represents⟩ := managed.represents h.init
  have low := h.low
  have high := h.high
  have top := r.hi_add_le
  have wrap := r.no_wrap
  have link : wsub p xHeapStructSize = p - 8 := by
    rw [xHeapStructSize_eq]
    exact wsub_of_le (by omega) (by omega)
  refine portFree_of_untagged (by omega) ?_
  rw [link, represents.bit]
  exact (land_top_eq_zero_iff (h.untagged.trans (by decide))).mpr h.untagged

/-! ### What each call does to stale pointers -/

namespace Managed

/-- A block that is handed out elsewhere leaves the pointer stale. -/
theorem stale_malloc {n : UInt32} (h : Managed r s live) (stale : Stale r s live p)
    (done : (Op.malloc n).exec ndebug s = .ok (s', result))
    (spared : ∀ c ∈ (Op.malloc n).live s' result live, c.start + 8 = result →
      c.Disjoint (headerOf p)) :
    Stale r s' ((Op.malloc n).live s' result live) p := by
  have same : ensureInit s = s := if_neg stale.init
  obtain ⟨free, represents, ⟨-, refused⟩ | ⟨l₁, b, l₂, -, rfl, fits, served⟩⟩ :=
    h.malloc_cases n ndebug
  · cases refused.symm.trans done
    rw [same]
    exact stale
  · rw [same] at represents served
    obtain ⟨blocks, after⟩ := represents.served fits
    cases served.symm.trans done
    rw [blocks] at spared ⊢
    have vacant : Vacant r (taken b (needed n.toNat) :: live) p := { stale.toVacant with
      apart := fun c hc => by
        rcases List.mem_cons.mp hc with rfl | hc
        · exact spared _ List.mem_cons_self (by rw [taken_start])
        · exact stale.apart c hc }
    refine ⟨vacant, after.pxEnd_ne, ?_⟩
    refine represents.untagged after vacant (handOut_touches r s l₁ l₂ b _) (fun w hw => ?_)
      stale.untagged
    -- the header of the block that is handed out is away, the others are in the free list
    rcases List.mem_cons.mp hw with rfl | hw
    · rw [List.append_assoc]
      exact .inr (lastNode_mem_nodes r l₁ _)
    rcases List.mem_cons.mp hw with rfl | hw
    · rw [← taken_start (b := b) (k := needed n.toNat)]
      exact .inl (vacant.apart_start after.layout List.mem_cons_self)
    · obtain ⟨d, hd, rfl⟩ := List.mem_map.mp hw
      exact .inr (start_mem_nodes (by simp [hd]))

/-- The free of a live block leaves the pointer stale. -/
theorem stale_free {pv : ℕ} (h : Managed r s live) (stale : Stale r s live p)
    (allowed : (Op.free pv).Allowed live) (done : (Op.free pv).exec ndebug s = .ok (s', result)) :
    Stale r s' ((Op.free pv).live s' result live) p := by
  rcases h.free_cases allowed ndebug with ⟨nothing, rfl⟩ |
    ⟨free, free', b, q, s'', represents, hb, -, freed, after, -, ⟨-, node, -⟩, touch, -⟩
  · cases nothing.symm.trans done
    have kept : (Op.free 0).live s 0 live = live := by simp [Op.live]
    rw [kept]
    exact stale
  · cases freed.symm.trans done
    have vacant : Vacant r ((Op.free pv).live s' 0 live) p :=
      stale.toVacant.mono (List.filter_subset_self _)
    refine ⟨vacant, after.pxEnd_ne, ?_⟩
    refine represents.untagged after vacant touch (fun w hw => ?_) stale.untagged
    rcases List.mem_cons.mp hw with rfl | hw
    · exact .inr node
    · rw [List.mem_singleton.mp hw]
      exact .inl (stale.toVacant.apart_start represents.layout hb)

/-- A pointer that is freed becomes stale. -/
theorem stale_self {pv : ℕ} (h : Managed r s live) (allowed : (Op.free pv).Allowed live)
    (pointer : pv ≠ 0) (done : (Op.free pv).exec ndebug s = .ok (s', result)) :
    Stale r s' ((Op.free pv).live s' result live) pv := by
  rcases h.free_cases allowed ndebug with ⟨-, null⟩ |
    ⟨free, free', b, q, s'', represents, hb, rfl, freed, after, perm, ⟨-, -, untagged⟩, -, -⟩
  · exact absurd null pointer
  · cases freed.symm.trans done
    have mem : b ∈ free ++ live := List.mem_append_right _ hb
    have start := represents.layout.le_start mem
    have stop := represents.layout.stop_le mem
    have large := represents.layout.large b mem
    have aligned := (represents.layout.aligned b mem).1
    unfold Block.stop at stop
    refine ⟨⟨by omega, by omega, by omega, fun c hc => ?_⟩, after.pxEnd_ne, untagged⟩
    -- the other live blocks are disjoint from the one that was freed
    have apart := represents.layout.disjoint_other perm hc
    unfold Block.Disjoint Block.stop at apart
    unfold Block.Disjoint Block.stop headerOf
    dsimp only
    omega

/-- Writes to live payloads leave the pointer stale. -/
theorem stale_write {a : ℕ} {v : UInt8} (h : Managed r s live) (stale : Stale r s live p)
    (allowed : (Op.write a v).Allowed live) :
    Stale r { s with mem := Function.update s.mem a v } live p := by
  obtain ⟨b, hb, payload⟩ := allowed
  obtain ⟨free, represents⟩ := h.represents stale.init
  have after := represents.write v (represents.layout.clear_payload hb payload)
  refine ⟨stale.toVacant, stale.init, ?_⟩
  have apart := stale.apart b hb
  have low := stale.low
  have same : ByteMemory.load32 (Function.update s.mem a v) (p - 8 + 4) =
      s.mem.load32 (p - 8 + 4) := by
    refine ByteMemory.load32_congr fun x above below => Function.update_of_ne ?_ v s.mem
    rintro rfl
    unfold Payload at payload
    unfold Block.Disjoint Block.stop headerOf at apart
    unfold Block.stop at payload
    dsimp only at apart
    omega
  rw [after.size_of_vacant stale.toVacant, same, ← represents.size_of_vacant stale.toVacant]
  exact stale.untagged

end Managed

/-! ### Runs -/

/-- What every reachable ledger satisfies. -/
structure Ledger.Kept (r : Region) (t : Ledger) : Prop where
  managed : Managed r t.state t.live
  stale : ∀ p ∈ t.stale, Stale r t.state t.live p

theorem Ledger.step_eq (done : op.exec ndebug t.state = .ok (s', result)) :
    ∃ freeBytes, t.step ndebug op = .ok (⟨⟨s', op.live s' result t.live, freeBytes⟩,
      op.stale result (op.live s' result t.live) t.stale⟩, result) := by
  simp only [step, Session.step_eq done]
  exact ⟨_, rfl⟩

namespace Ledger.Kept

/-- The free of a stale pointer, when assertions are compiled out, is skipped. -/
theorem step_again (h : t.Kept r) (hp : p ∈ t.stale) :
    ∃ t' result, t.step true (.free p) = .ok (t', result) ∧ t'.Kept r := by
  have stale := h.stale p hp
  have low := stale.low
  have done : (Op.free p).exec true t.state = .ok (t.state, 0) := by
    rw [Op.exec, (stale.rejected h.managed).2]
    rfl
  -- the pointer is not that of a live block, so none is dropped
  have kept : (Op.free p).live t.state 0 t.live = t.live := by
    refine List.filter_eq_self.mpr fun c hc => ?_
    obtain ⟨free, represents⟩ := h.managed.represents stale.init
    have apart := stale.toVacant.apart_start represents.layout hc
    unfold Apart at apart
    exact decide_eq_true (by omega)
  obtain ⟨freeBytes, step⟩ := Ledger.step_eq done
  rw [kept] at step
  refine ⟨_, _, step, h.managed, fun q hq => ?_⟩
  rw [Op.stale, if_neg (by omega)] at hq
  rcases List.mem_cons.mp hq with rfl | hq
  · exact stale
  · exact h.stale q hq

theorem step (h : t.Kept r) (allowed : (ledger ndebug).Allowed t op) :
    ∃ t' result, t.step ndebug op = .ok (t', result) ∧ t'.Kept r := by
  obtain ⟨noReinit, allowed | ⟨rfl, p, hp, rfl⟩⟩ := allowed
  · obtain ⟨s', result, done, managed⟩ := h.managed.exec allowed ndebug
    obtain ⟨freeBytes, step⟩ := Ledger.step_eq (t := t) done
    refine ⟨_, _, step, managed, fun p hp => ?_⟩
    cases op with
    | malloc n =>
      rw [Op.stale] at hp
      split_ifs at hp with null
      · refine h.managed.stale_malloc (h.stale p hp) done fun c hc pointer => ?_
        omega
      · obtain ⟨old, spared⟩ := List.mem_filter.mp hp
        exact h.managed.stale_malloc (h.stale p old) done (of_decide_eq_true spared)
    | free pv =>
      rw [Op.stale] at hp
      split_ifs at hp with null
      · exact h.managed.stale_free (h.stale p hp) allowed done
      · rcases List.mem_cons.mp hp with rfl | hp
        · exact h.managed.stale_self allowed null done
        · exact h.managed.stale_free (h.stale p hp) allowed done
    | reinit => exact absurd rfl noReinit
    | write a v =>
      cases done
      exact h.managed.stale_write (h.stale p hp) allowed
  · exact h.step_again hp

end Ledger.Kept

/-- In every reachable state the free of a stale pointer fails the first assertion, and
changes nothing when assertions are compiled out. -/
theorem ledger_doubleFree (blank : Blank r s)
    (adm : (ledger ndebug).Admissible (.start s) ops) :
    ∃ t results, (ledger ndebug).run (.start s) ops = .ok (t, results) ∧
      ∀ p ∈ t.stale, portFree false t.state p = .error (.assertion .blockAllocated) ∧
        portFree true t.state p = .ok t.state := by
  have start : (Ledger.start s).Kept r := ⟨blank.sound.managed, fun p hp => nomatch hp⟩
  obtain ⟨t, results, done, kept⟩ := Machine.exists_run_of_invariant
    (fun _ _ inv allowed => Ledger.Kept.step inv allowed) start adm
  exact ⟨t, results, done, fun p hp => (kept.stale p hp).rejected kept.managed⟩

/-- Three blocks are freed and merge into one, from which a smaller block is split off. The
old headers at 1024 and 1052 then lie inside the rest. -/
def staleRun : List Op :=
  [.malloc 10, .malloc 20, .malloc 10, .free 1012, .free 1032, .free 1060, .malloc 4]

theorem ledger_doubleFree_small :
    ∃ t results, (ledger true).run (.start smallState) staleRun = .ok (t, results) ∧
      t.stale = [1060, 1032] ∧
      portFree false t.state 1032 = .error (.assertion .blockAllocated) ∧
      portFree true t.state 1032 = .ok t.state := by
  have adm : (ledger true).Admissible (.start smallState) staleRun := by decide +kernel
  obtain ⟨t, results, done, rejected⟩ := ledger_doubleFree smallState_blank adm
  have value : ((ledger true).run (.start smallState) staleRun).map
      (fun final => final.1.stale) = .ok [1060, 1032] := by
    decide +kernel
  rw [done] at value
  have stale : t.stale = [1060, 1032] := Except.ok.inj value
  exact ⟨t, results, done, stale, rejected 1032 (by rw [stale]; simp)⟩

end Components.Allocator
