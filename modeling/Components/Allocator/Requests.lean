import Components.Allocator.Runs

/-!
# What a request returns

`PortMalloc` computes in words: it guards against a set tag bit, an empty request and two
overflows, rounds, compares with `xFreeBytesRemaining`, and only then looks at the free
list. None of this shows in its results. A request is served exactly when it is in range
and some free block is large enough in exact arithmetic, it is served from the lowest such
block, and a request that is not served changes nothing.

## Main definitions

* `HandsOut` — a request is served from a block of the free list

## Main results

* `firstFit_isSome_iff` — when a request is served
* `Managed.malloc_served_iff` — the same for `PortMalloc`
* `session_malloc` — the whole specification, in every reachable state
-/

namespace Components.Allocator

variable {r : Region} {s : State} {t : Session} {free live l₁ l₂ : List Block} {b : Block}
  {ops : List Op} {ndebug : Bool} {n : ℕ}

/-! ### The block that serves a request -/

theorem firstFit_isSome_iff :
    (firstFit free n).isSome ↔ n ≠ 0 ∧ n < 2 ^ 31 ∧ ∃ b ∈ free, needed n ≤ b.size := by
  unfold firstFit
  split_ifs with range
  · rw [List.find?_isSome]
    simp only [ne_eq, range.1.ne', not_false_eq_true, range.2, decide_eq_true_eq, true_and]
  · simp only [Option.isSome_none, Bool.false_eq_true, false_iff, not_and]
    intro pos small
    exact absurd ⟨Nat.pos_of_ne_zero pos, small⟩ range

/-- The first block that fits is the lowest one. -/
theorem Layout.lowest (h : Layout r (l₁ ++ b :: l₂) live) {k : ℕ} (small : ∀ a ∈ l₁, a.size < k) :
    ∀ a ∈ l₁ ++ b :: l₂, k ≤ a.size → b.start ≤ a.start := by
  intro a ha fits
  rcases List.mem_append.mp ha with before | later
  · exact absurd fits (Nat.not_le.mpr (small a before))
  · rcases List.mem_cons.mp later with rfl | after
    · exact le_rfl
    · have tail := (List.pairwise_append.mp h.separated).2.1
      have gap := (List.pairwise_cons.mp tail).1 a after
      unfold Block.stop at gap
      omega

/-- A request for `n` bytes is served from the block `b` between `l₁` and `l₂`, which is
split if enough of it is left. -/
structure HandsOut (n : ℕ) (l₁ : List Block) (b : Block) (l₂ : List Block) (before after : Session)
    (p : ℕ) : Prop where
  list : freeBlocks (ensureInit before.state) = l₁ ++ b :: l₂
  fits : needed n ≤ b.size
  lowest : ∀ a ∈ freeBlocks (ensureInit before.state), needed n ≤ a.size → b.start ≤ a.start
  pointer : p = b.start + xHeapStructSize
  live : after.live =
    (if needed n + 2 * xHeapStructSize < b.size then ⟨b.start, needed n⟩ else b) :: before.live
  free : freeBlocks after.state = l₁ ++
    (if needed n + 2 * xHeapStructSize < b.size then [⟨b.start + needed n, b.size - needed n⟩]
      else []) ++ l₂

/-! ### `PortMalloc` -/

namespace Managed

/-- A request is served from the lowest block it fits in, or changes nothing. -/
theorem malloc_spec (h : Managed r t.state t.live) (n : UInt32) (ndebug : Bool) :
    ∃ t' p, t.step ndebug (.malloc n) = .ok (t', p) ∧
      ((firstFit (freeBlocks (ensureInit t.state)) n.toNat).isSome ∧ p ≠ 0 ∧
          (∃ l₁ b l₂, HandsOut n.toNat l₁ b l₂ t t' p) ∨
        ¬ (firstFit (freeBlocks (ensureInit t.state)) n.toNat).isSome ∧ p = 0 ∧
          t'.state = ensureInit t.state ∧ t'.live = t.live) := by
  obtain ⟨free, represents, cases⟩ := h.malloc_cases n ndebug
  have list := represents.freeBlocks_eq
  rw [list]
  rcases cases with ⟨none, refused⟩ | ⟨l₁, b, l₂, some, rfl, fits, served⟩
  · exact ⟨_, _, Session.step_eq refused, .inr ⟨by simp [none], rfl, rfl, rfl⟩⟩
  · obtain ⟨l, l', split, small, -⟩ := exists_split_of_firstFit some
    obtain ⟨blocks, after⟩ := represents.served fits
    refine ⟨_, _, Session.step_eq served, .inl ⟨by simp [some], by simp, l₁, b, l₂, ?_⟩⟩
    exact {
      list := list
      fits := fits
      lowest := by
        rw [list, split]
        rw [split] at represents
        exact represents.layout.lowest small
      pointer := by rw [xHeapStructSize_eq]
      live := blocks
      free := by
        rw [xHeapStructSize_eq]
        exact after.freeBlocks_eq }

theorem malloc_served_iff (h : Managed r t.state t.live) (n : UInt32) {t' : Session} {p : ℕ}
    (done : t.step ndebug (.malloc n) = .ok (t', p)) :
    p ≠ 0 ↔ (firstFit (freeBlocks (ensureInit t.state)) n.toNat).isSome := by
  obtain ⟨t'', p', done', ⟨some, ne, -⟩ | ⟨none, null, -⟩⟩ := h.malloc_spec n ndebug
  · cases done.symm.trans done'
    exact iff_of_true ne some
  · cases done.symm.trans done'
    exact iff_of_false (fun ne => ne null) none

end Managed

/-- In every reachable state, and for every request: it is served exactly when it is not
empty, its top bit is clear and some free block is large enough; then it is served from
the lowest such block; otherwise nothing changes but for the lazy initialisation. -/
theorem session_malloc (blank : Blank r s) (adm : (machine ndebug).Admissible (.start s) ops)
    (n : UInt32) :
    ∃ t results t' p, (machine ndebug).run (.start s) ops = .ok (t, results) ∧
      (machine ndebug).step t (.malloc n) = .ok (t', p) ∧
      (p ≠ 0 ↔ n.toNat ≠ 0 ∧ n.toNat < 2 ^ 31 ∧
        ∃ b ∈ freeBlocks (ensureInit t.state), needed n.toNat ≤ b.size) ∧
      (p ≠ 0 → ∃ l₁ b l₂, HandsOut n.toNat l₁ b l₂ t t' p) ∧
      (p = 0 → t'.state = ensureInit t.state ∧ t'.live = t.live) := by
  obtain ⟨t, results, done, sound⟩ := blank.sound.run adm
  obtain ⟨t', p, step, outcome⟩ := sound.managed.malloc_spec n ndebug
  have served := (sound.managed.malloc_served_iff n step).trans firstFit_isSome_iff
  refine ⟨t, results, t', p, done, step, served, ?_, ?_⟩
  · intro ne
    rcases outcome with ⟨-, -, handsOut⟩ | ⟨-, null, -⟩
    · exact handsOut
    · exact absurd null ne
  · intro null
    rcases outcome with ⟨-, ne, -⟩ | ⟨-, -, same⟩
    · exact absurd null ne
    · exact same

/-- After `busyRun` a request for 30 bytes finds a block of 68 and splits it. -/
theorem session_malloc_small :
    ∃ t results t' p, (machine false).run (.start smallState) busyRun = .ok (t, results) ∧
      (machine false).step t (.malloc 30) = .ok (t', p) ∧ p ≠ 0 ∧
      ∃ l₁ b l₂, HandsOut 30 l₁ b l₂ t t' p := by
  have adm : (machine false).Admissible (.start smallState) busyRun := by decide +kernel
  obtain ⟨t, results, t', p, done, step, served, handsOut, -⟩ :=
    session_malloc smallState_blank adm 30
  have list : ((machine false).run (.start smallState) busyRun).map
      (fun final => freeBlocks (ensureInit final.1.state)) = .ok [⟨1052, 68⟩] := by
    decide +kernel
  rw [done] at list
  have free : freeBlocks (ensureInit t.state) = [⟨1052, 68⟩] := Except.ok.inj list
  have ne : p ≠ 0 := by
    refine served.mpr ⟨by decide, by decide, ⟨1052, 68⟩, ?_, by decide⟩
    rw [free]
    exact List.mem_singleton_self _
  exact ⟨t, results, t', p, done, step, ne, handsOut ne⟩

end Components.Allocator
