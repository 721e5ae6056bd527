import Components.Allocator.Runs

/-!
# The free list does not remember

The live blocks of an initialised heap determine its free list, because free blocks
are merged completely. Two heaps over the same array that hold the same live blocks
therefore answer every later sequence of calls alike, however they came about.

Before the first `PortMalloc` the heap is not initialised and there is no free list
to compare. Such a heap answers like an initialised one with nothing live, since the
first call initialises it.

## Main definitions

* `Alike` — two sessions over one array with the same live blocks
* `freeAll` — free some blocks, one after the other

## Main results

* `Alike.run` — alike sessions return the same results
* `run_freeAll` — freeing live blocks in any order leaves the others
* `session_history` — the free list, the free byte count and all later results depend
  on the live blocks only
-/

namespace Components.Allocator

variable {r r₁ r₂ : Region} {s₁ s₂ : State} {t t₁ t₂ : Session}
  {free₁ free₂ live₁ live₂ : List Block}
  {op : Op} {ops ops₁ ops₂ : List Op} {ndebug : Bool} {results₁ results₂ : List ℕ}

/-- Equal live blocks, equal free lists and free byte counts. -/
theorem Represents.freeBlocks_congr (array : r₁.SameArray r₂)
    (h₁ : Represents r₁ s₁ free₁ live₁) (h₂ : Represents r₂ s₂ free₂ live₂)
    (same : live₁.Perm live₂) :
    freeBlocks s₁ = freeBlocks s₂ ∧
      s₁.heap.xFreeBytesRemaining = s₂.heap.xFreeBytesRemaining := by
  have lists : free₁ = free₂ := (h₁.layout.congr array).free_eq_of_live_perm h₂.layout same
  refine ⟨?_, ?_⟩
  · rw [h₁.freeBlocks_eq, h₂.freeBlocks_eq, lists]
  · rw [h₁.freeBytes, h₂.freeBytes, lists]

/-! ### Later calls -/

/-- Two sessions over one array with the same live blocks. -/
structure Alike (r₁ r₂ : Region) (t₁ t₂ : Session) : Prop where
  array : r₁.SameArray r₂
  left : Managed r₁ t₁.state t₁.live
  right : Managed r₂ t₂.state t₂.live
  live : t₁.live.Perm t₂.live

namespace Alike

theorem allowed (h : Alike r₁ r₂ t₁ t₂) (allowed : op.Allowed t₁.live) : op.Allowed t₂.live := by
  cases op with
  | malloc n => trivial
  | free pv => simpa only [Op.Allowed, h.live.mem_iff] using allowed
  | reinit => trivial
  | write a v => simpa only [Op.Allowed, h.live.mem_iff] using allowed

/-- The same block serves a request in both sessions. -/
theorem step_malloc (h : Alike r₁ r₂ t₁ t₂) (n : UInt32) (ndebug : Bool) :
    ∃ t₁' t₂' result, t₁.step ndebug (.malloc n) = .ok (t₁', result) ∧
      t₂.step ndebug (.malloc n) = .ok (t₂', result) ∧ t₁'.live.Perm t₂'.live := by
  obtain ⟨free₁, represents₁, cases₁⟩ := h.left.malloc_cases n ndebug
  obtain ⟨free₂, represents₂, cases₂⟩ := h.right.malloc_cases n ndebug
  -- both calls see the same free list, so the first fit is the same block
  have lists : free₁ = free₂ :=
    (represents₁.layout.congr h.array).free_eq_of_live_perm represents₂.layout h.live
  subst lists
  rcases cases₁ with ⟨none₁, done₁⟩ | ⟨l₁, b₁, l₁', some₁, split₁, fits₁, done₁⟩
  · rcases cases₂ with ⟨none₂, done₂⟩ | ⟨l₂, b₂, l₂', some₂, split₂, fits₂, done₂⟩
    · exact ⟨_, _, _, Session.step_eq done₁, Session.step_eq done₂, h.live⟩
    · cases none₁.symm.trans some₂
  · rcases cases₂ with ⟨none₂, done₂⟩ | ⟨l₂, b₂, l₂', some₂, split₂, fits₂, done₂⟩
    · cases none₂.symm.trans some₁
    · cases some₁.symm.trans some₂
      refine ⟨_, _, _, Session.step_eq done₁, Session.step_eq done₂, ?_⟩
      rw [split₁] at represents₁
      rw [split₂] at represents₂
      dsimp only
      rw [(represents₁.served fits₁).1, (represents₂.served fits₂).1]
      exact h.live.cons _

/-- Alike sessions accept the same calls, which return the same results. -/
theorem step (h : Alike r₁ r₂ t₁ t₂) (allowed₁ : op.Allowed t₁.live) (ndebug : Bool) :
    ∃ t₁' t₂' result, t₁.step ndebug op = .ok (t₁', result) ∧
      t₂.step ndebug op = .ok (t₂', result) ∧ Alike r₁ r₂ t₁' t₂' := by
  have allowed₂ := h.allowed allowed₁
  obtain ⟨s₁, result₁, done₁, managed₁⟩ := h.left.exec allowed₁ ndebug
  obtain ⟨s₂, result₂, done₂, managed₂⟩ := h.right.exec allowed₂ ndebug
  -- all that is left is that the results and the live blocks agree
  suffices agree : result₁ = result₂ ∧
      (op.live s₁ result₁ t₁.live).Perm (op.live s₂ result₂ t₂.live) by
    obtain ⟨rfl, live⟩ := agree
    exact ⟨_, _, _, Session.step_eq done₁, Session.step_eq done₂, h.array, managed₁,
      managed₂, live⟩
  cases op with
  | malloc n =>
    obtain ⟨t₁', t₂', result, step₁, step₂, live⟩ := h.step_malloc n ndebug
    cases (Session.step_eq done₁).symm.trans step₁
    cases (Session.step_eq done₂).symm.trans step₂
    exact ⟨rfl, live⟩
  | free pv =>
    have null : ∀ {t : Session} {s : State} {result : ℕ},
        Op.exec ndebug t.state (.free pv) = .ok (s, result) → result = 0 := by
      intro t s result done
      cases freed : portFree ndebug t.state pv with
      | error e =>
        rw [Op.exec, freed] at done
        cases done
      | ok s' =>
        rw [Op.exec, freed] at done
        cases done
        rfl
    exact ⟨(null done₁).trans (null done₂).symm, h.live.filter _⟩
  | reinit =>
    have null₁ := (Prod.mk.inj (Except.ok.inj done₁)).2
    have null₂ := (Prod.mk.inj (Except.ok.inj done₂)).2
    exact ⟨null₁.symm.trans null₂, List.Perm.refl _⟩
  | write a v =>
    cases done₁
    cases done₂
    exact ⟨rfl, h.live⟩

/-- Alike sessions return the same results for ever. -/
theorem run (h : Alike r₁ r₂ t₁ t₂) (adm : (machine ndebug).Admissible t₁ ops) :
    (machine ndebug).Admissible t₂ ops ∧
      ∃ t₁' t₂' results, (machine ndebug).run t₁ ops = .ok (t₁', results) ∧
        (machine ndebug).run t₂ ops = .ok (t₂', results) ∧ Alike r₁ r₂ t₁' t₂' :=
  Machine.run_eq_of_bisimulation
    (fun _ _ _ alike allowed => ⟨alike.allowed allowed, alike.step allowed ndebug⟩) h adm

end Alike

/-! ### Freeing in any order -/

/-- Free the blocks in the order given. -/
def freeAll (blocks : List Block) : List Op := blocks.map fun b => .free (b.start + 8)

/-- Freeing some live blocks leaves the others, in whatever order it is done. -/
theorem run_freeAll {order rest : List Block}
    (h : ∃ free, Represents r t.state free t.live) (perm : t.live.Perm (order ++ rest))
    (ndebug : Bool) :
    ∃ t' results, (machine ndebug).run t (freeAll order) = .ok (t', results) ∧
      (∃ free, Represents r t'.state free t'.live) ∧ t'.live.Perm rest := by
  induction order generalizing t with
  | nil => exact ⟨t, [], rfl, h, perm⟩
  | cons b order ih =>
    obtain ⟨free, represents⟩ := h
    have hb : b ∈ t.live := perm.mem_iff.mpr List.mem_cons_self
    have allowed : (Op.free (b.start + 8)).Allowed t.live := .inr ⟨b, hb, rfl⟩
    rcases represents.managed.free_cases allowed ndebug with ⟨-, null⟩ |
      ⟨-, free', c, p, s', -, hc, same, done, after, split, -⟩
    · omega
    · have block : c = b := represents.layout.live_ext hc hb (by omega)
      subst block
      have others := split.symm.trans perm
      rw [List.cons_append] at others
      have step := Session.step_eq (t := t) done
      -- the session after the free, in which the other blocks of `order` are still live
      generalize next : Session.mk s' _ _ = u at step
      obtain ⟨t', results, runs, ends⟩ := ih (t := u) (next ▸ ⟨free', after⟩)
        (next ▸ others.cons_inv)
      exact ⟨t', _, Machine.run_cons step runs, ends⟩

/-- Freeing a block that was just handed out leaves what was live before. -/
theorem malloc_free {n : UInt32} {t' : Session} {p : ℕ} (h : Managed r t.state t.live)
    (served : t.step ndebug (.malloc n) = .ok (t', p)) (ne : p ≠ 0) :
    ∃ t'' result, t'.step ndebug (.free p) = .ok (t'', result) ∧
      (∃ free, Represents r t''.state free t''.live) ∧ t''.live.Perm t.live := by
  obtain ⟨free, represents, ⟨-, done⟩ | ⟨l₁, b, l₂, -, rfl, fits, done⟩⟩ := h.malloc_cases n ndebug
  · cases (Session.step_eq done).symm.trans served
    exact absurd rfl ne
  · obtain ⟨blocks, after⟩ := represents.served fits
    rw [← blocks] at after
    obtain ⟨session, pointer⟩ := Prod.mk.inj (Except.ok.inj (served.symm.trans
      (Session.step_eq done)))
    -- the free is `freeAll` for the one block, with the old live blocks as the rest
    have represents' : ∃ free, Represents r t'.state free t'.live := by
      rw [session]
      exact ⟨_, after⟩
    have perm : t'.live.Perm ([taken b (needed n.toNat)] ++ t.live) := by
      rw [session]
      exact List.Perm.of_eq blocks
    obtain ⟨t'', results, run, ends⟩ := run_freeAll represents' perm ndebug
    obtain ⟨u, result, rest, step, nothing, rfl⟩ := Machine.run_cons_inv run
    cases nothing
    dsimp only at step
    rw [taken_start, ← pointer] at step
    exact ⟨t'', result, step, ends⟩

/-! ### The result -/

/-- Two runs over one array that end with the same live blocks: once both heaps are
initialised they have the same free list and free byte count, and every later
sequence of calls returns the same results. In particular freeing everything in any
order restores the fresh free list, frees commute, and a free undoes the request
before it. -/
theorem session_history (array : r₁.SameArray r₂) (blank₁ : Blank r₁ s₁) (blank₂ : Blank r₂ s₂)
    (adm₁ : (machine ndebug).Admissible (.start s₁) ops₁)
    (adm₂ : (machine ndebug).Admissible (.start s₂) ops₂)
    (done₁ : (machine ndebug).run (.start s₁) ops₁ = .ok (t₁, results₁))
    (done₂ : (machine ndebug).run (.start s₂) ops₂ = .ok (t₂, results₂))
    (same : ∀ b, b ∈ t₁.live ↔ b ∈ t₂.live) :
    (t₁.state.heap.pxEnd ≠ 0 → t₂.state.heap.pxEnd ≠ 0 →
      freeBlocks t₁.state = freeBlocks t₂.state ∧
      t₁.state.heap.xFreeBytesRemaining = t₂.state.heap.xFreeBytesRemaining) ∧
    (∀ ops, (machine ndebug).Admissible t₁ ops → (machine ndebug).Admissible t₂ ops ∧
      ∃ t₁' t₂' results, (machine ndebug).run t₁ ops = .ok (t₁', results) ∧
        (machine ndebug).run t₂ ops = .ok (t₂', results)) ∧
    (t₁.state.heap.pxEnd ≠ 0 → ∀ order, order.Perm t₁.live →
      ∃ t results, (machine ndebug).run t₁ (freeAll order) = .ok (t, results) ∧
        freeBlocks t.state = freeBlocks (heapInit s₁)) ∧
    (∀ b ∈ t₁.live, ∀ c ∈ t₁.live, b ≠ c →
      ∃ t results t' results', (machine ndebug).run t₁ (freeAll [b, c]) = .ok (t, results) ∧
        (machine ndebug).run t₁ (freeAll [c, b]) = .ok (t', results') ∧
        freeBlocks t.state = freeBlocks t'.state ∧
        t.state.heap.xFreeBytesRemaining = t'.state.heap.xFreeBytesRemaining) ∧
    (t₁.state.heap.pxEnd ≠ 0 → ∀ n t p, (machine ndebug).step t₁ (.malloc n) = .ok (t, p) →
      p ≠ 0 → ∃ t' result, (machine ndebug).step t (.free p) = .ok (t', result) ∧
        freeBlocks t'.state = freeBlocks t₁.state) := by
  obtain ⟨_, _, run₁, sound₁⟩ := blank₁.sound.run adm₁
  cases run₁.symm.trans done₁
  obtain ⟨_, _, run₂, sound₂⟩ := blank₂.sound.run adm₂
  cases run₂.symm.trans done₂
  -- live lists have no duplicates, so equal as sets means equal up to order
  have perm : t₁.live.Perm t₂.live :=
    (List.perm_ext_iff_of_nodup sound₁.managed.nodup_live sound₂.managed.nodup_live).mpr same
  refine ⟨fun init₁ init₂ => ?_, fun ops adm => ?_, fun init₁ order all => ?_,
    fun b hb c hc ne => ?_, fun init₁ n t p served hp => ?_⟩
  · obtain ⟨free₁, represents₁⟩ := sound₁.managed.represents init₁
    obtain ⟨free₂, represents₂⟩ := sound₂.managed.represents init₂
    exact Represents.freeBlocks_congr array represents₁ represents₂ perm
  · have alike : Alike r₁ r₂ t₁ t₂ := ⟨array, sound₁.managed, sound₂.managed, perm⟩
    obtain ⟨adm', t₁', t₂', results, left, right, -⟩ := alike.run adm
    exact ⟨adm', t₁', t₂', results, left, right⟩
  · have all' : t₁.live.Perm (order ++ []) := by
      rw [List.append_nil]
      exact all.symm
    obtain ⟨t, results, run, ⟨free, represents⟩, rest⟩ :=
      run_freeAll (sound₁.managed.represents init₁) all' ndebug
    have fresh := heapInit_represents blank₁.toConfigured
    exact ⟨t, results, run, (Represents.freeBlocks_congr ⟨rfl, rfl⟩ represents fresh rest).1⟩
  · have init₁ := sound₁.managed.represents_of_mem hb
    -- free both blocks in either order, the rest is what remains
    have two : t₁.live.Perm ([b, c] ++ (t₁.live.erase b).erase c) :=
      (List.perm_cons_erase hb).trans
        ((List.perm_cons_erase ((List.mem_erase_of_ne ne.symm).mpr hc)).cons b)
    have swapped : t₁.live.Perm ([c, b] ++ (t₁.live.erase b).erase c) :=
      two.trans (List.Perm.swap c b _)
    obtain ⟨t, results, run, ⟨free, represents⟩, rest⟩ := run_freeAll init₁ two ndebug
    obtain ⟨t', results', run', ⟨free', represents'⟩, rest'⟩ := run_freeAll init₁ swapped ndebug
    exact ⟨t, results, t', results', run, run',
      Represents.freeBlocks_congr ⟨rfl, rfl⟩ represents represents' (rest.trans rest'.symm)⟩
  · obtain ⟨free₁, represents₁⟩ := sound₁.managed.represents init₁
    obtain ⟨t', result, step, ⟨free, represents⟩, rest⟩ := malloc_free sound₁.managed served hp
    exact ⟨t', result, step, (Represents.freeBlocks_congr ⟨rfl, rfl⟩ represents represents₁ rest).1⟩

/-- A shorter way to the live blocks of `smallRun`. -/
def smallRun' : List Op := [.malloc 40, .free 1012]

theorem smallRun'_admissible : (machine false).Admissible (.start smallState) smallRun' := by
  decide +kernel

/-- `smallRun` and `smallRun'` both end with nothing live, on initialised heaps. -/
theorem session_history_small : ∃ t₁ t₂ results₁ results₂,
    (machine false).run (.start smallState) smallRun = .ok (t₁, results₁) ∧
    (machine false).run (.start smallState) smallRun' = .ok (t₂, results₂) ∧
    freeBlocks t₁.state = freeBlocks t₂.state ∧
    t₁.state.heap.xFreeBytesRemaining = t₂.state.heap.xFreeBytesRemaining := by
  obtain ⟨t₁, results₁, done₁, -⟩ := smallState_blank.sound.run smallRun_admissible
  obtain ⟨t₂, results₂, done₂, -⟩ := smallState_blank.sound.run smallRun'_admissible
  have ends₁ : ((machine false).run (.start smallState) smallRun).map
      (fun final => (final.1.live, final.1.state.heap.pxEnd)) = .ok ([], 1120) := by
    decide +kernel
  have ends₂ : ((machine false).run (.start smallState) smallRun').map
      (fun final => (final.1.live, final.1.state.heap.pxEnd)) = .ok ([], 1120) := by
    decide +kernel
  rw [done₁] at ends₁
  rw [done₂] at ends₂
  obtain ⟨live₁, pxEnd₁⟩ := Prod.mk.inj (Except.ok.inj ends₁)
  obtain ⟨live₂, pxEnd₂⟩ := Prod.mk.inj (Except.ok.inj ends₂)
  have same : ∀ b, b ∈ t₁.live ↔ b ∈ t₂.live := fun b => by
    rw [show t₁.live = [] from live₁, show t₂.live = [] from live₂]
  have history := session_history ⟨rfl, rfl⟩ smallState_blank smallState_blank
    smallRun_admissible smallRun'_admissible done₁ done₂ same
  exact ⟨t₁, t₂, results₁, results₂, done₁, done₂,
    history.1 (by rw [pxEnd₁]; decide) (by rw [pxEnd₂]; decide)⟩

/-- Lazy initialisation shows: a refused request changes no live block, but a heap
that has seen one has a free list where an untouched heap has none. -/
theorem session_history_lazy : ∃ t,
    (machine false).run (.start smallState) [.malloc 0] = .ok (t, [0]) ∧
    (machine false).run (.start smallState) [] = .ok (.start smallState, []) ∧
    (∀ b, b ∈ t.live ↔ b ∈ (Session.start smallState).live) ∧
    freeBlocks t.state ≠ freeBlocks smallState ∧
    t.state.heap.xFreeBytesRemaining ≠ smallState.heap.xFreeBytesRemaining := by
  have done : (machine false).run (.start smallState) [.malloc 0] =
      .ok (⟨ensureInit smallState, [], [(ensureInit smallState).heap.xFreeBytesRemaining]⟩,
        [0]) := rfl
  have list : freeBlocks (ensureInit smallState) = [⟨1004, 116⟩] := by decide +kernel
  have none : freeBlocks smallState = [] := by decide +kernel
  have bytes : (ensureInit smallState).heap.xFreeBytesRemaining = 116 := by decide +kernel
  refine ⟨_, done, rfl, fun b => Iff.rfl, ?_, ?_⟩
  · dsimp only
    rw [list, none]
    exact List.cons_ne_nil _ _
  · dsimp only
    rw [bytes]
    decide

end Components.Allocator
