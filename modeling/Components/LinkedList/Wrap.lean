import Components.LinkedList.Refinement

/-!
# Wrapping around a list

`list_next_wrap` and `list_prev_wrap` step over the list itself, so that the members alone
form a ring. It is the ring of the list with one node taken out, the list.

## Main definitions

* `WellFormed` — one list, whatever else memory holds
* `nextWrap`, `prevWrap` — the neighbours in the ring of the members
* `followNextWrap` — `list_next_wrap` again and again

## Main results

* `WellFormed.wrap` — the members form a ring of their own
* `wrap_cycle` — the functions walk it, in both directions
-/

namespace Components.LinkedList

variable {mem : Memory} {list item : ℕ} {members : List ℕ}

/-- The list and its members form a ring, and none of them is `NULL`. -/
structure WellFormed (mem : Memory) (list : ℕ) (members : List ℕ) : Prop where
  ring : LinkRing (fun y => (mem y).next) (fun y => (mem y).prev) (list :: members)
  ne_zero : ∀ y ∈ list :: members, y ≠ 0

/-- Every list of a memory that holds sequences. -/
theorem Represents.wellFormed {lists : Lists} (rep : Represents mem lists)
    (hl : list ∈ lists.heads) : WellFormed mem list (lists.members list) where
  ring := rep.ring list hl
  ne_zero := fun _ hy => rep.ne_zero hl hy

/-- The next member, with the list left out. -/
def nextWrap (mem : Memory) (list item : ℕ) : ℕ :=
  if (mem item).next ≠ list then (mem item).next else (mem list).next

/-- The previous member, with the list left out. -/
def prevWrap (mem : Memory) (list item : ℕ) : ℕ :=
  if (mem item).prev ≠ list then (mem item).prev else (mem list).prev

/-- Call `list_next_wrap` so many times, from one node to the next. The result is the nodes
it was called on and the node it returned last. -/
def followNextWrap (mem : Memory) (list : ℕ) : ℕ → ℕ → Except Fault (List ℕ × ℕ)
  | 0, item => .ok ([], item)
  | steps + 1, item => do
    let (visited, last) ← followNextWrap mem list steps (← listNextWrap mem list item)
    return (item :: visited, last)

namespace WellFormed

section Rings

variable (wf : WellFormed mem list members)
include wf

theorem list_notMem : list ∉ members := (List.nodup_cons.mp wf.ring.nodup).1

/-- A ring with the list taken out is the ring of the members. -/
theorem wrap : LinkRing (nextWrap mem list) (prevWrap mem list) members := by
  rcases List.eq_nil_or_concat members with rfl | ⟨c, p, rfl⟩
  · exact ⟨List.nodup_nil, List.isChain_nil, List.isChain_nil⟩
  rw [List.concat_eq_append] at wf ⊢
  have notMem := wf.list_notMem
  obtain ⟨next_p, prev_list⟩ := wf.ring.around (m := list :: c) rfl
  -- the last member comes first and the list behind it
  have turned := LinkRing.rotate (l := list :: c) (m := [p]) wf.ring
  have inside : ∀ y ∈ p :: c, y ∈ list :: (c ++ [p]) := by
    intro y hy
    simp only [List.mem_cons, List.mem_append] at hy ⊢
    tauto
  have last_notMem : p ∉ c := by
    have nodup := (List.nodup_cons.mp turned.nodup).1
    exact fun hp => nodup (List.mem_cons_of_mem _ hp)
  refine LinkRing.rotate (l := [p]) (m := c) (turned.remove_front ?_ ?_ ?_ ?_)
  · exact if_neg (not_not.mpr next_p)
  · intro y hy
    refine if_pos fun back => last_notMem ?_
    have same := wf.ring.prev_next (inside y (List.mem_cons_of_mem _ hy))
    rw [back, prev_list] at same
    exact same ▸ hy
  · have first := wf.ring.prev_next (x := list) List.mem_cons_self
    exact (if_neg (not_not.mpr first)).trans prev_list
  · intro y hy away
    refine if_pos fun back => away ?_
    have same := wf.ring.next_prev (inside y hy)
    rw [back] at same
    exact same.symm

/-- Members are neither `NULL` nor the list. -/
theorem member_ne (hx : item ∈ members) : item ≠ 0 ∧ item ≠ list := by
  refine ⟨wf.ne_zero item (List.mem_cons_of_mem _ hx), ?_⟩
  rintro rfl
  exact wf.list_notMem hx

end Rings

/-- Both functions, with the pointer they follow. -/
theorem wrap_eq (link : Node → ℕ) (wf : WellFormed mem list members) (hx : item ∈ members)
    (target : (if link (mem item) ≠ list then link (mem item) else link (mem list)) ∈ members) :
    (do
      if link (← mem.load item) ≠ list then return link (← mem.load item)
      else do
        if link (← mem.load (link (← mem.load item))) ≠ list then
          return link (← mem.load (link (← mem.load item)))
        else return 0 : Except Fault ℕ) =
      .ok (if link (mem item) ≠ list then link (mem item) else link (mem list)) := by
  have load : mem.load item = .ok (mem item) :=
    load_eq (wf.ne_zero item (List.mem_cons_of_mem _ hx))
  have load' : mem.load list = .ok (mem list) := load_eq (wf.ne_zero list List.mem_cons_self)
  by_cases back : link (mem item) = list
  -- the list has a member, so it is not its own neighbour
  · rw [if_neg (not_not.mpr back)] at target
    have other : link (mem list) ≠ list := fun same => wf.list_notMem (same ▸ target)
    simp [load, back, load', other, pure_eq_ok]
  · simp [load, back, pure_eq_ok]

theorem listNextWrap_eq (wf : WellFormed mem list members) (hx : item ∈ members) :
    listNextWrap mem list item = .ok (nextWrap mem list item) :=
  wf.wrap_eq Node.next hx (wf.wrap.next_mem hx)

theorem listPrevWrap_eq (wf : WellFormed mem list members) (hx : item ∈ members) :
    listPrevWrap mem list item = .ok (prevWrap mem list item) :=
  wf.wrap_eq Node.prev hx (wf.wrap.prev_mem hx)

/-- Walking along linked members. -/
theorem followNextWrap_eq (wf : WellFormed mem list members) {l : List ℕ} {p q : ℕ}
    (linked : Linked (nextWrap mem list) (l ++ [q])) (first : (l ++ [q]).head? = some p)
    (inside : ∀ x ∈ l, x ∈ members) : followNextWrap mem list l.length p = .ok (l, q) := by
  induction l generalizing p with
  | nil =>
    obtain rfl : q = p := by simpa using first
    rfl
  | cons r l ih =>
    obtain rfl : r = p := by simpa using first
    have rest := ih linked.tail linked.head?_tail fun x hx => inside x (List.mem_cons_of_mem _ hx)
    rw [List.length_cons, followNextWrap, wf.listNextWrap_eq (inside r List.mem_cons_self), ok_bind,
      rest]
    rfl

end WellFormed

/-- In every list, `list_next_wrap` and `list_prev_wrap` lead from each member to a member,
never to `NULL` or to the list, and undo each other. From any member, as many calls of
`list_next_wrap` as there are members visit the members in the order of the list, from there
to its end and on from its beginning, and return to where they started. -/
theorem wrap_cycle (wf : WellFormed mem list members) :
    (∀ item ∈ members, ∃ next ∈ members, ∃ prev ∈ members,
      listNextWrap mem list item = .ok next ∧ listPrevWrap mem list item = .ok prev ∧
      (next ≠ 0 ∧ next ≠ list) ∧ (prev ≠ 0 ∧ prev ≠ list) ∧
      listPrevWrap mem list next = .ok item ∧ listNextWrap mem list prev = .ok item) ∧
    ∀ before item after, members = before ++ item :: after →
      followNextWrap mem list members.length item = .ok (item :: after ++ before, item) := by
  constructor
  · intro item hx
    have next_mem := wf.wrap.next_mem hx
    have prev_mem := wf.wrap.prev_mem hx
    refine ⟨_, next_mem, _, prev_mem, wf.listNextWrap_eq hx, wf.listPrevWrap_eq hx,
      wf.member_ne next_mem, wf.member_ne prev_mem, ?_, ?_⟩
    · rw [wf.listPrevWrap_eq next_mem, wf.wrap.prev_next hx]
    · rw [wf.listNextWrap_eq prev_mem, wf.wrap.next_prev hx]
  · rintro before item after rfl
    -- the ring of the members, turned so that it starts at the item
    have turned := wf.wrap.forward.rotate
    have length : (before ++ item :: after).length = (item :: after ++ before).length := by
      rw [List.length_append, List.length_append, Nat.add_comm]
    rw [length]
    refine wf.followNextWrap_eq (Closed.cons_iff.mp turned) rfl fun x hx => ?_
    exact List.mem_append.mpr (List.mem_append.mp hx).symm

/-- A list at 1 with the members 2 and 3. -/
def twoMembers : Memory := fun p => if p = 1 then ⟨3, 2⟩ else if p = 2 then ⟨1, 3⟩ else ⟨2, 1⟩

theorem wrap_cycle_two : WellFormed twoMembers 1 [2, 3] ∧
    followNextWrap twoMembers 1 2 3 = .ok ([3, 2], 3) ∧
    ∃ next ∈ [2, 3], listNextWrap twoMembers 1 3 = .ok next ∧
      listPrevWrap twoMembers 1 next = .ok 3 := by
  have wf : WellFormed twoMembers 1 [2, 3] := by
    refine ⟨⟨by decide, ?_, ?_⟩, by decide⟩
    · exact Closed.cons_iff.mpr (by simp [Linked, twoMembers])
    · exact Closed.cons_iff.mpr (by simp [Linked, twoMembers])
  obtain ⟨neighbours, walk⟩ := wrap_cycle wf
  obtain ⟨next, hn, -, -, found, -, -, -, back, -⟩ := neighbours 3 (by decide)
  exact ⟨wf, walk [2] 3 [] rfl, next, hn, found, back⟩

end Components.LinkedList
