import Components.LinkedList.Wrap
import Mathlib.Algebra.Group.Int.Defs
import Mathlib.Algebra.Group.Nat.Defs

/-!
# Iterating over a list that changes

`list_for_every_safe` reads the successor of a node before the body sees the node. The body
may delete the node and add it to another list. The successor it read stays in the ring of
the list, whatever happens to the nodes before it.

`list_for_every_entry_safe` does the same with pointers to the structures that contain the
nodes. Both macros are one loop, which has a pointer `entry`, leads from it to its node with
`member` and from a node to its pointer with `wrap`.

## Main definitions

* `Action`, `Body` — what a body may do, and how it decides
* `listForEverySafe`, `listForEveryEntrySafe` — the two loops
* `Behaved` — the body adds to other lists only
* `IteratesSafely` — what the loops are for

## Main results

* `Represents.act` — one round
* `safeLoop_spec` — the rounds that are left
* `safe_iteration` — both macros
-/

namespace Components.LinkedList

/-! ### The loops -/

/-- What a body does with the node it is given: nothing, `list_delete`, or `list_delete`
and then `list_add_head` or `list_add_tail` at an anchor. -/
inductive Action
  | keep
  | delete
  | addHead (anchor : ℕ)
  | addTail (anchor : ℕ)
  deriving DecidableEq, Repr

/-- Do it. -/
def Action.perform (mem : Memory) (item : ℕ) : Action → Except Fault Memory
  | keep => return mem
  | delete => listDelete mem item
  | addHead anchor => do listAddHead (← listDelete mem item) anchor item
  | addTail anchor => do listAddTail (← listDelete mem item) anchor item

/-- A body decides by its own state, by memory and by the pointer it is given. -/
abbrev Body (σ : Type) := σ → Memory → ℕ → σ × Action

variable {σ : Type}

/-- The loop of both macros, for fewer than `bound` rounds. The result lists the pointers
that the body was given and what it did. -/
def safeLoop (wrap member : ℕ → ℕ) (list : ℕ) (body : Body σ) :
    ℕ → ℕ → ℕ → σ → Memory → Except Fault (List (ℕ × Action) × σ × Memory)
  | 0, _, _, _, _ => .error .endless
  | bound + 1, entry, temp, s, mem =>
    if member entry ≠ list then do
      let (s, action) := body s mem entry
      let mem ← action.perform mem (member entry)
      -- `entry = temp, temp = wrap(member(entry)->next)`
      let next := wrap (← mem.load (member temp)).next
      let (rounds, s, mem) ← safeLoop wrap member list body bound temp next s mem
      return ((entry, action) :: rounds, s, mem)
    else return ([], s, mem)

/-- Both macros. -/
def forEverySafe (wrap member : ℕ → ℕ) (bound : ℕ) (mem : Memory) (list : ℕ) (body : Body σ)
    (s : σ) : Except Fault (List (ℕ × Action) × σ × Memory) := do
  let entry := wrap (← mem.load list).next
  let temp := wrap (← mem.load (member entry)).next
  safeLoop wrap member list body bound entry temp s mem

/-- `list_for_every_safe`. -/
def listForEverySafe (bound : ℕ) (mem : Memory) (list : ℕ) (body : Body σ) (s : σ) :
    Except Fault (List (ℕ × Action) × σ × Memory) :=
  forEverySafe id id bound mem list body s

/-- `containerof`, in the arithmetic of `uintptr_t`. -/
def containerof (width offset ptr : ℕ) : ℕ := (((ptr : ℤ) - offset) % 2 ^ width).toNat

/-- `&(entry)->member`. -/
def memberOf (width offset entry : ℕ) : ℕ := (entry + offset) % 2 ^ width

/-- `list_for_every_entry_safe`, for a type with the node at this offset. -/
def listForEveryEntrySafe (width offset bound : ℕ) (mem : Memory) (list : ℕ) (body : Body σ)
    (s : σ) : Except Fault (List (ℕ × Action) × σ × Memory) :=
  forEverySafe (containerof width offset) (memberOf width offset) bound mem list body s

/-! ### What the loops are for -/

/-- The sequences after an action. -/
def Lists.act (lists : Lists) (item : ℕ) : Action → Lists
  | .keep => lists
  | .delete => (lists.step (.delete item)).1
  | .addHead anchor => ((lists.step (.delete item)).1.step (.addAfter anchor item)).1
  | .addTail anchor => ((lists.step (.delete item)).1.step (.addBefore anchor item)).1

/-- The sequences after one action for each of the nodes. -/
def Lists.actAll (lists : Lists) (nodes : List ℕ) (actions : List Action) : Lists :=
  (nodes.zip actions).foldl (fun lists round => lists.act round.1 round.2) lists

/-- A node is added at the head or at a member of another list. -/
def Action.Allowed (lists : Lists) (list : ℕ) : Action → Prop
  | keep | delete => True
  | addHead anchor | addTail anchor =>
    ∃ l ∈ lists.heads, l ≠ list ∧ anchor ∈ l :: lists.members l

/-- A node that is moved is appended to a list with `list_add_tail`. -/
def Action.Appends (heads : List ℕ) : Action → Prop
  | keep | delete => True
  | addHead _ => False
  | addTail anchor => anchor ∈ heads

/-- A node is added at the head of one of these lists. -/
def Action.AtHead (target : ℕ → Prop) : Action → Prop
  | keep | delete => True
  | addHead anchor | addTail anchor => target anchor

/-- In every round the action of the body is allowed. -/
def Behaved (wrap : ℕ → ℕ) (list : ℕ) (body : Body σ) :
    List ℕ → σ → Memory → Lists → Prop
  | [], _, _, _ => True
  | item :: rest, s, mem, lists =>
    let (s, action) := body s mem (wrap item)
    action.Allowed lists list ∧
      ∀ mem', action.perform mem item = .ok mem' →
        Behaved wrap list body rest s mem' (lists.act item action)

/-- The nodes with which the body did this, in order. -/
def nodesWith (action : Action) (nodes : List ℕ) (actions : List Action) : List ℕ :=
  ((nodes.zip actions).filter fun round => round.2 = action).map Prod.fst

/-- Memory holds the sequences that these actions lead to, from one in which the list has
some nodes and then the ones that are left to visit. The list consists of the nodes that were
kept. If nodes were moved with `list_add_tail` only, every other list has the nodes that were
moved there at its end, in the order of the visits. -/
structure Finished (lists : Lists) (list : ℕ) (kept rest : List ℕ) (actions : List Action)
    (mem : Memory) : Prop where
  length : actions.length = rest.length
  heads : (lists.actAll rest actions).heads = lists.heads
  represents : Represents mem (lists.actAll rest actions)
  own : (lists.actAll rest actions).members list = kept ++ nodesWith .keep rest actions
  others : (∀ action ∈ actions, action.Appends lists.heads) → ∀ l, l ≠ list →
    (lists.actAll rest actions).members l = lists.members l ++ nodesWith (.addTail l) rest actions

/-- The loop ends, and has visited the members of the list in order, each once. -/
def IteratesSafely (lists : Lists) (list : ℕ) (wrap : ℕ → ℕ)
    (result : Except Fault (List (ℕ × Action) × σ × Memory)) : Prop :=
  ∃ actions s mem, result = .ok (((lists.members list).map wrap).zip actions, s, mem) ∧
    Finished lists list [] (lists.members list) actions mem

variable {mem : Memory} {lists : Lists} {list item l anchor : ℕ} {action : Action}

/-! ### One round on the sequences -/

theorem Lists.act_heads (lists : Lists) (item : ℕ) (action : Action) :
    (lists.act item action).heads = lists.heads := by
  cases action with
  | keep | delete | addHead | addTail => rfl

theorem Lists.anchor_of_mem (hl : l ∈ lists.heads) (inRing : anchor ∈ l :: lists.members l) :
    lists.Anchor anchor := by
  rcases List.mem_cons.mp inRing with rfl | member
  · exact .inl hl
  · exact .inr ⟨l, hl, member⟩

theorem Action.AtHead.allowed {heads : List ℕ}
    (atHead : action.AtHead fun l => l ∈ heads ∧ l ≠ list) (same : lists.heads = heads) :
    action.Allowed lists list := by
  cases action with
  | keep | delete => trivial
  | addHead anchor | addTail anchor =>
    exact ⟨anchor, same ▸ atHead.1, atHead.2, List.mem_cons_self⟩

namespace Represents

/-- Lists that have no node in common are the sequences of a memory. -/
theorem of_wellFormed {heads : List ℕ} {members : ℕ → List ℕ}
    (wf : ∀ l ∈ heads, WellFormed mem l (members l))
    (disjoint : ∀ l ∈ heads, ∀ l' ∈ heads, l ≠ l' →
      (l :: members l).Disjoint (l' :: members l')) :
    Represents mem ⟨heads, heads.flatMap members, members⟩ where
  heads_ne := fun l hl => (wf l hl).ne_zero l List.mem_cons_self
  nodes_ne := by
    intro x hx
    obtain ⟨l, hl, member⟩ := List.mem_flatMap.mp hx
    exact (wf l hl).ne_zero x (List.mem_cons_of_mem _ member)
  apart := by
    intro l hl inNodes
    obtain ⟨l', hl', member⟩ := List.mem_flatMap.mp inNodes
    by_cases same : l = l'
    · exact (wf l' hl').list_notMem (same ▸ member)
    · exact disjoint l hl l' hl' same List.mem_cons_self (List.mem_cons_of_mem _ member)
  ring := fun l hl => (wf l hl).ring
  mem_nodes := fun l hl x hx => List.mem_flatMap.mpr ⟨l, hl, hx⟩
  unique := by
    intro l hl l' hl' x hx hx'
    by_contra ne
    exact disjoint l hl l' hl' ne (List.mem_cons_of_mem _ hx) (List.mem_cons_of_mem _ hx')
  cleared := by
    rintro x ⟨inNodes, notLinked⟩
    obtain ⟨l, hl, member⟩ := List.mem_flatMap.mp inNodes
    exact absurd ⟨l, hl, member⟩ notLinked

/-- The home of a node is the list in whose ring it is. -/
theorem home_eq (rep : Represents mem lists) (hh : list ∈ lists.heads)
    (inRing : item ∈ list :: lists.members list) : lists.home item = list := by
  obtain ⟨head, inside⟩ := lists.home_spec (Lists.anchor_of_mem hh inRing)
  by_contra ne
  exact rep.rings_apart hh head ne inside inRing

theorem step_delete (rep : Represents mem lists) (hh : list ∈ lists.heads)
    (hx : item ∈ lists.members list) :
    (lists.step (.delete item)).1 = lists.set list ((lists.members list).erase item) := by
  rw [Lists.step, rep.home_eq hh (List.mem_cons_of_mem _ hx)]

/-- A deleted node is in no list. -/
theorem loose_of_delete (rep : Represents mem lists) (hh : list ∈ lists.heads)
    (hx : item ∈ lists.members list) :
    (lists.set list ((lists.members list).erase item)).Loose item := by
  refine ⟨rep.mem_nodes list hh item hx, ?_⟩
  rintro ⟨l, hl, member⟩
  by_cases own : l = list
  · rw [own, Lists.set_members_self] at member
    have nodup := (List.nodup_cons.mp (rep.ring list hh).nodup).2
    exact nodup.not_mem_erase member
  · rw [lists.set_members_of_ne own] at member
    exact own (rep.unique l hl list hh item member hx)

/-- A node can be deleted, and then its list consists of the others. -/
theorem delete_step (rep : Represents mem lists) (hh : list ∈ lists.heads)
    (hx : item ∈ lists.members list) :
    ∃ mem', listDelete mem item = .ok mem' ∧ Represents mem' (lists.step (.delete item)).1 ∧
      (lists.step (.delete item)).1.Loose item ∧
      (lists.step (.delete item)).1.members list = (lists.members list).erase item ∧
      ∀ l, l ≠ list → (lists.step (.delete item)).1.members l = lists.members l := by
  obtain ⟨mem', deleted, rep'⟩ := rep.delete hh hx
  rw [rep.step_delete hh hx]
  exact ⟨mem', deleted, rep', rep.loose_of_delete hh hx, lists.set_members_self _ _,
    fun l ne => lists.set_members_of_ne ne _⟩

/-- One round: the action is possible. The list loses the node, unless it is kept, and the
other lists grow at most at their ends if nodes are only appended. -/
theorem act (rep : Represents mem lists) (hh : list ∈ lists.heads)
    (hx : item ∈ lists.members list) (allowed : action.Allowed lists list) :
    ∃ mem', action.perform mem item = .ok mem' ∧ Represents mem' (lists.act item action) ∧
      (lists.act item action).members list =
        (if action = .keep then lists.members list else (lists.members list).erase item) ∧
      (action.Appends lists.heads → ∀ l, l ≠ list → (lists.act item action).members l =
        lists.members l ++ if action = .addTail l then [item] else []) := by
  obtain ⟨mem₁, deleted, rep₁, loose, own, others⟩ := rep.delete_step hh hx
  cases action with
  | keep => exact ⟨mem, rfl, rep, rfl, fun _ l _ => by simp [Lists.act]⟩
  | delete =>
    refine ⟨mem₁, deleted, rep₁, own, fun _ l ne => ?_⟩
    rw [Lists.act, others l ne]
    simp
  | addHead anchor =>
    obtain ⟨l, hl, ne, inRing⟩ := allowed
    rw [← others l ne] at inRing
    have home := rep₁.home_eq hl inRing
    have allowed₁ : (lists.step (.delete item)).1.Allowed (.addAfter anchor item) :=
      ⟨Lists.anchor_of_mem hl inRing, loose⟩
    obtain ⟨mem', done, rep'⟩ := rep₁.exec allowed₁
    obtain ⟨mem'', added, done⟩ := bind_eq_ok done
    cases done
    refine ⟨mem', ?_, rep', ?_, fun appends => appends.elim⟩
    · rw [Action.perform, deleted, ok_bind, added]
    · rw [Lists.act, Lists.step, home, Lists.set_members_of_ne _ ne.symm, own]
      rfl
  | addTail anchor =>
    obtain ⟨l, hl, ne, inRing⟩ := allowed
    rw [← others l ne] at inRing
    have home := rep₁.home_eq hl inRing
    have allowed₁ : (lists.step (.delete item)).1.Allowed (.addBefore anchor item) :=
      ⟨Lists.anchor_of_mem hl inRing, loose⟩
    obtain ⟨mem', done, rep'⟩ := rep₁.exec allowed₁
    obtain ⟨mem'', added, done⟩ := bind_eq_ok done
    cases done
    refine ⟨mem', ?_, rep', ?_, ?_⟩
    · rw [Action.perform, deleted, ok_bind, added]
    · rw [Lists.act, Lists.step, home, Lists.set_members_of_ne _ ne.symm, own]
      rfl
    · -- an anchor that is a head is the head of its own list
      intro head l' ne'
      obtain rfl : l = anchor := home.symm.trans (rep₁.home_eq head List.mem_cons_self)
      rw [Lists.act, Lists.step, home]
      dsimp only
      rw [if_pos rfl]
      by_cases target : l' = l
      · rw [target, Lists.set_members_self, others l ne, if_pos rfl]
      · rw [Lists.set_members_of_ne _ target, others l' ne', if_neg, List.append_nil]
        rintro ⟨⟩
        exact target rfl

end Represents

/-! ### All rounds -/

theorem nodesWith_cons (action action' : Action) (node : ℕ) (nodes : List ℕ)
    (actions : List Action) : nodesWith action (node :: nodes) (action' :: actions) =
      (if action' = action then [node] else []) ++ nodesWith action nodes actions := by
  unfold nodesWith
  rw [List.zip_cons_cons, List.filter_cons]
  by_cases same : action' = action
  · simp [same]
  · simp [same]

/-- The node of this round, and then the others. -/
theorem Finished.cons {kept rest : List ℕ} {actions : List Action} {mem' : Memory}
    (rep : Represents mem lists) (hh : list ∈ lists.heads)
    (split : lists.members list = kept ++ item :: rest) (allowed : action.Allowed lists list)
    (done : Finished (lists.act item action) list (kept ++ if action = .keep then [item] else [])
      rest actions mem') :
    Finished lists list kept (item :: rest) (action :: actions) mem' := by
  have hx : item ∈ lists.members list := by simp [split]
  obtain ⟨-, -, -, -, appended⟩ := rep.act hh hx allowed
  refine ⟨by simp [done.length], ?_, done.represents, ?_, ?_⟩
  · exact done.heads.trans (lists.act_heads item action)
  · rw [nodesWith_cons, ← List.append_assoc]
    exact done.own
  · intro appends l ne
    rw [nodesWith_cons, ← List.append_assoc, ← appended (appends action List.mem_cons_self) l ne]
    refine done.others (fun action' mem => ?_) l ne
    rw [lists.act_heads]
    exact appends action' (List.mem_cons_of_mem _ mem)

/-- The rounds that are left, with the pointer of the next round read before. -/
theorem safeLoop_spec {wrap member : ℕ → ℕ} {body : Body σ} {kept rest : List ℕ} {s : σ}
    {bound : ℕ} (rep : Represents mem lists) (hh : list ∈ lists.heads)
    (split : lists.members list = kept ++ rest)
    (inverse : ∀ y ∈ list :: rest, member (wrap y) = y)
    (behaved : Behaved wrap list body rest s mem lists) (enough : rest.length < bound) :
    ∃ actions s' mem', safeLoop wrap member list body bound (wrap (rest.head?.getD list))
        (wrap (mem (rest.head?.getD list)).next) s mem =
          .ok ((rest.map wrap).zip actions, s', mem') ∧
      Finished lists list kept rest actions mem' := by
  induction rest generalizing kept s mem lists bound with
  | nil =>
    obtain ⟨bound, rfl⟩ := Nat.exists_eq_succ_of_ne_zero (Nat.ne_of_gt enough)
    refine ⟨[], s, mem, ?_, rfl, rfl, rep, split, ?_⟩
    · have back : member (wrap list) = list := inverse list List.mem_cons_self
      simp [safeLoop, back, pure_eq_ok]
    · intro _ l _
      exact (List.append_nil _).symm
  | cons item rest ih =>
    obtain ⟨bound, rfl⟩ := Nat.exists_eq_succ_of_ne_zero (Nat.ne_of_gt (Nat.zero_lt_of_lt enough))
    have hx : item ∈ lists.members list := by simp [split]
    obtain ⟨allowed, behaved⟩ := behaved
    obtain ⟨mem₁, performed, rep₁, own, -⟩ := rep.act hh hx allowed
    have hh₁ : list ∈ (lists.act item (body s mem (wrap item)).2).heads := by
      rwa [lists.act_heads]
    -- the node is gone from the list or stays before the ones that are left
    have split₁ : (lists.act item (body s mem (wrap item)).2).members list =
        (kept ++ if (body s mem (wrap item)).2 = .keep then [item] else []) ++ rest := by
      rw [own, split]
      split_ifs with keep
      · simp
      · have nodup := (List.nodup_cons.mp (rep.ring list hh).nodup).2
        rw [split] at nodup
        have notMem := (List.nodup_cons.mp (List.nodup_middle.mp nodup)).1
        rw [erase_split fun hk => notMem (List.mem_append_left _ hk), List.append_nil]
    have inverse₁ : ∀ y ∈ list :: rest, member (wrap y) = y := by
      intro y hy
      refine inverse y ?_
      rcases List.mem_cons.mp hy with rfl | hy
      · exact List.mem_cons_self
      · exact List.mem_cons_of_mem _ (List.mem_cons_of_mem _ hy)
    obtain ⟨actions, s', mem', rounds, done⟩ := ih rep₁ hh₁ split₁ inverse₁
      (behaved mem₁ performed) (by simpa using enough)
    refine ⟨(body s mem (wrap item)).2 :: actions, s', mem', ?_, done.cons rep hh split allowed⟩
    -- the pointer read before the round leads to a node of the ring as it is after the round
    have here : member (wrap item) = item := inverse item (by simp)
    have inRing : rest.head?.getD list ∈ list :: rest := by
      cases rest with
      | nil => simp
      | cons y rest => simp
    have inRing₁ : rest.head?.getD list ∈
        list :: (lists.act item (body s mem (wrap item)).2).members list := by
      rw [split₁]
      rcases List.mem_cons.mp inRing with same | member
      · rw [same]
        exact List.mem_cons_self
      · exact List.mem_cons_of_mem _ (List.mem_append_right _ member)
    have load : mem₁.load (rest.head?.getD list) = .ok (mem₁ (rest.head?.getD list)) :=
      load_eq (rep₁.ne_zero hh₁ inRing₁)
    rw [List.head?_cons, Option.getD_some, rep.next_member hh split, safeLoop, here,
      if_pos (rep.member_ne hh hx).1]
    dsimp only
    rw [performed, ok_bind, inverse₁ _ inRing, load, ok_bind, rounds]
    rfl

/-- Both macros end within every bound above the length of the list, and do what they are
for. The list may have any length, and the body may decide by anything it sees. -/
theorem forEverySafe_spec {wrap member : ℕ → ℕ} {body : Body σ} {s : σ} {bound : ℕ}
    (rep : Represents mem lists) (hh : list ∈ lists.heads)
    (inverse : ∀ y ∈ list :: lists.members list, member (wrap y) = y)
    (behaved : Behaved wrap list body (lists.members list) s mem lists)
    (enough : (lists.members list).length < bound) :
    IteratesSafely lists list wrap (forEverySafe wrap member bound mem list body s) := by
  have start : lists.members list = [] ++ lists.members list := rfl
  obtain ⟨actions, s', mem', rounds, done⟩ := safeLoop_spec rep hh start inverse behaved enough
  have inRing : (lists.members list).head?.getD list ∈ list :: lists.members list := by
    rw [← rep.next_head hh]
    exact (rep.ring list hh).next_mem List.mem_cons_self
  refine ⟨actions, s', mem', ?_, done⟩
  rw [forEverySafe, load_eq (rep.heads_ne list hh), ok_bind]
  dsimp only
  rw [rep.next_head hh, inverse _ inRing, load_eq (rep.ne_zero hh inRing), ok_bind, rounds]

/-- The node in the structure that contains a node is the node. -/
theorem memberOf_containerof (width offset : ℕ) {ptr : ℕ} (fits : ptr < 2 ^ width) :
    memberOf width offset (containerof width offset ptr) = ptr := by
  have pos : (0 : ℤ) < 2 ^ width := Int.pow_pos (by decide)
  have least := Int.emod_nonneg ((ptr : ℤ) - offset) (Int.ne_of_gt pos)
  have turned : (((ptr : ℤ) - offset) % 2 ^ width + offset) % 2 ^ width = ptr := by
    rw [Int.emod_add_emod, Int.sub_add_cancel]
    exact Int.emod_eq_of_lt (Int.natCast_nonneg ptr) (by exact_mod_cast fits)
  have cast : ((memberOf width offset (containerof width offset ptr) : ℕ) : ℤ) = ptr := by
    rw [memberOf, containerof]
    push_cast
    rw [Int.toNat_of_nonneg least, turned]
  exact_mod_cast cast

/-- A body behaves if it only ever adds to lists other than this one, at their heads. -/
theorem Behaved.of_heads {heads : List ℕ} {wrap : ℕ → ℕ} {body : Body σ}
    (targets : ∀ s mem entry, (body s mem entry).2.AtHead fun l => l ∈ heads ∧ l ≠ list)
    (rest : List ℕ) (s : σ) (mem : Memory) {lists : Lists} (same : lists.heads = heads) :
    Behaved wrap list body rest s mem lists := by
  induction rest generalizing s mem lists with
  | nil => trivial
  | cons item rest ih =>
    refine ⟨(targets s mem (wrap item)).allowed same, fun mem' _ => ih _ mem' ?_⟩
    rw [lists.act_heads, same]

/-- In any memory that holds sequences, both macros end within every bound above the length
of the list, with any body that keeps, deletes or moves the nodes it is given, and do what
they are for. Pointers have `width` bits. -/
theorem safe_iteration (rep : Represents mem lists) (hh : list ∈ lists.heads) {bound : ℕ}
    (enough : (lists.members list).length < bound) (body : Body σ) (s : σ) :
    (Behaved id list body (lists.members list) s mem lists →
      IteratesSafely lists list id (listForEverySafe bound mem list body s)) ∧
    ∀ width offset, (∀ y ∈ list :: lists.members list, y < 2 ^ width) →
      Behaved (containerof width offset) list body (lists.members list) s mem lists →
      IteratesSafely lists list (containerof width offset)
        (listForEveryEntrySafe width offset bound mem list body s) := by
  constructor
  · intro behaved
    exact forEverySafe_spec rep hh (fun _ _ => rfl) behaved enough
  · intro width offset fits behaved
    exact forEverySafe_spec rep hh (fun y hy => memberOf_containerof width offset (fits y hy))
      behaved enough

/-- Lists at 1 and 2, with the members 3, 4, 5 and 6. -/
def sortedLists : Lists := ⟨[1, 2], [3, 4, 5, 6], fun l => if l = 1 then [3, 4, 5] else [6]⟩

/-- The pointers of these lists. -/
def sortedMemory : Memory
  | 1 => ⟨5, 3⟩
  | 3 => ⟨1, 4⟩
  | 4 => ⟨3, 5⟩
  | 5 => ⟨4, 1⟩
  | 2 => ⟨6, 6⟩
  | _ => ⟨2, 2⟩

/-- Keep 3, delete 4, and append the others to the list at 2. -/
def sorting : Body Unit := fun _ _ node =>
  ((), if node = 3 then .keep else if node = 4 then .delete else .addTail 2)

theorem safe_iteration_sorting :
    (listForEverySafe 4 sortedMemory 1 sorting ()).map Prod.fst =
      .ok [(3, .keep), (4, .delete), (5, .addTail 2)] ∧
    IteratesSafely sortedLists 1 id (listForEverySafe 4 sortedMemory 1 sorting ()) ∧
    IteratesSafely sortedLists 1 (containerof 32 8)
      (listForEveryEntrySafe 32 8 4 sortedMemory 1
        (fun s mem entry => sorting s mem (memberOf 32 8 entry)) ()) := by
  have wf : ∀ l ∈ [1, 2], WellFormed sortedMemory l (sortedLists.members l) := by
    intro l hl
    rcases List.mem_pair.mp hl with rfl | rfl
    · exact ⟨⟨by decide, by simp [Closed, Linked, sortedLists, sortedMemory],
        by simp [Closed, Linked, sortedLists, sortedMemory]⟩, by decide⟩
    · exact ⟨⟨by decide, by simp [Closed, Linked, sortedLists, sortedMemory],
        by simp [Closed, Linked, sortedLists, sortedMemory]⟩, by decide⟩
  have disjoint : ∀ l ∈ [1, 2], ∀ l' ∈ [1, 2], l ≠ l' →
      (l :: sortedLists.members l).Disjoint (l' :: sortedLists.members l') := by
    intro l hl l' hl' ne
    rcases List.mem_pair.mp hl with rfl | rfl
    · obtain rfl := (List.mem_pair.mp hl').resolve_left ne.symm
      simp [sortedLists]
    · obtain rfl := (List.mem_pair.mp hl').resolve_right ne.symm
      simp [sortedLists]
  have rep : Represents sortedMemory sortedLists := Represents.of_wellFormed wf disjoint
  have targets : ∀ s mem node, (sorting s mem node).2.AtHead fun l => l ∈ [1, 2] ∧ l ≠ 1 := by
    intro s mem node
    unfold sorting
    dsimp only
    split_ifs with first second
    · trivial
    · trivial
    · exact ⟨by decide, by decide⟩
  refine ⟨rfl, ?_, ?_⟩
  · exact (safe_iteration rep (by decide) (by decide) sorting ()).1 (.of_heads targets _ _ _ rfl)
  · exact (safe_iteration rep (by decide) (by decide) _ ()).2 32 8 (by decide)
      (.of_heads (fun s mem entry => targets s mem _) _ _ _ rfl)

end Components.LinkedList
