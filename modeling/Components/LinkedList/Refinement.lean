import Components.LinkedList.Sequences

/-!
# The list functions refine sequences

Every allowed call completes, does to its list what its name says and leaves the other
lists alone. In every memory that a run reaches, reading a list forwards, backwards or
through any of the observers gives the sequence that the run built.

## Main definitions

* `Views` — what the functions that only read say of the sequences

## Main results

* `Represents.exec` — one call
* `list_refines_sequences` — whole runs
-/

namespace Components.LinkedList

/-! ### Sequences around an anchor -/

section Splits

variable {a x h : ℕ} {m₁ m₂ : List ℕ}

theorem insertAfter_split (notMem : a ∉ m₁) :
    insertAfter a x (m₁ ++ a :: m₂) = m₁ ++ a :: x :: m₂ := by
  induction m₁ with
  | nil => simp [insertAfter]
  | cons y m ih =>
    rw [List.mem_cons, not_or] at notMem
    simp [insertAfter, Ne.symm notMem.1, ih notMem.2]

theorem insertBefore_split (notMem : a ∉ m₁) :
    insertBefore a x (m₁ ++ a :: m₂) = m₁ ++ x :: a :: m₂ := by
  induction m₁ with
  | nil => simp [insertBefore]
  | cons y m ih =>
    rw [List.mem_cons, not_or] at notMem
    simp [insertBefore, Ne.symm notMem.1, ih notMem.2]

theorem erase_split (notMem : x ∉ m₁) : (m₁ ++ x :: m₂).erase x = m₁ ++ m₂ := by
  rw [List.erase_append_right _ notMem, List.erase_cons_head]

/-- A sequence behind its head has a last node. -/
theorem exists_last (h : ℕ) (l : List ℕ) : ∃ c p, h :: l = c ++ [p] :=
  ⟨(h :: l).dropLast, (h :: l).getLast (List.cons_ne_nil h l),
    (List.dropLast_append_getLast _).symm⟩

/-- A member of a sequence, between the node before it and the rest. -/
theorem exists_around {l : List ℕ} (hx : x ∈ l) :
    ∃ m₁ m₂ c p, l = m₁ ++ x :: m₂ ∧ x ∉ m₁ ∧ h :: m₁ = c ++ [p] ∧ h :: l = c ++ p :: x :: m₂ := by
  obtain ⟨m₁, m₂, rfl, first⟩ := List.eq_append_cons_of_mem hx
  obtain ⟨c, p, last⟩ := exists_last h m₁
  refine ⟨m₁, m₂, c, p, rfl, first, last, ?_⟩
  rw [← List.cons_append, last]
  simp

theorem getLast?_getD_of_last {c l : List ℕ} {p : ℕ} (last : h :: l = c ++ [p]) :
    l.getLast?.getD h = p := by
  have ends := congrArg List.getLast? last
  rw [List.getLast?_cons, List.getLast?_concat] at ends
  exact Option.some.inj ends

end Splits

/-- The home of an anchor is a head, and the anchor is in its ring. -/
theorem Lists.home_spec {lists : Lists} {a : ℕ} (anchor : lists.Anchor a) :
    lists.home a ∈ lists.heads ∧ a ∈ lists.home a :: lists.members (lists.home a) := by
  have found : (lists.heads.find? fun l => a ∈ l :: lists.members l).isSome := by
    rw [List.find?_isSome]
    rcases anchor with head | ⟨l, hl, member⟩
    · exact ⟨a, head, by simp⟩
    · exact ⟨l, hl, by simp [member]⟩
  obtain ⟨l, eq⟩ := Option.isSome_iff_exists.mp found
  have home : lists.home a = l := by rw [Lists.home, eq, Option.getD_some]
  rw [home]
  exact ⟨List.mem_of_find?_eq_some eq, by simpa using List.find?_some eq⟩

namespace Represents

variable {mem : Memory} {lists : Lists} {h p q x : ℕ} {a b : List ℕ}

/-! ### Calls -/

theorem listAddHead_ok (rep : Represents mem lists) (hh : h ∈ lists.heads)
    (hp : p ∈ h :: lists.members h) (loose : lists.Loose x) :
    listAddHead mem p x = .ok (linkBehind mem p x) := by
  have fresh := rep.loose_notMem hh loose
  exact listAddHead_eq (rep.ne_zero hh hp) (rep.nodes_ne x loose.1)
    (rep.ne_zero hh ((rep.ring h hh).next_mem hp)) (fun same => fresh (same ▸ hp))

theorem listAddTail_ok (rep : Represents mem lists) (hh : h ∈ lists.heads)
    (hq : q ∈ h :: lists.members h) (loose : lists.Loose x) :
    listAddTail mem q x = .ok (linkBehind mem (mem q).prev x) := by
  have fresh := rep.loose_notMem hh loose
  exact listAddTail_eq (rep.ne_zero hh hq) (rep.nodes_ne x loose.1)
    (rep.ne_zero hh ((rep.ring h hh).prev_mem hq)) ((rep.ring h hh).next_prev hq)
    (fun same => fresh (same ▸ hq))

theorem listDelete_ok (rep : Represents mem lists) (hh : h ∈ lists.heads)
    (split : h :: lists.members h = a ++ p :: x :: b) :
    listDelete mem x = .ok (LinkedList.unlink mem x) := by
  have ring := rep.ring h hh
  have hx : x ∈ h :: lists.members h := by simp [split]
  refine listDelete_eq (rep.ne_zero hh hx) (rep.ne_zero hh (ring.prev_mem hx))
    (rep.ne_zero hh (ring.next_mem hx)) ?_
  rw [split] at ring
  exact ring.next_ne

/-- `list_initialize` at a new address makes an empty ring. -/
theorem init (rep : Represents mem lists) (ne : h ≠ 0) (newHead : h ∉ lists.heads)
    (newNode : h ∉ lists.nodes) :
    Represents (Function.update mem h ⟨h, h⟩)
      ({ lists with heads := h :: lists.heads }.set h []) := by
  have other : ∀ l ∈ lists.heads, l ≠ h := by
    rintro l hl rfl
    exact newHead hl
  have members : ∀ l ∈ lists.heads,
      ({ lists with heads := h :: lists.heads }.set h []).members l = lists.members l :=
    fun l hl => Lists.set_members_of_ne _ (other l hl) []
  refine ⟨?_, rep.nodes_ne, ?_, ?_, ?_, ?_, ?_⟩
  · intro l hl
    rcases List.mem_cons.mp hl with rfl | hl
    · exact ne
    · exact rep.heads_ne l hl
  · intro l hl
    rcases List.mem_cons.mp hl with rfl | hl
    · exact newNode
    · exact rep.apart l hl
  · intro l hl
    rcases List.mem_cons.mp hl with rfl | old
    · rw [Lists.set_members_self]
      exact LinkRing.singleton (by simp) (by simp)
    · rw [members l old]
      -- heads and nodes are at separate addresses, so the write hits no other ring
      have away : ∀ y ∈ l :: lists.members l, y ≠ h := by
        intro y hy same
        rcases List.mem_cons.mp hy with here | member
        · exact other l old (here.symm.trans same)
        · exact newNode (same ▸ rep.mem_nodes l old y member)
      exact (rep.ring l old).congr (fun y hy => by rw [Function.update_of_ne (away y hy)])
        (fun y hy => by rw [Function.update_of_ne (away y hy)])
  · intro l hl y hy
    rcases List.mem_cons.mp hl with rfl | hl
    · simp at hy
    · exact rep.mem_nodes l hl y (members l hl ▸ hy)
  · intro l hl l' hl' y hy hy'
    rcases List.mem_cons.mp hl with rfl | hl
    · simp at hy
    · rcases List.mem_cons.mp hl' with rfl | hl'
      · simp at hy'
      · exact rep.unique l hl l' hl' y (members l hl ▸ hy) (members l' hl' ▸ hy')
  · rintro y ⟨setUp, notLinked⟩
    have away : y ≠ h := by
      rintro rfl
      exact newNode setUp
    rw [Function.update_of_ne away]
    refine rep.cleared y ⟨setUp, ?_⟩
    rintro ⟨l, hl, member⟩
    exact notLinked ⟨l, List.mem_cons_of_mem _ hl, (members l hl).symm ▸ member⟩

/-- `list_clear_node` at an address that is neither a head nor linked. -/
theorem clear (rep : Represents mem lists) (ne : x ≠ 0) (notHead : x ∉ lists.heads)
    (notLinked : ¬ lists.Linked x) :
    Represents (Function.update mem x ⟨0, 0⟩) { lists with nodes := x :: lists.nodes } where
  heads_ne := rep.heads_ne
  nodes_ne := by
    intro y hy
    rcases List.mem_cons.mp hy with rfl | hy
    · exact ne
    · exact rep.nodes_ne y hy
  apart := by
    intro l hl mem
    rcases List.mem_cons.mp mem with rfl | mem
    · exact notHead hl
    · exact rep.apart l hl mem
  ring := by
    intro l hl
    have away : ∀ y ∈ l :: lists.members l, y ≠ x := by
      rintro y hy rfl
      rcases List.mem_cons.mp hy with rfl | member
      · exact notHead hl
      · exact notLinked ⟨l, hl, member⟩
    exact (rep.ring l hl).congr (fun y hy => by rw [Function.update_of_ne (away y hy)])
      (fun y hy => by rw [Function.update_of_ne (away y hy)])
  mem_nodes := fun l hl y hy => List.mem_cons_of_mem _ (rep.mem_nodes l hl y hy)
  unique := rep.unique
  cleared := by
    rintro y ⟨setUp, loose⟩
    by_cases same : y = x
    · rw [same, Function.update_self]
    · rw [Function.update_of_ne same]
      exact rep.cleared y ⟨(List.mem_cons.mp setUp).resolve_left same, loose⟩

/-- `list_add_tail` at a head. -/
theorem addTail (rep : Represents mem lists) (hh : h ∈ lists.heads) (loose : lists.Loose x) :
    ∃ mem', listAddTail mem h x = .ok mem' ∧
      Represents mem' (lists.set h (lists.members h ++ [x])) := by
  obtain ⟨c, p, last⟩ := exists_last h (lists.members h)
  have prev_h : (mem h).prev = p := ((rep.ring h hh).around last).2
  refine ⟨_, rep.listAddTail_ok hh List.mem_cons_self loose, ?_⟩
  rw [prev_h]
  exact rep.link (b := []) hh loose last (by simp [← List.cons_append, last])

/-- `list_add_head` at a member. -/
theorem addAfter (rep : Represents mem lists) (hh : h ∈ lists.heads) (hq : q ∈ lists.members h)
    (loose : lists.Loose x) :
    ∃ mem', listAddHead mem q x = .ok mem' ∧
      Represents mem' (lists.set h (insertAfter q x (lists.members h))) := by
  obtain ⟨m₁, m₂, split, first⟩ := List.eq_append_cons_of_mem hq
  refine ⟨_, rep.listAddHead_ok hh (List.mem_cons_of_mem _ hq) loose, ?_⟩
  refine rep.link (a := h :: m₁) (b := m₂) hh loose (by simp [split]) ?_
  rw [split, insertAfter_split first]
  rfl

/-- `list_add_tail` at a member. -/
theorem addBefore (rep : Represents mem lists) (hh : h ∈ lists.heads) (hq : q ∈ lists.members h)
    (loose : lists.Loose x) :
    ∃ mem', listAddTail mem q x = .ok mem' ∧
      Represents mem' (lists.set h (insertBefore q x (lists.members h))) := by
  obtain ⟨m₁, m₂, c, p, split, first, last, around⟩ := exists_around (h := h) hq
  -- the item goes behind the node before the anchor, which may be the head
  have ring := rep.ring h hh
  rw [around] at ring
  have prev_q : (mem q).prev = p := ring.adjacent.2
  refine ⟨_, rep.listAddTail_ok hh (List.mem_cons_of_mem _ hq) loose, ?_⟩
  rw [prev_q]
  refine rep.link hh loose around ?_
  rw [split, insertBefore_split first, ← List.cons_append, last]
  simp

/-- `list_delete` of a member. -/
theorem delete (rep : Represents mem lists) (hh : h ∈ lists.heads) (hx : x ∈ lists.members h) :
    ∃ mem', listDelete mem x = .ok mem' ∧
      Represents mem' (lists.set h ((lists.members h).erase x)) := by
  obtain ⟨m₁, m₂, c, p, split, first, last, around⟩ := exists_around (h := h) hx
  refine ⟨_, rep.listDelete_ok hh around, rep.unlink hh around ?_⟩
  rw [split, erase_split first, ← List.cons_append, last]
  simp

/-- `list_remove_head` takes out the first member, if there is one. -/
theorem removeHead (rep : Represents mem lists) (hh : h ∈ lists.heads) :
    ∃ mem', listRemoveHead mem h = .ok (mem', (lists.members h).head?.getD 0) ∧
      Represents mem' (lists.set h (lists.members h).tail) := by
  have ring := rep.ring h hh
  have load : mem.load h = .ok (mem h) := load_eq (rep.heads_ne h hh)
  cases seq : lists.members h with
  | nil =>
    rw [seq] at ring
    have next_h : (mem h).next = h := ring.next_singleton
    refine ⟨mem, by simp [listRemoveHead, load, next_h, pure_eq_ok], ?_⟩
    rw [List.tail_nil, ← seq, lists.set_self]
    exact rep
  | cons x m =>
    rw [seq] at ring
    have next_h : (mem h).next = x := ring.next_second
    have ne : x ≠ h := fun same => (List.nodup_cons.mp ring.nodup).1 (by simp [same])
    have split : h :: lists.members h = [] ++ h :: x :: m := by simp [seq]
    have deleted := rep.listDelete_ok hh split
    exact ⟨_, by simp [listRemoveHead, load, next_h, ne, deleted], rep.unlink hh split rfl⟩

/-- `list_remove_tail` takes out the last member, if there is one. -/
theorem removeTail (rep : Represents mem lists) (hh : h ∈ lists.heads) :
    ∃ mem', listRemoveTail mem h = .ok (mem', (lists.members h).getLast?.getD 0) ∧
      Represents mem' (lists.set h (lists.members h).dropLast) := by
  have ring := rep.ring h hh
  have load : mem.load h = .ok (mem h) := load_eq (rep.heads_ne h hh)
  rcases List.eq_nil_or_concat (lists.members h) with seq | ⟨m, x, seq⟩
  · rw [seq] at ring
    have prev_h : (mem h).prev = h := ring.prev_singleton
    refine ⟨mem, by simp [listRemoveTail, load, prev_h, seq, pure_eq_ok], ?_⟩
    rw [seq, List.dropLast_nil, ← seq, lists.set_self]
    exact rep
  · obtain ⟨c, p, last⟩ := exists_last h m
    have prev_h : (mem h).prev = x := (ring.around (m := h :: m) (by simp [seq])).2
    rw [seq] at ring
    have ne : x ≠ h := fun same => (List.nodup_cons.mp ring.nodup).1 (by simp [same])
    have split : h :: lists.members h = c ++ p :: x :: [] := by
      rw [seq, List.concat_eq_append, ← List.cons_append, last]
      simp
    have deleted := rep.listDelete_ok hh split
    refine ⟨_, by simp [listRemoveTail, load, prev_h, ne, deleted, seq], rep.unlink hh split ?_⟩
    simp [seq, last]

/-- Every allowed call acts on memory as it does on the sequences. -/
theorem exec (rep : Represents mem lists) {op : Op} (allowed : lists.Allowed op) :
    ∃ mem', LinkedList.exec mem op = .ok (mem', (lists.step op).2) ∧
      Represents mem' (lists.step op).1 := by
  cases op with
  | init l =>
    obtain ⟨ne, newHead, newNode⟩ := allowed
    exact ⟨_, by simp [LinkedList.exec, listInitialize_eq ne, Lists.step],
      rep.init ne newHead newNode⟩
  | clearNode x =>
    obtain ⟨ne, notHead, notLinked⟩ := allowed
    exact ⟨_, by simp [LinkedList.exec, listClearNode_eq ne, Lists.step],
      rep.clear ne notHead notLinked⟩
  | addHead l x =>
    obtain ⟨head, loose⟩ := allowed
    exact ⟨_,
      by simp [LinkedList.exec, rep.listAddHead_ok head List.mem_cons_self loose, Lists.step],
      rep.link (a := []) head loose rfl rfl⟩
  | addTail l x =>
    obtain ⟨head, loose⟩ := allowed
    obtain ⟨mem', added, rep'⟩ := rep.addTail head loose
    exact ⟨mem', by simp [LinkedList.exec, added, Lists.step], rep'⟩
  | addAfter a x =>
    obtain ⟨anchor, loose⟩ := allowed
    obtain ⟨head, inRing⟩ := lists.home_spec anchor
    simp only [Lists.step]
    split_ifs with same
    · rw [← same] at head ⊢
      exact ⟨_, by simp [LinkedList.exec, rep.listAddHead_ok head List.mem_cons_self loose],
        rep.link (a := []) head loose rfl rfl⟩
    · obtain ⟨mem', added, rep'⟩ :=
        rep.addAfter head ((List.mem_cons.mp inRing).resolve_left same) loose
      exact ⟨mem', by simp [LinkedList.exec, added], rep'⟩
  | addBefore a x =>
    obtain ⟨anchor, loose⟩ := allowed
    obtain ⟨head, inRing⟩ := lists.home_spec anchor
    simp only [Lists.step]
    split_ifs with same
    · rw [← same] at head ⊢
      obtain ⟨mem', added, rep'⟩ := rep.addTail head loose
      exact ⟨mem', by simp [LinkedList.exec, added], rep'⟩
    · obtain ⟨mem', added, rep'⟩ :=
        rep.addBefore head ((List.mem_cons.mp inRing).resolve_left same) loose
      exact ⟨mem', by simp [LinkedList.exec, added], rep'⟩
  | delete x =>
    obtain ⟨head, inRing⟩ := lists.home_spec (.inr allowed)
    have notHead : x ≠ lists.home x := by
      -- a linked node is not a head
      obtain ⟨l, hl, member⟩ := allowed
      intro same
      exact rep.apart _ head (same ▸ rep.mem_nodes l hl x member)
    obtain ⟨mem', deleted, rep'⟩ :=
      rep.delete head ((List.mem_cons.mp inRing).resolve_left notHead)
    exact ⟨mem', by simp [LinkedList.exec, deleted, Lists.step], rep'⟩
  | removeHead l =>
    obtain ⟨mem', removed, rep'⟩ := rep.removeHead allowed
    exact ⟨mem', by simp [LinkedList.exec, removed, Lists.step], rep'⟩
  | removeTail l =>
    obtain ⟨mem', removed, rep'⟩ := rep.removeTail allowed
    exact ⟨mem', by simp [LinkedList.exec, removed, Lists.step], rep'⟩

end Represents

/-! ### Reading -/

/-- A walk along linked nodes visits them in order until it is back at the list. -/
theorem traverse_eq {σ : Type} {link : Node → ℕ} {mem : Memory} {l p bound : ℕ} {nodes : List ℕ}
    (body : σ → ℕ → σ) (s : σ) (walk : Linked (fun y => link (mem y)) (nodes ++ [l]))
    (first : (nodes ++ [l]).head? = some p) (on : ∀ y ∈ nodes, y ≠ l ∧ y ≠ 0)
    (enough : nodes.length < bound) :
    traverse link mem l body bound p s = .ok (nodes.foldl body s) := by
  induction nodes generalizing p bound s with
  | nil =>
    obtain rfl : l = p := by simpa using first
    obtain ⟨n, rfl⟩ := Nat.exists_eq_succ_of_ne_zero (Nat.ne_of_gt enough)
    simp [traverse]
  | cons y nodes ih =>
    obtain rfl : y = p := by simpa using first
    obtain ⟨n, rfl⟩ := Nat.exists_eq_succ_of_ne_zero (Nat.ne_of_gt (Nat.zero_lt_of_lt enough))
    obtain ⟨ne, ne_zero⟩ := on y List.mem_cons_self
    have rest := ih (body s y) walk.tail walk.head?_tail
      (fun z hz => on z (List.mem_cons_of_mem _ hz)) (by simpa using enough)
    simp [traverse, ne, load_eq ne_zero, rest]

/-- What reading says: rings, walks in both directions, and the observers. A result 0 is
`NULL`. -/
structure Views (mem : Memory) (lists : Lists) : Prop where
  closed : ∀ l ∈ lists.heads, ∀ x ∈ l :: lists.members l,
    (mem (mem x).next).prev = x ∧ (mem (mem x).prev).next = x
  distinct : ∀ l ∈ lists.heads, (l :: lists.members l).Nodup
  once : ∀ l ∈ lists.heads, ∀ l' ∈ lists.heads, ∀ x ∈ lists.members l, x ∈ lists.members l' →
    l = l'
  forward : ∀ l ∈ lists.heads, ∀ bound, (lists.members l).length < bound →
    listForEvery bound mem l (fun seen x => seen ++ [x]) [] = .ok (lists.members l)
  backward : ∀ l ∈ lists.heads, ∀ bound, (lists.members l).length < bound →
    listForEveryBackward bound mem l (fun seen x => seen ++ [x]) [] =
      .ok (lists.members l).reverse
  inList : ∀ x ∈ lists.nodes, listInList mem x = .ok (decide (lists.Linked x))
  isEmpty : ∀ l ∈ lists.heads, listIsEmpty mem l = .ok (lists.members l).isEmpty
  length : ∀ l ∈ lists.heads, ∀ bound, (lists.members l).length < bound →
    listLength bound mem l = .ok (lists.members l).length
  peekHead : ∀ l ∈ lists.heads, listPeekHead mem l = .ok ((lists.members l).head?.getD 0)
  peekTail : ∀ l ∈ lists.heads, listPeekTail mem l = .ok ((lists.members l).getLast?.getD 0)
  next : ∀ l ∈ lists.heads, ∀ before x after, lists.members l = before ++ x :: after →
    listNext mem l x = .ok (after.head?.getD 0)
  prev : ∀ l ∈ lists.heads, ∀ before x after, lists.members l = before ++ x :: after →
    listPrev mem l x = .ok (before.getLast?.getD 0)

namespace Represents

variable {mem : Memory} {lists : Lists} {h x : ℕ} {before after : List ℕ}

/-- The members are neither the head nor `NULL`. -/
theorem member_ne (rep : Represents mem lists) (hh : h ∈ lists.heads) (hx : x ∈ lists.members h) :
    x ≠ h ∧ x ≠ 0 := by
  refine ⟨?_, rep.ne_zero hh (List.mem_cons_of_mem _ hx)⟩
  rintro rfl
  exact (List.nodup_cons.mp (rep.ring x hh).nodup).1 hx

theorem forEvery (rep : Represents mem lists) (hh : h ∈ lists.heads) {σ : Type} {bound : ℕ}
    (body : σ → ℕ → σ) (s : σ) (enough : (lists.members h).length < bound) :
    listForEvery bound mem h body s = .ok ((lists.members h).foldl body s) := by
  have walk := Closed.cons_iff.mp (rep.ring h hh).forward
  have visits := traverse_eq body s walk.tail walk.head?_tail (fun y hy => rep.member_ne hh hy)
    enough
  simp [listForEvery, load_eq (rep.heads_ne h hh), visits]

theorem forEveryBackward (rep : Represents mem lists) (hh : h ∈ lists.heads) {σ : Type} {bound : ℕ}
    (body : σ → ℕ → σ) (s : σ) (enough : (lists.members h).length < bound) :
    listForEveryBackward bound mem h body s = .ok ((lists.members h).reverse.foldl body s) := by
  -- the reversed ring, turned so that it starts at the head
  have turned := (rep.ring h hh).backward
  rw [List.reverse_cons] at turned
  have walk := Closed.cons_iff.mp turned.rotate
  have visits := traverse_eq body s walk.tail walk.head?_tail
    (fun y hy => rep.member_ne hh (List.mem_reverse.mp hy))
    (by simpa using enough)
  simp [listForEveryBackward, load_eq (rep.heads_ne h hh), visits]

theorem next_head (rep : Represents mem lists) (hh : h ∈ lists.heads) :
    (mem h).next = (lists.members h).head?.getD h := by
  have ring := rep.ring h hh
  cases seq : lists.members h with
  | nil => exact (seq ▸ ring).next_singleton
  | cons y m => exact (seq ▸ ring).next_second

theorem prev_head (rep : Represents mem lists) (hh : h ∈ lists.heads) :
    (mem h).prev = (lists.members h).getLast?.getD h := by
  obtain ⟨c, p, last⟩ := exists_last h (lists.members h)
  rw [getLast?_getD_of_last last]
  exact ((rep.ring h hh).around last).2

theorem next_member (rep : Represents mem lists) (hh : h ∈ lists.heads)
    (split : lists.members h = before ++ x :: after) : (mem x).next = after.head?.getD h := by
  have ring := rep.ring h hh
  cases after with
  | nil => exact (ring.around (m := h :: before) (by simp [split])).1
  | cons y after =>
    rw [split] at ring
    exact (ring.adjacent (l := h :: before)).1

theorem prev_member (rep : Represents mem lists) (hh : h ∈ lists.heads)
    (split : lists.members h = before ++ x :: after) :
    (mem x).prev = before.getLast?.getD h := by
  obtain ⟨c, p, last⟩ := exists_last h before
  have ring := rep.ring h hh
  rw [split, ← List.cons_append, last, List.append_assoc] at ring
  rw [getLast?_getD_of_last last]
  exact ring.adjacent.2

/-- Returning a pointer, or `NULL` where it leads back to the list. -/
theorem pointer_or_null {o : Option ℕ} (ne : ∀ y ∈ o, y ≠ h) :
    (if o.getD h ≠ h then (pure (o.getD h) : Except Fault ℕ) else pure 0) = .ok (o.getD 0) := by
  cases o with
  | none => simp [pure_eq_ok]
  | some y => simp [ne y rfl, pure_eq_ok]

theorem inList (rep : Represents mem lists) (hx : x ∈ lists.nodes) :
    listInList mem x = .ok (decide (lists.Linked x)) := by
  have load : mem.load x = .ok (mem x) := load_eq (rep.nodes_ne x hx)
  by_cases linked : lists.Linked x
  -- a linked node has a successor, and `NULL` is not a node
  · obtain ⟨l, hl, member⟩ := id linked
    have next_ne := rep.ne_zero hl ((rep.ring l hl).next_mem (List.mem_cons_of_mem _ member))
    simp [listInList, load, linked, next_ne, pure_eq_ok]
  · simp [listInList, load, linked, rep.cleared x ⟨hx, linked⟩, pure_eq_ok]

/-- In memory that holds the sequences, reading finds them. -/
theorem views (rep : Represents mem lists) : Views mem lists where
  closed := fun l hl x hx => ⟨(rep.ring l hl).prev_next hx, (rep.ring l hl).next_prev hx⟩
  distinct := fun l hl => (rep.ring l hl).nodup
  once := rep.unique
  forward := by
    intro l hl bound enough
    rw [rep.forEvery hl _ _ enough, List.foldl_append_eq_append, List.nil_append,
      ← List.flatMap_def, List.flatMap_singleton']
  backward := by
    intro l hl bound enough
    rw [rep.forEveryBackward hl _ _ enough, List.foldl_append_eq_append, List.nil_append,
      ← List.flatMap_def, List.flatMap_singleton']
  inList := fun x hx => rep.inList hx
  isEmpty := by
    intro l hl
    have load : mem.load l = .ok (mem l) := load_eq (rep.heads_ne l hl)
    cases seq : lists.members l with
    | nil => simp [listIsEmpty, load, rep.next_head hl, seq, pure_eq_ok]
    | cons y m =>
      have ne := (rep.member_ne hl (x := y) (by simp [seq])).1
      simp [listIsEmpty, load, rep.next_head hl, seq, ne, pure_eq_ok]
  length := by
    intro l hl bound enough
    rw [listLength, rep.forEvery hl _ _ enough]
    simp
  peekHead := by
    intro l hl
    rw [listPeekHead, load_eq (rep.heads_ne l hl)]
    simp only [ok_bind, rep.next_head hl]
    exact pointer_or_null fun y hy => (rep.member_ne hl (List.mem_of_mem_head? hy)).1
  peekTail := by
    intro l hl
    rw [listPeekTail, load_eq (rep.heads_ne l hl)]
    simp only [ok_bind, rep.prev_head hl]
    exact pointer_or_null fun y hy => (rep.member_ne hl (List.mem_of_getLast? hy)).1
  next := by
    intro l hl before x after split
    have member : x ∈ lists.members l := by simp [split]
    rw [listNext, load_eq (rep.member_ne hl member).2]
    simp only [ok_bind, rep.next_member hl split]
    refine pointer_or_null fun y hy => (rep.member_ne hl (x := y) ?_).1
    rw [split]
    exact List.mem_append_right _ (List.mem_cons_of_mem _ (List.mem_of_mem_head? hy))
  prev := by
    intro l hl before x after split
    have member : x ∈ lists.members l := by simp [split]
    rw [listPrev, load_eq (rep.member_ne hl member).2]
    simp only [ok_bind, rep.prev_member hl split]
    refine pointer_or_null fun y hy => (rep.member_ne hl (x := y) ?_).1
    rw [split]
    exact List.mem_append_left _ (List.mem_of_getLast? hy)

end Represents

/-! ### Whole runs -/

/-- Over any memory, every run that sets up heads and nodes and then uses them completes
with the results that the sequences give, and reading the memory it leaves, in any of
the ways that `list.h` offers, finds the sequences. -/
theorem list_refines_sequences (mem : Memory) (ops : List Op)
    (adm : lists.Admissible .empty ops) :
    ∃ final mem' rs, lists.run .empty ops = .ok (final, rs) ∧
      machine.run mem ops = .ok (mem', rs) ∧ Views mem' final := by
  obtain ⟨-, final, mem', rs, abstract, concrete, rep⟩ :=
    Machine.run_eq_of_bisimulation (M := lists) (N := machine) (R := fun s m => Represents m s)
      (fun s m op rep allowed => by
        obtain ⟨m', done, rep'⟩ := rep.exec allowed
        exact ⟨trivial, _, m', _, rfl, done, rep'⟩)
      (Represents.empty mem) adm
  exact ⟨final, mem', rs, abstract, concrete, rep.views⟩

/-- Two lists, at 1 and 2, and the nodes 3, 4 and 5. -/
def twoLists : List Op :=
  [.init 1, .init 2, .clearNode 3, .clearNode 4, .clearNode 5, .addTail 1 3, .addBefore 3 4,
    .addHead 2 5, .delete 3, .addAfter 5 3, .removeHead 2, .removeTail 1, .removeTail 1]

theorem list_refines_sequences_two :
    lists.Admissible .empty twoLists ∧
      ∃ final mem' rs, lists.run .empty twoLists = .ok (final, rs) ∧
        machine.run (fun _ => ⟨7, 7⟩) twoLists = .ok (mem', rs) ∧ Views mem' final := by
  have adm : lists.Admissible .empty twoLists := by decide +kernel
  exact ⟨adm, list_refines_sequences (fun _ => ⟨7, 7⟩) twoLists adm⟩

end Components.LinkedList
