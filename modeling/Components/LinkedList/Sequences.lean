import Components.LinkedList.Basic
import Components.Math.LinkRing

/-!
# Lists in memory and the sequences they stand for

What the heads and nodes of one memory are for: every head has a sequence of nodes, and
a call changes one sequence as its name says. `Represents` connects memory to the
sequences: each head and its members form a ring, no node is in two of them, and the
pointers of a node outside all lists are `NULL`.

## Main definitions

* `Lists`, `Lists.step`, `lists` — the sequences, and the calls on them
* `Represents` — memory holds the sequences
* `linkBehind`, `unlink` — what inserting and deleting do to memory

## Main results

* `Represents.rearrange` — one ring changes and the others do not notice
* `Represents.link`, `Represents.unlink` — inserting behind any node of a ring, and
  taking out any member
-/

namespace Components.LinkedList

/-! ### Sequences -/

/-- Insert `x` behind `a`. -/
def insertAfter (a x : ℕ) : List ℕ → List ℕ
  | [] => []
  | y :: l => if y = a then y :: x :: l else y :: insertAfter a x l

/-- Insert `x` before `a`. -/
def insertBefore (a x : ℕ) : List ℕ → List ℕ
  | [] => []
  | y :: l => if y = a then x :: y :: l else y :: insertBefore a x l

/-- The heads and the nodes that were set up, and the sequence of each head. -/
structure Lists where
  heads : List ℕ
  nodes : List ℕ
  members : ℕ → List ℕ

namespace Lists

/-- Before anything is set up. -/
def empty : Lists := ⟨[], [], fun _ => []⟩

/-- Is the node in some list? -/
def Linked (lists : Lists) (x : ℕ) : Prop := ∃ l ∈ lists.heads, x ∈ lists.members l

instance (lists : Lists) (x : ℕ) : Decidable (lists.Linked x) :=
  inferInstanceAs (Decidable (∃ l ∈ lists.heads, _))

/-- The head of the list that `a` heads or is in. -/
def home (lists : Lists) (a : ℕ) : ℕ :=
  (lists.heads.find? fun l => a ∈ l :: lists.members l).getD 0

/-- Give one head another sequence. -/
def set (lists : Lists) (l : ℕ) (seq : List ℕ) : Lists :=
  { lists with members := Function.update lists.members l seq }

@[simp] theorem set_members_self (lists : Lists) (l : ℕ) (seq : List ℕ) :
    (lists.set l seq).members l = seq := Function.update_self _ _ _

theorem set_members_of_ne (lists : Lists) {l l' : ℕ} (ne : l' ≠ l) (seq : List ℕ) :
    (lists.set l seq).members l' = lists.members l' := Function.update_of_ne ne _ _

theorem set_self (lists : Lists) (l : ℕ) : lists.set l (lists.members l) = lists := by
  rw [set, Function.update_eq_self]

/-- What a call does to the sequences, and the node it returns. -/
def step (lists : Lists) : Op → Lists × Option ℕ
  | .init l => ({ lists with heads := l :: lists.heads }.set l [], none)
  | .clearNode x => ({ lists with nodes := x :: lists.nodes }, none)
  | .addHead l x => (lists.set l (x :: lists.members l), none)
  | .addTail l x => (lists.set l (lists.members l ++ [x]), none)
  | .addAfter a x =>
    let l := lists.home a
    (lists.set l (if a = l then x :: lists.members l else insertAfter a x (lists.members l)), none)
  | .addBefore a x =>
    let l := lists.home a
    (lists.set l (if a = l then lists.members l ++ [x] else insertBefore a x (lists.members l)),
      none)
  | .delete x =>
    let l := lists.home x
    (lists.set l ((lists.members l).erase x), none)
  | .removeHead l => (lists.set l (lists.members l).tail, some ((lists.members l).head?.getD 0))
  | .removeTail l =>
    (lists.set l (lists.members l).dropLast, some ((lists.members l).getLast?.getD 0))

/-- A node that was set up and is in no list. -/
def Loose (lists : Lists) (x : ℕ) : Prop := x ∈ lists.nodes ∧ ¬ lists.Linked x

/-- A head or a linked node. -/
def Anchor (lists : Lists) (a : ℕ) : Prop := a ∈ lists.heads ∨ lists.Linked a

/-- The calls that make sense: heads and nodes are set up at separate addresses before
they are used, an item to add is in no list, the anchor is a head or a linked node, and
an item to delete is linked. -/
def Allowed (lists : Lists) : Op → Prop
  | .init l => l ≠ 0 ∧ l ∉ lists.heads ∧ l ∉ lists.nodes
  | .clearNode x => x ≠ 0 ∧ x ∉ lists.heads ∧ ¬ lists.Linked x
  | .addHead l x | .addTail l x => l ∈ lists.heads ∧ lists.Loose x
  | .addAfter a x | .addBefore a x => lists.Anchor a ∧ lists.Loose x
  | .delete x => lists.Linked x
  | .removeHead l | .removeTail l => l ∈ lists.heads

instance (lists : Lists) (x : ℕ) : Decidable (lists.Loose x) :=
  inferInstanceAs (Decidable (_ ∧ _))

instance (lists : Lists) (a : ℕ) : Decidable (lists.Anchor a) :=
  inferInstanceAs (Decidable (_ ∨ _))

instance (lists : Lists) (op : Op) : Decidable (lists.Allowed op) :=
  match op with
  | .init _ | .clearNode _ => inferInstanceAs (Decidable (_ ∧ _ ∧ _))
  | .addHead _ _ | .addTail _ _ | .addAfter _ _ | .addBefore _ _ =>
    inferInstanceAs (Decidable (_ ∧ _))
  | .delete x => inferInstanceAs (Decidable (lists.Linked x))
  | .removeHead l | .removeTail l => inferInstanceAs (Decidable (l ∈ lists.heads))

end Lists

/-- The calls on the sequences, which have no faults. -/
def lists : Machine Lists Op (Option ℕ) Fault where
  step s op := .ok (s.step op)
  Allowed := Lists.Allowed

instance (s : Lists) (op : Op) : Decidable (lists.Allowed s op) :=
  inferInstanceAs (Decidable (s.Allowed op))

/-! ### What the functions write -/

/-- Memory after `x` is linked behind `p`. -/
def linkBehind (mem : Memory) (p x : ℕ) : Memory := fun y =>
  { prev := if y = (mem p).next then x else if y = x then p else (mem y).prev
    next := if y = p then x else if y = x then (mem p).next else (mem y).next }

/-- Memory after `x` is taken out. -/
def unlink (mem : Memory) (x : ℕ) : Memory := fun y =>
  if y = x then ⟨0, 0⟩
  else
    { prev := if y = (mem x).next then (mem x).prev else (mem y).prev
      next := if y = (mem x).prev then (mem x).next else (mem y).next }

/-- Memory with another `prev` pointer at `p`. -/
def withPrev (mem : Memory) (p q : ℕ) : Memory := Function.update mem p { mem p with prev := q }

/-- Memory with another `next` pointer at `p`. -/
def withNext (mem : Memory) (p q : ℕ) : Memory := Function.update mem p { mem p with next := q }

section Writes

variable {mem : Memory} {p q x y : ℕ}

@[simp] theorem withPrev_prev : (withPrev mem p q y).prev = if y = p then q else (mem y).prev := by
  unfold withPrev
  by_cases h : y = p <;> simp [h]

@[simp] theorem withPrev_next : (withPrev mem p q y).next = (mem y).next := by
  unfold withPrev
  by_cases h : y = p <;> simp [h]

@[simp] theorem withNext_next : (withNext mem p q y).next = if y = p then q else (mem y).next := by
  unfold withNext
  by_cases h : y = p <;> simp [h]

@[simp] theorem withNext_prev : (withNext mem p q y).prev = (mem y).prev := by
  unfold withNext
  by_cases h : y = p <;> simp [h]

theorem load_eq (hp : p ≠ 0) : mem.load p = .ok (mem p) := by simp [Memory.load, hp]

theorem setPrev_eq (hp : p ≠ 0) : mem.setPrev p q = .ok (withPrev mem p q) := by
  simp [Memory.setPrev, Memory.store, load_eq hp, hp, withPrev]

theorem setNext_eq (hp : p ≠ 0) : mem.setNext p q = .ok (withNext mem p q) := by
  simp [Memory.setNext, Memory.store, load_eq hp, hp, withNext]

theorem listInitialize_eq (hp : p ≠ 0) :
    listInitialize mem p = .ok (Function.update mem p ⟨p, p⟩) := by
  simp [listInitialize, setPrev_eq hp, setNext_eq hp, withPrev, withNext]

theorem listClearNode_eq (hx : x ≠ 0) :
    listClearNode mem x = .ok (Function.update mem x ⟨0, 0⟩) := by
  simp [listClearNode, setPrev_eq hx, setNext_eq hx, withPrev, withNext]

/-- `list_add_head` links the item behind the anchor. -/
theorem listAddHead_eq (hp : p ≠ 0) (hx : x ≠ 0) (hn : (mem p).next ≠ 0) (ne : x ≠ p) :
    listAddHead mem p x = .ok (linkBehind mem p x) := by
  -- the item is not the anchor, so the anchor still has its successor after two writes
  simp only [listAddHead, load_eq hp, ok_bind, setNext_eq hx, setPrev_eq hx, withPrev_next,
    withNext_next, if_neg ne.symm, setPrev_eq hn, setNext_eq hp, Except.ok.injEq]
  funext y
  ext
  · simp [linkBehind]
  · simp [linkBehind]

/-- `list_add_tail` links the item behind the node before the anchor. -/
theorem listAddTail_eq (hq : q ≠ 0) (hx : x ≠ 0) (hp : (mem q).prev ≠ 0)
    (closes : (mem (mem q).prev).next = q) (ne : x ≠ q) :
    listAddTail mem q x = .ok (linkBehind mem (mem q).prev x) := by
  simp only [listAddTail, load_eq hq, ok_bind, setNext_eq hx, setPrev_eq hx, withPrev_prev,
    withNext_prev, if_neg ne.symm, setNext_eq hp, setPrev_eq hq, Except.ok.injEq]
  funext y
  ext
  · simp [linkBehind, closes]
  · simp [linkBehind, closes]

/-- `list_delete` takes the item out. -/
theorem listDelete_eq (hx : x ≠ 0) (hp : (mem x).prev ≠ 0) (hn : (mem x).next ≠ 0)
    (ne : (mem x).next ≠ x) : listDelete mem x = .ok (unlink mem x) := by
  simp only [listDelete, load_eq hx, ok_bind, setPrev_eq hn, withPrev_prev, withPrev_next,
    if_neg ne.symm, setNext_eq hp, setNext_eq hx, setPrev_eq hx, Except.ok.injEq]
  funext y
  by_cases same : y = x
  · ext <;> simp [unlink, same]
  · ext <;> simp [unlink, same]

end Writes

/-! ### Memory that holds the sequences -/

/-- Each head and its members form a ring, of nodes that were set up and are in no other
ring. Nodes outside all rings are cleared. -/
structure Represents (mem : Memory) (lists : Lists) : Prop where
  heads_ne : ∀ l ∈ lists.heads, l ≠ 0
  nodes_ne : ∀ x ∈ lists.nodes, x ≠ 0
  apart : ∀ l ∈ lists.heads, l ∉ lists.nodes
  ring : ∀ l ∈ lists.heads,
    LinkRing (fun y => (mem y).next) (fun y => (mem y).prev) (l :: lists.members l)
  mem_nodes : ∀ l ∈ lists.heads, ∀ x ∈ lists.members l, x ∈ lists.nodes
  unique : ∀ l ∈ lists.heads, ∀ l' ∈ lists.heads, ∀ x ∈ lists.members l, x ∈ lists.members l' →
    l = l'
  cleared : ∀ x, lists.Loose x → mem x = ⟨0, 0⟩

namespace Represents

variable {mem mem' : Memory} {lists : Lists} {h l p x y : ℕ} {a b seq : List ℕ}

theorem empty (mem : Memory) : Represents mem .empty where
  heads_ne := by simp [Lists.empty]
  nodes_ne := by simp [Lists.empty]
  apart := by simp [Lists.empty]
  ring := by simp [Lists.empty]
  mem_nodes := by simp [Lists.empty]
  unique := by simp [Lists.empty]
  cleared := by simp [Lists.empty, Lists.Loose]

/-- No node of a ring is `NULL`. -/
theorem ne_zero (rep : Represents mem lists) (hh : h ∈ lists.heads)
    (hy : y ∈ h :: lists.members h) : y ≠ 0 := by
  rcases List.mem_cons.mp hy with rfl | member
  · exact rep.heads_ne y hh
  · exact rep.nodes_ne y (rep.mem_nodes h hh y member)

/-- Two rings have no node in common. -/
theorem rings_apart (rep : Represents mem lists) (hh : h ∈ lists.heads) (hl : l ∈ lists.heads)
    (ne : l ≠ h) (hy : y ∈ l :: lists.members l) : y ∉ h :: lists.members h := by
  intro mem
  rcases List.mem_cons.mp hy with rfl | left
  · rcases List.mem_cons.mp mem with same | right
    · exact ne same
    · exact rep.apart y hl (rep.mem_nodes h hh y right)
  · rcases List.mem_cons.mp mem with rfl | right
    · exact rep.apart y hh (rep.mem_nodes l hl y left)
    · exact ne (rep.unique l hl h hh y left right)

/-- A loose node is in no ring. -/
theorem loose_notMem (rep : Represents mem lists) (hl : l ∈ lists.heads) (loose : lists.Loose x) :
    x ∉ l :: lists.members l := by
  intro mem
  rcases List.mem_cons.mp mem with rfl | member
  · exact rep.apart x hl loose.1
  · exact loose.2 ⟨l, hl, member⟩

/-- Only the ring of `h` changes: it takes in loose nodes and clears the members it
loses. -/
theorem rearrange (rep : Represents mem lists) (hh : h ∈ lists.heads)
    (ring : LinkRing (fun y => (mem' y).next) (fun y => (mem' y).prev) (h :: seq))
    (source : ∀ y ∈ seq, y ∈ lists.members h ∨ lists.Loose y)
    (frame : ∀ y, y ∉ h :: lists.members h → y ∉ seq → mem' y = mem y)
    (lost : ∀ y ∈ lists.members h, y ∉ seq → mem' y = ⟨0, 0⟩) :
    Represents mem' (lists.set h seq) := by
  -- the sequence has no node of another ring, before or after
  have foreign : ∀ l ∈ lists.heads, l ≠ h → ∀ y ∈ l :: lists.members l, y ∉ seq := by
    intro l hl ne y hy inSeq
    rcases source y inSeq with member | loose
    · exact rep.rings_apart hh hl ne hy (List.mem_cons_of_mem _ member)
    · exact rep.loose_notMem hl loose hy
  refine ⟨rep.heads_ne, rep.nodes_ne, rep.apart, ?_, ?_, ?_, ?_⟩
  · intro l hl
    by_cases own : l = h
    · subst own
      simpa using ring
    · rw [lists.set_members_of_ne own]
      have same : ∀ y ∈ l :: lists.members l, mem' y = mem y := fun y hy =>
        frame y (rep.rings_apart hh hl own hy) (foreign l hl own y hy)
      exact (rep.ring l hl).congr (fun y hy => by rw [same y hy]) (fun y hy => by rw [same y hy])
  · intro l hl y hy
    by_cases own : l = h
    · subst own
      rw [lists.set_members_self] at hy
      rcases source y hy with member | loose
      · exact rep.mem_nodes l hl y member
      · exact loose.1
    · rw [lists.set_members_of_ne own] at hy
      exact rep.mem_nodes l hl y hy
  · intro l hl l' hl' y hy hy'
    by_cases own : l = h
    · by_cases own' : l' = h
      · rw [own, own']
      · subst own
        rw [lists.set_members_self] at hy
        rw [lists.set_members_of_ne own'] at hy'
        exact absurd hy (foreign l' hl' own' y (List.mem_cons_of_mem _ hy'))
    · rw [lists.set_members_of_ne own] at hy
      by_cases own' : l' = h
      · subst own'
        rw [lists.set_members_self] at hy'
        exact absurd hy' (foreign l hl own y (List.mem_cons_of_mem _ hy))
      · rw [lists.set_members_of_ne own'] at hy'
        exact rep.unique l hl l' hl' y hy hy'
  · rintro y ⟨setUp, notLinked⟩
    have outside : y ∉ seq := fun inSeq => notLinked ⟨h, hh, by simpa using inSeq⟩
    by_cases member : y ∈ lists.members h
    · exact lost y member outside
    · -- a node that is loose now, and was no member, was loose before
      have loose : lists.Loose y := by
        refine ⟨setUp, ?_⟩
        rintro ⟨l, hl, hy⟩
        have ne : l ≠ h := by
          rintro rfl
          exact member hy
        exact notLinked ⟨l, hl, by rwa [lists.set_members_of_ne ne]⟩
      rw [frame y (rep.loose_notMem hh loose) outside]
      exact rep.cleared y loose

/-- Link a loose node behind any node of a ring. -/
theorem link (rep : Represents mem lists) (hh : h ∈ lists.heads) (loose : lists.Loose x)
    (before : h :: lists.members h = a ++ p :: b) (after : h :: seq = a ++ p :: x :: b) :
    Represents (linkBehind mem p x) (lists.set h seq) := by
  have ring := rep.ring h hh
  have head_notMem := (List.nodup_cons.mp ring.nodup).1
  have fresh := rep.loose_notMem hh loose
  have inside : ∀ y, y ∈ h :: lists.members h ∨ y = x ↔ y ∈ h :: seq := by
    intro y
    simp only [before, after, List.mem_cons, List.mem_append]
    tauto
  have p_mem : p ∈ h :: lists.members h := by simp [before]
  have next_mem : (mem p).next ∈ h :: lists.members h := ring.next_mem p_mem
  -- no node of the ring is `x`, so the writes to `x` and to its neighbours do not meet
  have ring' : LinkRing (fun y => (linkBehind mem p x y).next)
      (fun y => (linkBehind mem p x y).prev) (h :: seq) := by
    rw [before] at ring fresh p_mem next_mem
    rw [after]
    have ne_of_mem : ∀ y ∈ a ++ p :: b, y ≠ x := fun y hy same => fresh (same ▸ hy)
    refine ring.insert fresh ?_ ?_ ?_ ?_ ?_ ?_
    · simp [linkBehind]
    · simp [linkBehind, (ne_of_mem p p_mem).symm]
    · intro y hy ne
      simp [linkBehind, ne, ne_of_mem y hy]
    · simp [linkBehind, (ne_of_mem _ next_mem).symm]
    · simp [linkBehind]
    · intro y hy ne
      simp [linkBehind, ne, ne_of_mem y hy]
  have head_notMem' := (List.nodup_cons.mp ring'.nodup).1
  refine rep.rearrange hh ring' ?_ ?_ ?_
  · intro y hy
    rcases (inside y).mpr (List.mem_cons_of_mem _ hy) with old | rfl
    · rcases List.mem_cons.mp old with rfl | member
      · exact absurd hy head_notMem'
      · exact .inl member
    · exact .inr loose
  · intro y outside outside'
    have ne : y ≠ p := fun same => outside (same ▸ p_mem)
    have ne_next : y ≠ (mem p).next := fun same => outside (same ▸ next_mem)
    have ne_x : y ≠ x := by
      intro same
      rcases List.mem_cons.mp ((inside y).mp (.inr same)) with rfl | member
      · exact outside List.mem_cons_self
      · exact outside' member
    simp [linkBehind, ne, ne_next, ne_x]
  · -- no member is lost
    intro y member gone
    rcases List.mem_cons.mp ((inside y).mp (.inl (List.mem_cons_of_mem _ member))) with rfl | stays
    · exact absurd member head_notMem
    · exact absurd stays gone

/-- Take any member out of a ring. -/
theorem unlink (rep : Represents mem lists) (hh : h ∈ lists.heads)
    (before : h :: lists.members h = a ++ p :: x :: b) (after : h :: seq = a ++ p :: b) :
    Represents (unlink mem x) (lists.set h seq) := by
  have ring := rep.ring h hh
  have head_notMem := (List.nodup_cons.mp ring.nodup).1
  have x_mem : x ∈ h :: lists.members h := by simp [before]
  have next_mem : (mem x).next ∈ h :: lists.members h := ring.next_mem x_mem
  have prev_mem : (mem x).prev ∈ h :: lists.members h := ring.prev_mem x_mem
  have x_notMem : x ∉ h :: seq := by
    have nodup : ((a ++ [p]) ++ x :: b).Nodup := by simpa [before] using ring.nodup
    have notMem := (List.nodup_cons.mp (List.nodup_middle.mp nodup)).1
    simpa [after] using notMem
  have inside : ∀ y, y ∈ h :: lists.members h ↔ y ∈ h :: seq ∨ y = x := by
    intro y
    simp only [before, after, List.mem_cons, List.mem_append]
    tauto
  have ring' : LinkRing (fun y => (LinkedList.unlink mem x y).next)
      (fun y => (LinkedList.unlink mem x y).prev) (h :: seq) := by
    rw [before] at ring
    rw [after] at x_notMem ⊢
    -- in a ring of two the node before `x` is also the one after it
    have prev_x : (mem x).prev = p := ring.adjacent.2
    have ne_of_mem : ∀ y ∈ a ++ p :: b, y ≠ x := fun y hy same => x_notMem (same ▸ hy)
    have next_ne : (mem x).next ≠ x := ring.next_ne
    refine ring.remove ?_ ?_ ?_ ?_
    · simp [LinkedList.unlink, prev_x, ne_of_mem p (by simp)]
    · intro y hy ne
      simp [LinkedList.unlink, prev_x, ne, ne_of_mem y hy]
    · simp [LinkedList.unlink, prev_x, next_ne]
    · intro y hy ne
      simp [LinkedList.unlink, ne, ne_of_mem y hy]
  have head_notMem' := (List.nodup_cons.mp ring'.nodup).1
  refine rep.rearrange hh ring' ?_ ?_ ?_
  · intro y hy
    rcases List.mem_cons.mp ((inside y).mpr (.inl (List.mem_cons_of_mem _ hy))) with rfl | member
    · exact absurd hy head_notMem'
    · exact .inl member
  · intro y outside _
    have ne : y ≠ x := fun same => outside (same ▸ x_mem)
    have ne_next : y ≠ (mem x).next := fun same => outside (same ▸ next_mem)
    have ne_prev : y ≠ (mem x).prev := fun same => outside (same ▸ prev_mem)
    simp [LinkedList.unlink, ne, ne_next, ne_prev]
  · -- the only member lost is the one taken out
    intro y member gone
    rcases (inside y).mp (List.mem_cons_of_mem _ member) with stays | same
    · rcases List.mem_cons.mp stays with rfl | stays
      · exact absurd member head_notMem
      · exact absurd stays gone
    · simp [LinkedList.unlink, same]

end Represents

end Components.LinkedList
