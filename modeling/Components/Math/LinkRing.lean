import Components.Math.Linked
import Mathlib.Data.List.Nodup
import Mathlib.Tactic.Tauto

/-!
# Rings of doubly linked nodes

The nodes of a ring are given as a list from any of them on. `Closed next nodes` says
that following `next` visits them in order and comes back to the first, and `LinkRing`
that a second map `prev` walks the same ring backwards.

A ring has no beginning, so it may be rotated. The node next to a change is brought to
the front, and inserting or removing a node is then a statement about the front of the
list, in which the neighbours may coincide.

## Main results

* `LinkRing.rotate` — a ring from another of its nodes on
* `LinkRing.insert`, `LinkRing.remove` — a node behind the first one comes or goes
* `LinkRing.links` — `next` and `prev` undo each other on the ring
-/

namespace Components

variable {α : Type*} {next next' prev prev' : α → α} {p q x y : α} {l m m' : List α}

/-- Following `next` from the first node visits the nodes and returns to it. -/
def Closed (next : α → α) (nodes : List α) : Prop := Linked next (nodes ++ nodes.head?.toList)

namespace Closed

theorem cons_iff : Closed next (p :: l) ↔ Linked next (p :: l ++ [p]) := Iff.rfl

theorem singleton_iff : Closed next [p] ↔ next p = p := by
  rw [cons_iff]
  exact ⟨fun h => (Linked.cons_cons.mp h).1, fun h => Linked.cons_cons.mpr ⟨h, .singleton _ _⟩⟩

theorem cons_cons_iff :
    Closed next (p :: q :: l) ↔ next p = q ∧ Linked next (q :: l ++ [p]) := Linked.cons_cons

/-- A ring from another of its nodes on. -/
theorem rotate (h : Closed next (l ++ m)) : Closed next (m ++ l) := by
  cases l with
  | nil => simpa using h
  | cons p l =>
    cases m with
    | nil => simpa using h
    | cons q m =>
      -- both lists consist of the way from `p` to `q` and the way from `q` to `p`
      have ways : Linked next ((p :: l) ++ q :: (m ++ [p])) := by simpa [Closed] using h
      obtain ⟨out, back⟩ := Linked.split.mp ways
      have ways' : Linked next ((q :: m) ++ p :: (l ++ [q])) := Linked.split.mpr ⟨back, out⟩
      simpa [Closed] using ways'

theorem congr (h : Closed next l) (same : ∀ y ∈ l, next' y = next y) : Closed next' l := by
  cases l with
  | nil => exact List.isChain_nil
  | cons p l => exact Linked.congr_concat (l := p :: l) h same

/-- Insert a node behind the first one. -/
theorem insert (h : Closed next (p :: m)) (first : next' p = x) (second : next' x = next p)
    (rest : ∀ y ∈ m, next' y = next y) : Closed next' (p :: x :: m) := by
  refine cons_cons_iff.mpr ⟨first, ?_⟩
  cases m with
  | nil => exact Linked.cons_cons.mpr ⟨second.trans (singleton_iff.mp h), .singleton _ _⟩
  | cons q m =>
    obtain ⟨reached, walk⟩ := cons_cons_iff.mp h
    exact Linked.cons_cons.mpr
      ⟨second.trans reached, Linked.congr_concat (l := q :: m) walk rest⟩

/-- Remove the node behind the first one. -/
theorem remove (h : Closed next (p :: x :: m)) (first : next' p = next x)
    (rest : ∀ y ∈ m, next' y = next y) : Closed next' (p :: m) := by
  obtain ⟨-, walk⟩ := cons_cons_iff.mp h
  cases m with
  | nil => exact singleton_iff.mpr (first.trans (Linked.cons_cons.mp walk).1)
  | cons q m =>
    obtain ⟨reached, walk'⟩ := Linked.cons_cons.mp walk
    exact cons_cons_iff.mpr ⟨first.trans reached, Linked.congr_concat (l := q :: m) walk' rest⟩

end Closed

/-- Distinct nodes that `next` visits in a ring and `prev` in the opposite order. -/
structure LinkRing (next prev : α → α) (nodes : List α) : Prop where
  nodup : nodes.Nodup
  forward : Closed next nodes
  backward : Closed prev nodes.reverse

namespace LinkRing

theorem singleton (forward : next p = p) (backward : prev p = p) : LinkRing next prev [p] where
  nodup := List.nodup_singleton p
  forward := Closed.singleton_iff.mpr forward
  backward := Closed.singleton_iff.mpr backward

theorem rotate (h : LinkRing next prev (l ++ m)) : LinkRing next prev (m ++ l) where
  nodup := List.nodup_append_comm.mp h.nodup
  forward := h.forward.rotate
  backward := by
    rw [List.reverse_append]
    exact (List.reverse_append ▸ h.backward : Closed prev (m.reverse ++ l.reverse)).rotate

theorem congr (h : LinkRing next prev l) (nexts : ∀ y ∈ l, next' y = next y)
    (prevs : ∀ y ∈ l, prev' y = prev y) : LinkRing next' prev' l where
  nodup := h.nodup
  forward := h.forward.congr nexts
  backward := h.backward.congr fun y hy => prevs y (List.mem_reverse.mp hy)

/-- The backward walk from the second node on. -/
theorem backward_second (h : LinkRing next prev (p :: q :: m)) :
    Closed prev (q :: p :: m.reverse) := by
  have back := h.backward
  rw [List.reverse_cons, List.reverse_cons, List.append_assoc] at back
  exact back.rotate

theorem of_backward_second (nodup : (p :: q :: m).Nodup) (forward : Closed next (p :: q :: m))
    (back : Closed prev (q :: p :: m.reverse)) : LinkRing next prev (p :: q :: m) where
  nodup := nodup
  forward := forward
  backward := by
    rw [List.reverse_cons, List.reverse_cons, List.append_assoc]
    exact Closed.rotate (l := [q, p]) back

theorem next_second (h : LinkRing next prev (p :: q :: m)) : next p = q :=
  (Closed.cons_cons_iff.mp h.forward).1

theorem prev_second (h : LinkRing next prev (p :: q :: m)) : prev q = p :=
  (Closed.cons_cons_iff.mp h.backward_second).1

theorem next_singleton (h : LinkRing next prev [p]) : next p = p :=
  Closed.singleton_iff.mp h.forward

theorem prev_singleton (h : LinkRing next prev [p]) : prev p = p :=
  Closed.singleton_iff.mp h.backward

/-- Neighbours in the list are linked both ways. -/
theorem adjacent (h : LinkRing next prev (l ++ p :: q :: m)) : next p = q ∧ prev q = p :=
  ⟨(h.rotate (m := p :: q :: m)).next_second, (h.rotate (m := p :: q :: m)).prev_second⟩

/-- The last node and the first are linked both ways. -/
theorem around (h : LinkRing next prev (q :: l)) (last : q :: l = m ++ [p]) :
    next p = q ∧ prev q = p := by
  cases m with
  | nil =>
    obtain ⟨rfl, rfl⟩ : q = p ∧ l = [] := by simpa using last
    exact ⟨h.next_singleton, h.prev_singleton⟩
  | cons r m =>
    obtain ⟨rfl, rfl⟩ : q = r ∧ l = m ++ [p] := by simpa using last
    exact (LinkRing.rotate (l := q :: m) (m := [p]) h).adjacent (l := [])

theorem next_front_mem (h : LinkRing next prev (p :: m)) : next p ∈ p :: m := by
  cases m with
  | nil => simp [h.next_singleton]
  | cons q m => simp [h.next_second]

theorem prev_next_front (h : LinkRing next prev (p :: m)) : prev (next p) = p := by
  cases m with
  | nil => rw [h.next_singleton, h.prev_singleton]
  | cons q m => rw [h.next_second, h.prev_second]

theorem next_mem (h : LinkRing next prev l) (hx : x ∈ l) : next x ∈ l := by
  obtain ⟨l₁, l₂, rfl⟩ := List.append_of_mem hx
  have mem := h.rotate.next_front_mem (m := l₂ ++ l₁)
  simp only [List.mem_cons, List.mem_append] at mem ⊢
  tauto

/-- The ring walked the other way. -/
theorem reverse (h : LinkRing next prev l) : LinkRing prev next l.reverse where
  nodup := List.nodup_reverse.mpr h.nodup
  forward := h.backward
  backward := by rw [List.reverse_reverse]; exact h.forward

theorem prev_mem (h : LinkRing next prev l) (hx : x ∈ l) : prev x ∈ l :=
  List.mem_reverse.mp (h.reverse.next_mem (List.mem_reverse.mpr hx))

theorem prev_next (h : LinkRing next prev l) (hx : x ∈ l) : prev (next x) = x := by
  obtain ⟨l₁, l₂, rfl⟩ := List.append_of_mem hx
  exact h.rotate.prev_next_front (m := l₂ ++ l₁)

theorem next_prev (h : LinkRing next prev l) (hx : x ∈ l) : next (prev x) = x :=
  h.reverse.prev_next (List.mem_reverse.mpr hx)

/-- A node that has another one before it is not its own successor. -/
theorem next_ne (h : LinkRing next prev (l ++ p :: x :: m)) : next x ≠ x := by
  intro same
  have back := h.prev_next (x := x) (by simp)
  rw [same, h.adjacent.2] at back
  have turned : (p :: x :: (m ++ l)).Nodup := h.rotate.nodup
  exact (List.nodup_cons.mp turned).1 (by simp [back])

/-- Walking back from the second node, the others come later. -/
theorem others_of_nodup (nodup : (p :: q :: m).Nodup)
    (prevs : ∀ y ∈ p :: q :: m, y ≠ q → prev' y = prev y) :
    ∀ y ∈ p :: m.reverse, prev' y = prev y := by
  intro y hy
  have away := (List.nodup_cons.mp ((List.Perm.swap q p m).nodup_iff.mp nodup)).1
  refine prevs y ?_ ?_
  · simp only [List.mem_cons, List.mem_reverse] at hy ⊢
    tauto
  · rintro rfl
    exact away (by simpa using hy)

/-- Insert a node behind the first one. -/
theorem insert_front (h : LinkRing next prev (p :: m)) (fresh : x ∉ p :: m) (nextP : next' p = x)
    (nextX : next' x = next p) (nexts : ∀ y ∈ m, next' y = next y) (prevX : prev' x = p)
    (prevN : prev' (next p) = x) (prevs : ∀ y ∈ p :: m, y ≠ next p → prev' y = prev y) :
    LinkRing next' prev' (p :: x :: m) := by
  have nodup : (p :: x :: m).Nodup :=
    (List.Perm.swap p x m).nodup_iff.mp (List.nodup_cons.mpr ⟨fresh, h.nodup⟩)
  refine of_backward_second nodup (h.forward.insert nextP nextX nexts) ?_
  cases m with
  | nil =>
    -- the first node is its own successor
    rw [h.next_singleton] at prevN
    have back := Closed.insert h.backward prevN (prevX.trans h.prev_singleton.symm) (by simp)
    exact Closed.rotate (l := [p]) (m := [x]) back
  | cons q m =>
    rw [h.next_second] at prevN prevs
    -- backwards the new node comes behind `q`
    have back := h.backward_second.insert prevN (prevX.trans h.prev_second.symm)
      (others_of_nodup h.nodup prevs)
    simpa using Closed.rotate (l := [q]) back

/-- Remove the node behind the first one. -/
theorem remove_front (h : LinkRing next prev (p :: x :: m)) (nextP : next' p = next x)
    (nexts : ∀ y ∈ m, next' y = next y) (prevN : prev' (next x) = p)
    (prevs : ∀ y ∈ p :: m, y ≠ next x → prev' y = prev y) : LinkRing next' prev' (p :: m) := by
  have nodup : (p :: m).Nodup :=
    (List.nodup_cons.mp ((List.Perm.swap x p m).nodup_iff.mp h.nodup)).2
  cases m with
  | nil =>
    have last : next x = p := (h.around (m := [p]) rfl).1
    exact singleton (nextP.trans last) (last ▸ prevN)
  | cons q m =>
    have last : next x = q := (h.adjacent (l := [p])).1
    rw [last] at prevN prevs
    -- backwards the removed node stands between `q` and `p`
    have back : Closed prev ([q, x, p] ++ m.reverse) := Closed.rotate (by simpa using h.backward)
    exact of_backward_second nodup (h.forward.remove nextP nexts)
      (back.remove (prevN.trans h.prev_second.symm) (others_of_nodup nodup prevs))

/-- Insert a node behind any node of the ring. -/
theorem insert (h : LinkRing next prev (l ++ p :: m)) (fresh : x ∉ l ++ p :: m)
    (nextP : next' p = x) (nextX : next' x = next p)
    (nexts : ∀ y ∈ l ++ p :: m, y ≠ p → next' y = next y) (prevX : prev' x = p)
    (prevN : prev' (next p) = x) (prevs : ∀ y ∈ l ++ p :: m, y ≠ next p → prev' y = prev y) :
    LinkRing next' prev' (l ++ p :: x :: m) := by
  -- bring the node to the front, insert there, and turn the ring back
  have turned : LinkRing next prev (p :: (m ++ l)) := h.rotate
  have mem : ∀ y ∈ p :: (m ++ l), y ∈ l ++ p :: m := by
    intro y hy
    simp only [List.mem_cons, List.mem_append] at hy ⊢
    tauto
  have ne : ∀ y ∈ m ++ l, y ≠ p := by
    rintro y hy rfl
    exact (List.nodup_cons.mp turned.nodup).1 hy
  have inserted := turned.insert_front (fun hx => fresh (mem x hx)) nextP nextX
    (fun y hy => nexts y (mem y (List.mem_cons_of_mem _ hy)) (ne y hy)) prevX prevN
    (fun y hy => prevs y (mem y hy))
  exact rotate (l := p :: x :: m) inserted

/-- Remove any node of the ring but the only one. -/
theorem remove (h : LinkRing next prev (l ++ p :: x :: m)) (nextP : next' p = next x)
    (nexts : ∀ y ∈ l ++ p :: m, y ≠ p → next' y = next y) (prevN : prev' (next x) = p)
    (prevs : ∀ y ∈ l ++ p :: m, y ≠ next x → prev' y = prev y) :
    LinkRing next' prev' (l ++ p :: m) := by
  have turned : LinkRing next prev (p :: x :: (m ++ l)) := h.rotate
  have mem : ∀ y ∈ p :: (m ++ l), y ∈ l ++ p :: m := by
    intro y hy
    simp only [List.mem_cons, List.mem_append] at hy ⊢
    tauto
  have ne : ∀ y ∈ m ++ l, y ≠ p := by
    rintro y hy rfl
    exact (List.nodup_cons.mp turned.nodup).1 (List.mem_cons_of_mem _ hy)
  have removed := turned.remove_front nextP
    (fun y hy => nexts y (mem y (List.mem_cons_of_mem _ hy)) (ne y hy)) prevN
    (fun y hy => prevs y (mem y hy))
  exact rotate (l := p :: m) removed

end LinkRing

end Components
