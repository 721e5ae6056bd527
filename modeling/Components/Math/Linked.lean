import Mathlib.Data.List.Chain

/-!
# Linked nodes

`Linked next nodes` says that following `next` from the first node of the list
visits the nodes in order. The two lemmas that matter for pointer programs are
that only the successors of the non-final nodes count, and that a segment between
two nodes can be replaced by another one.
-/

namespace Components

variable {α : Type*} {next next' : α → α} {p q : α} {l l₁ l₂ m m' : List α}

/-- Each node of the list but the last has the following one as its successor. -/
def Linked (next : α → α) (nodes : List α) : Prop := nodes.IsChain fun p q => next p = q

namespace Linked

theorem singleton (next : α → α) (p : α) : Linked next [p] := List.isChain_singleton p

@[simp] theorem cons_cons : Linked next (p :: q :: l) ↔ next p = q ∧ Linked next (q :: l) :=
  List.isChain_cons_cons

theorem split : Linked next (l₁ ++ p :: l₂) ↔ Linked next (l₁ ++ [p]) ∧ Linked next (p :: l₂) :=
  List.isChain_split

theorem tail (h : Linked next (p :: l)) : Linked next l := List.IsChain.tail h

/-- The second node is the successor of the first. -/
theorem head?_tail (h : Linked next (p :: l ++ [q])) : (l ++ [q]).head? = some (next p) := by
  cases l with
  | nil => simp [(cons_cons.mp h).1]
  | cons r l => simp [(cons_cons.mp h).1]

/-- Only the successors of the nodes before the last one matter. -/
theorem congr_concat (h : Linked next (l ++ [p])) (same : ∀ q ∈ l, next' q = next q) :
    Linked next' (l ++ [p]) := by
  induction l with
  | nil => exact singleton next' p
  | cons q l ih =>
    have rest := ih h.tail fun x hx => same x (List.mem_cons_of_mem _ hx)
    have first := same q List.mem_cons_self
    cases l with
    | nil => exact cons_cons.mpr ⟨first.trans (cons_cons.mp h).1, rest⟩
    | cons r l => exact cons_cons.mpr ⟨first.trans (cons_cons.mp h).1, rest⟩

/-- The successor of a node before the last one is a node. -/
theorem next_mem_tail (h : Linked next (l ++ [p])) (hq : q ∈ l) : next q ∈ (l ++ [p]).tail := by
  induction l with
  | nil => simp at hq
  | cons x l ih =>
    rw [List.cons_append, List.tail_cons]
    rcases List.mem_cons.mp hq with rfl | hq
    · cases l with
      | nil => simp [(cons_cons.mp h).1]
      | cons y l => simp [(cons_cons.mp h).1]
    · exact List.mem_of_mem_tail (ih h.tail hq)

theorem congr (h : Linked next l) (same : ∀ q ∈ l, next' q = next q) : Linked next' l :=
  List.IsChain.imp_of_mem_imp (fun p _ hp _ linked => (same p hp).trans linked) h

/-- Replace what stands between the nodes `p` and `q`. -/
theorem splice (h : Linked next (l₁ ++ p :: (m ++ q :: l₂)))
    (before : ∀ x ∈ l₁, next' x = next x) (between : Linked next' (p :: m' ++ [q]))
    (after : ∀ x ∈ q :: l₂, next' x = next x) :
    Linked next' (l₁ ++ p :: (m' ++ q :: l₂)) := by
  obtain ⟨left, rest⟩ := split.mp h
  rw [← List.cons_append] at rest
  have right : Linked next (q :: l₂) := (split.mp rest).2
  refine split.mpr ⟨left.congr_concat before, ?_⟩
  rw [← List.cons_append]
  exact split.mpr ⟨between, right.congr after⟩

end Linked

end Components
