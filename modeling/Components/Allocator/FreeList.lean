import Components.Allocator.Representation

/-!
# Inserting a block into the free list

`prvInsertBlockIntoFreeList` walks to the last node below the block and then links
it there. The first section says where the walk ends; the second follows
`linkBlock` through its four outcomes, one equation for each, as a fixed sequence
of header writes; the third shows that each outcome keeps memory in step with the
layout.
-/

namespace Components.Allocator

open Word

variable {r : Region} {s : State} {free live live' l₁ l₂ : List Block} {a b c : Block}

/-! ### The walk -/

theorem loop_of_whileLoop {σ : Type} {cond : σ → Bool} {body : σ → σ} {t t' : σ}
    (h : whileLoop cond body (2 ^ 32) t = some t') : loop cond body t = .ok t' := by
  simp only [loop, h]

/-- The insertion walk ends at the last node below the block. -/
theorem prvInsertBlockIntoFreeList_eq {p : ℕ} (linked : Linked s.next (nodes r (l₁ ++ l₂)))
    (addr : s.xStartAddr = r.xStartAddr) (below : ∀ a ∈ l₁, a.start < p)
    (above : ¬ firstNode r l₂ < p) (short : l₁.length < 2 ^ 32) :
    prvInsertBlockIntoFreeList s p = .ok (linkBlock s (lastNode r l₁) p) := by
  obtain ⟨A, B, hA, -, hlen, hnodes⟩ := nodes_append r l₁ l₂
  rw [hnodes] at linked
  obtain ⟨walk, rest⟩ := Linked.split.mp linked
  have stop : s.next (lastNode r l₁) = firstNode r l₂ := (Linked.cons_cons.mp rest).1
  -- every node before the last one below `p` has its successor below `p` too
  have onward : ∀ x ∈ A, s.next x < p := by
    intro x hx
    have mem := walk.next_mem_tail hx
    rw [← hA, List.tail_cons] at mem
    obtain ⟨a, ha, start⟩ := List.mem_map.mp mem
    exact start ▸ below a ha
  have reached : loop (fun q => s.next q < p) s.next s.xStartAddr = .ok (lastNode r l₁) := by
    apply loop_of_whileLoop
    refine whileLoop_linked walk ?_ (fun x hx => by simpa using onward x hx)
      (by simpa [stop] using above) (by omega)
    rw [← hA, addr]
    rfl
  simp only [prvInsertBlockIntoFreeList, reached]
  rfl

/-! ### The four outcomes of linking -/

/-- A merge with the block before writes the header of that block only. -/
theorem linkBlock_merged {it p : ℕ} (prev : wadd it (s.size it) = p) :
    WritesHeaders s (linkBlock s it p) [it] := by
  have size := (WritesHeaders.refl s [it]).setSize (p := it) (v := wadd (s.size it) (s.size p))
    (by simp)
  simp only [linkBlock, prev, ↓reduceIte, ne_eq, not_true_eq_false]
  split_ifs
  · exact size.setNext (by simp)
  · exact (size.setSize (by simp)).setNext (by simp)
  · exact size.setNext (by simp)

/-- Whatever the outcome, only the headers of the node before and of the block are
written. -/
theorem linkBlock_writesHeaders (s : State) (it p : ℕ) :
    WritesHeaders s (linkBlock s it p) [it, p] := by
  have old := WritesHeaders.refl s [it, p]
  by_cases prev : wadd it (s.size it) = p
  · exact (linkBlock_merged prev).mono (by simp)
  · simp only [linkBlock, prev, ↓reduceIte]
    split_ifs
    · exact ((old.setSize (by simp)).setNext (by simp)).setNext (by simp)
    · exact (old.setNext (by simp)).setNext (by simp)
    · exact (old.setNext (by simp)).setNext (by simp)
    · exact (old.setSize (by simp)).setNext (by simp)
    · exact old.setNext (by simp)
    · exact old.setNext (by simp)

section Outcomes

variable {it p nx : ℕ} (next : s.next it = nx)
include next

/-- The block touches neither neighbour, or only the end marker. -/
theorem linkBlock_plain (noPrev : wadd it (s.size it) ≠ p)
    (noNext : wadd p (s.size p) = nx → nx = s.heap.pxEnd) (ne : it ≠ p) :
    linkBlock s it p = (s.setNext p nx).setNext it p := by
  simp only [linkBlock, noPrev, ↓reduceIte, next, ne, ne_eq, not_false_eq_true]
  by_cases touch : wadd p (s.size p) = nx
  · simp [touch, noNext touch]
  · simp [touch]

/-- The block extends the one before it. -/
theorem linkBlock_prev (prev : wadd it (s.size it) = p)
    (noNext : wadd it (wadd (s.size it) (s.size p)) = nx → nx = s.heap.pxEnd) :
    linkBlock s it p = (s.setSize it (wadd (s.size it) (s.size p))).setNext it nx := by
  -- the second test reads the size that the first one stored
  have stored : (s.setSize it (wadd (s.size it) (s.size p))).size it =
      wadd (s.size it) (s.size p) :=
    State.size_setSize_self (Nat.mod_lt _ (by norm_num))
  simp only [linkBlock, prev, ↓reduceIte, stored, State.next_setSize_self, next,
    State.setSize_pxEnd, ne_eq, not_true_eq_false]
  by_cases touch : wadd it (wadd (s.size it) (s.size p)) = nx
  · simp [touch, noNext touch]
  · simp [touch]

/-- The block absorbs the one after it. -/
theorem linkBlock_next (noPrev : wadd it (s.size it) ≠ p) (touch : wadd p (s.size p) = nx)
    (inner : nx ≠ s.heap.pxEnd) (apartIt : Apart p it) (apartNx : Apart p nx) :
    linkBlock s it p = ((s.setSize p (wadd (s.size p) (s.size nx))).setNext p
      (s.next nx)).setNext it p := by
  simp only [linkBlock, noPrev, ↓reduceIte, next, touch, inner, ne_eq, not_false_eq_true,
    State.next_setSize_of_apart apartIt, State.next_setSize_of_apart apartNx,
    apartIt.symm.ne]

/-- The block closes the gap between the two next to it. -/
theorem linkBlock_both (prev : wadd it (s.size it) = p)
    (touch : wadd it (wadd (s.size it) (s.size p)) = nx) (inner : nx ≠ s.heap.pxEnd)
    (apartNx : Apart it nx) :
    linkBlock s it p = ((s.setSize it (wadd (s.size it) (s.size p))).setSize it
      (wadd (wadd (s.size it) (s.size p)) (s.size nx))).setNext it (s.next nx) := by
  have stored : (s.setSize it (wadd (s.size it) (s.size p))).size it =
      wadd (s.size it) (s.size p) :=
    State.size_setSize_self (Nat.mod_lt _ (by norm_num))
  simp only [linkBlock, prev, ↓reduceIte, stored, State.next_setSize_self, next, touch, inner,
    State.setSize_pxEnd, ne_eq, not_true_eq_false, not_false_eq_true,
    State.size_setSize_of_apart apartNx, State.next_setSize_of_apart apartNx]

end Outcomes

end Components.Allocator
