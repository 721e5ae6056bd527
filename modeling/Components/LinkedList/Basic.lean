import Components.Semantics.Machine
import Components.Semantics.While
import Mathlib.Data.Nat.Notation
import Mathlib.Logic.Function.Basic

/-!
# The intrusive list of `list.h`

Memory maps the address of a `struct list_node` to its two pointers, and `NULL` is
address 0. An access through `NULL` is a fault. Every assignment of the source is one
write here, in the order of the source, and every `->` reads memory as it is then: the
neighbours of a node may coincide with each other or with the list itself.

`list_add_after` and `list_add_before` are other names of `list_add_head` and
`list_add_tail`, for an anchor that may be any linked node.

## Main definitions

* `Node`, `Memory` — `struct list_node` and where the nodes are
* `listInitialize`, `listAddHead`, `listDelete` and the other functions
* `Op`, `machine` — runs over any number of lists in one memory
-/

namespace Components.LinkedList

/-- What can go wrong in a call. -/
inductive Fault
  /-- An access through `NULL`. -/
  | nullPointer
  /-- A loop that has not ended within its bound. -/
  | endless
  deriving DecidableEq, Repr

/-- `struct list_node`. -/
@[ext] structure Node where
  prev : ℕ
  next : ℕ
  deriving DecidableEq, Repr

/-- The nodes by their addresses. -/
abbrev Memory := ℕ → Node

/-- Read the node at `p`. -/
def Memory.load (mem : Memory) (p : ℕ) : Except Fault Node :=
  if p = 0 then .error .nullPointer else .ok (mem p)

/-- Write the node at `p`. -/
def Memory.store (mem : Memory) (p : ℕ) (node : Node) : Except Fault Memory :=
  if p = 0 then .error .nullPointer else .ok (Function.update mem p node)

/-- `p->prev = q`. -/
def Memory.setPrev (mem : Memory) (p q : ℕ) : Except Fault Memory := do
  mem.store p { ← mem.load p with prev := q }

/-- `p->next = q`. -/
def Memory.setNext (mem : Memory) (p q : ℕ) : Except Fault Memory := do
  mem.store p { ← mem.load p with next := q }

/-! ### Writing -/

/-- `list_initialize`: `list->prev = list->next = list`. -/
def listInitialize (mem : Memory) (list : ℕ) : Except Fault Memory := do
  let mem ← mem.setNext list list
  mem.setPrev list list

/-- `list_clear_node`: `item->prev = item->next = 0`. -/
def listClearNode (mem : Memory) (item : ℕ) : Except Fault Memory := do
  let mem ← mem.setNext item 0
  mem.setPrev item 0

/-- `list_add_head`, also under the name `list_add_after`. -/
def listAddHead (mem : Memory) (list item : ℕ) : Except Fault Memory := do
  let mem ← mem.setNext item (← mem.load list).next
  let mem ← mem.setPrev item list
  let mem ← mem.setPrev (← mem.load list).next item
  mem.setNext list item

/-- `list_add_tail`, also under the name `list_add_before`. -/
def listAddTail (mem : Memory) (list item : ℕ) : Except Fault Memory := do
  let mem ← mem.setPrev item (← mem.load list).prev
  let mem ← mem.setNext item list
  let mem ← mem.setNext (← mem.load list).prev item
  mem.setPrev list item

/-- `list_delete`. -/
def listDelete (mem : Memory) (item : ℕ) : Except Fault Memory := do
  let mem ← mem.setPrev (← mem.load item).next (← mem.load item).prev
  let mem ← mem.setNext (← mem.load item).prev (← mem.load item).next
  let mem ← mem.setNext item 0
  mem.setPrev item 0

/-- `list_remove_head`, with the node it returns. -/
def listRemoveHead (mem : Memory) (list : ℕ) : Except Fault (Memory × ℕ) := do
  if (← mem.load list).next ≠ list then
    let item := (← mem.load list).next
    return (← listDelete mem item, item)
  else return (mem, 0)

/-- `list_remove_tail`, with the node it returns. -/
def listRemoveTail (mem : Memory) (list : ℕ) : Except Fault (Memory × ℕ) := do
  if (← mem.load list).prev ≠ list then
    let item := (← mem.load list).prev
    return (← listDelete mem item, item)
  else return (mem, 0)

/-! ### Reading -/

/-- `list_in_list`. -/
def listInList (mem : Memory) (item : ℕ) : Except Fault Bool := do
  return !((← mem.load item).prev = 0 && (← mem.load item).next = 0)

/-- `list_peek_head`. -/
def listPeekHead (mem : Memory) (list : ℕ) : Except Fault ℕ := do
  if (← mem.load list).next ≠ list then return (← mem.load list).next else return 0

/-- `list_peek_tail`. -/
def listPeekTail (mem : Memory) (list : ℕ) : Except Fault ℕ := do
  if (← mem.load list).prev ≠ list then return (← mem.load list).prev else return 0

/-- `list_prev`. -/
def listPrev (mem : Memory) (list item : ℕ) : Except Fault ℕ := do
  if (← mem.load item).prev ≠ list then return (← mem.load item).prev else return 0

/-- `list_next`. -/
def listNext (mem : Memory) (list item : ℕ) : Except Fault ℕ := do
  if (← mem.load item).next ≠ list then return (← mem.load item).next else return 0

/-- `list_prev_wrap`: past the list itself. -/
def listPrevWrap (mem : Memory) (list item : ℕ) : Except Fault ℕ := do
  if (← mem.load item).prev ≠ list then return (← mem.load item).prev
  else do
    if (← mem.load (← mem.load item).prev).prev ≠ list then
      return (← mem.load (← mem.load item).prev).prev
    else return 0

/-- `list_next_wrap`: past the list itself. -/
def listNextWrap (mem : Memory) (list item : ℕ) : Except Fault ℕ := do
  if (← mem.load item).next ≠ list then return (← mem.load item).next
  else do
    if (← mem.load (← mem.load item).next).next ≠ list then
      return (← mem.load (← mem.load item).next).next
    else return 0

/-- `list_is_empty`. -/
def listIsEmpty (mem : Memory) (list : ℕ) : Except Fault Bool := do
  return (← mem.load list).next = list

/-- The loop `for (...; node != list; node = node->link) body`, for fewer than `bound`
rounds. -/
def traverse {σ : Type} (link : Node → ℕ) (mem : Memory) (list : ℕ) (body : σ → ℕ → σ) :
    ℕ → ℕ → σ → Except Fault σ
  | 0, _, _ => .error .endless
  | bound + 1, node, s =>
    if node ≠ list then do
      let s := body s node
      traverse link mem list body bound (link (← mem.load node)) s
    else .ok s

/-- `list_for_every`, for a body that leaves memory alone. -/
def listForEvery {σ : Type} (bound : ℕ) (mem : Memory) (list : ℕ) (body : σ → ℕ → σ) (s : σ) :
    Except Fault σ := do
  traverse Node.next mem list body bound (← mem.load list).next s

/-- The same walk along the `prev` pointers. -/
def listForEveryBackward {σ : Type} (bound : ℕ) (mem : Memory) (list : ℕ) (body : σ → ℕ → σ)
    (s : σ) : Except Fault σ := do
  traverse Node.prev mem list body bound (← mem.load list).prev s

/-- `list_length`. -/
def listLength (bound : ℕ) (mem : Memory) (list : ℕ) : Except Fault ℕ :=
  listForEvery bound mem list (fun cnt _ => cnt + 1) 0

/-! ### Runs -/

/-- A call that writes memory. -/
inductive Op
  | init (list : ℕ)
  | clearNode (item : ℕ)
  | addHead (list item : ℕ)
  | addTail (list item : ℕ)
  | addAfter (entry newEntry : ℕ)
  | addBefore (entry newEntry : ℕ)
  | delete (item : ℕ)
  | removeHead (list : ℕ)
  | removeTail (list : ℕ)
  deriving DecidableEq, Repr

/-- Make a call. The result is the node that it returns, if it returns one. -/
def exec (mem : Memory) : Op → Except Fault (Memory × Option ℕ)
  | .init list => do return (← listInitialize mem list, none)
  | .clearNode item => do return (← listClearNode mem item, none)
  | .addHead list item => do return (← listAddHead mem list item, none)
  | .addTail list item => do return (← listAddTail mem list item, none)
  | .addAfter entry newEntry => do return (← listAddHead mem entry newEntry, none)
  | .addBefore entry newEntry => do return (← listAddTail mem entry newEntry, none)
  | .delete item => do return (← listDelete mem item, none)
  | .removeHead list => do
    let (mem, item) ← listRemoveHead mem list
    return (mem, some item)
  | .removeTail list => do
    let (mem, item) ← listRemoveTail mem list
    return (mem, some item)

/-- The calls on one memory. Which calls make sense is up to the lists it holds. -/
def machine : Machine Memory Op (Option ℕ) Fault where
  step := exec
  Allowed _ _ := True

end Components.LinkedList
