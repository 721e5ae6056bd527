import Components.Semantics.Machine
import Components.Semantics.While
import Mathlib.Algebra.Ring.Int.Defs

/-!
# The ring buffer of `loopQueue.c`

The functions and macros of `src/loopQueue`. `lq_size_t` is a 32-bit `int`. Its
arithmetic is checked: a result outside its range, a remainder by zero and an access
outside a buffer are faults, so that a call that completes has met none of them.
Remainders truncate, as `%` does in C.

The handlers get the indices and the buffer of the queue. The add handler may write
the buffer, the get handler the buffer it is to fill, which may be `NULL`. One slot is
kept free, so a queue of `max` slots holds at most `max - 1` elements.

## Main definitions

* `Buffer`, `Ring`, `Lq` — memory, the indices, and the queue with its handlers
* `loopQueueInit` and the ten operations
* `Op`, `machine`, `Reached` — runs of one user and the states they lead to
-/

namespace Components.LoopQueue

variable {α : Type}

/-- What can go wrong in a call. -/
inductive Fault
  | overflow
  | divisionByZero
  | outOfBounds
  deriving DecidableEq, Repr

/-- The result of `loopQueueIsEmpty` and `loopQueueIsFull`. -/
inductive LqState
  | ok
  | full
  | empty
  deriving DecidableEq, Repr

/-! ### `lq_size_t` -/

/-- The largest value of `lq_size_t`. -/
def lqSizeMax : ℤ := 2 ^ 31 - 1

/-- A result in the range of `lq_size_t`. -/
def checked (x : ℤ) : Except Fault ℤ :=
  if -2 ^ 31 ≤ x ∧ x ≤ lqSizeMax then .ok x else .error .overflow

/-- `a + b`. -/
def add (a b : ℤ) : Except Fault ℤ := checked (a + b)

/-- `a - b`. -/
def sub (a b : ℤ) : Except Fault ℤ := checked (a - b)

/-- `a % b`. -/
def mod (a b : ℤ) : Except Fault ℤ :=
  if b = 0 then .error .divisionByZero else checked (a.tmod b)

/-! ### Memory and the queue -/

/-- An array of `size` elements. -/
structure Buffer (α : Type) where
  size : ℕ
  data : ℕ → α

/-- `buffer[i]`. -/
def Buffer.read (buffer : Buffer α) (i : ℤ) : Except Fault α :=
  if 0 ≤ i ∧ i < buffer.size then .ok (buffer.data i.toNat) else .error .outOfBounds

/-- `buffer[i] = x`. -/
def Buffer.write (buffer : Buffer α) (i : ℤ) (x : α) : Except Fault (Buffer α) :=
  if 0 ≤ i ∧ i < buffer.size then
    .ok { buffer with data := Function.update buffer.data i.toNat x }
  else .error .outOfBounds

/-- The indices of a queue and its buffer. -/
structure Ring (α : Type) where
  head : ℤ
  end_ : ℤ
  max : ℤ
  queue : Buffer α

/-- `addOneDataFunc_t`: store `*newData` in the buffer of the queue. -/
abbrev AddOneDataFunc (α : Type) := Ring α → Buffer α → Except Fault (Buffer α)

/-- `getOneDataFunc_t`: fill `recvData` from the buffer of the queue. -/
abbrev GetOneDataFunc (α : Type) :=
  Ring α → Option (Buffer α) → ℤ → Except Fault (Option (Buffer α))

/-- `lq_t`. -/
structure Lq (α : Type) extends Ring α where
  addOneDataFunc : Option (AddOneDataFunc α)
  getOneDataFunc : Option (GetOneDataFunc α)
  userData : ℕ

/-- `defaultAddOneDataFunc`: `arrQueue[lq->end] = *value_p`. -/
def defaultAddOneDataFunc : AddOneDataFunc α := fun lq newData => do
  lq.queue.write lq.end_ (← newData.read 0)

/-- `defaultAeduceOneDataFunc`: `arrRecv[0] = arrQueue[lq->head]`, whatever the index. -/
def defaultAeduceOneDataFunc : GetOneDataFunc α := fun lq recvData _ =>
  match recvData with
  | none => return none
  | some arrRecv => do
    let arrRecv ← arrRecv.write 0 (← lq.queue.read lq.head)
    return some arrRecv

/-- `loopQueueInit`. A `NULL` handler selects the default one. -/
def loopQueueInit (lq : Lq α) (max : ℤ) (queue : Buffer α)
    (addOneDataFunc : Option (AddOneDataFunc α)) (getOneDataFunc : Option (GetOneDataFunc α))
    (userData : ℕ) : Lq α where
  head := 0
  end_ := 0
  max := max
  queue := queue
  addOneDataFunc := some (addOneDataFunc.getD defaultAddOneDataFunc)
  getOneDataFunc := some (getOneDataFunc.getD defaultAeduceOneDataFunc)
  userData := if userData ≠ 0 then userData else lq.userData

/-! ### The macros of `loopQueue.h` -/

/-- `loopQueueIsEmpty`. -/
def loopQueueIsEmpty (lq : Ring α) : LqState := if lq.head = lq.end_ then .empty else .ok

/-- `loopQueueIsFull`. -/
def loopQueueIsFull (lq : Ring α) : Except Fault LqState := do
  let next ← mod (← add lq.end_ 1) lq.max
  return if next = lq.head then .full else .ok

/-- `loopQueueGetUseLength`. -/
def loopQueueGetUseLength (lq : Ring α) : Except Fault ℤ :=
  if lq.end_ ≥ lq.head then sub lq.end_ lq.head
  else do add (← sub lq.max lq.head) lq.end_

/-- `loopQueueGetIdleLength`. -/
def loopQueueGetIdleLength (lq : Ring α) : Except Fault ℤ := do
  sub (← sub lq.max 1) (← loopQueueGetUseLength lq)

/-- `loopQueueNonFullFastAddOne`. -/
def loopQueueNonFullFastAddOne (lq : Lq α) : Except Fault (Lq α) := do
  let next ← mod (← add lq.end_ 1) lq.max
  return { lq with end_ := next }

/-- `loopQueueNonEmptyFastGetOne`. -/
def loopQueueNonEmptyFastGetOne (lq : Lq α) : Except Fault (Lq α) := do
  let next ← mod (← add lq.head 1) lq.max
  return { lq with head := next }

/-- `loopQueueUnknownFullFastAddOne`: a full queue loses its oldest element. -/
def loopQueueUnknownFullFastAddOne (lq : Lq α) : Except Fault (Lq α) := do
  let lq ← loopQueueNonFullFastAddOne lq
  if lq.end_ = lq.head then loopQueueNonEmptyFastGetOne lq else return lq

/-- `loopQueueFastDeleteAll`. -/
def loopQueueFastDeleteAll (lq : Lq α) : Lq α := { lq with head := lq.end_ }

/-! ### The functions of `loopQueue.c` -/

/-- `if (lq->addOneDataFunc) lq->addOneDataFunc(lq, newData)`. -/
def callAddOneDataFunc (lq : Lq α) (newData : Buffer α) : Except Fault (Lq α) :=
  match lq.addOneDataFunc with
  | none => return lq
  | some f => do
    let queue ← f lq.toRing newData
    return { lq with queue := queue }

/-- `if (lq->getOneDataFunc) lq->getOneDataFunc(lq, recvData, i)`. -/
def callGetOneDataFunc (lq : Lq α) (recvData : Option (Buffer α)) (i : ℤ) :
    Except Fault (Option (Buffer α)) :=
  match lq.getOneDataFunc with
  | none => return recvData
  | some f => f lq.toRing recvData i

/-- `loopQueueAddOne`. -/
def loopQueueAddOne (lq : Lq α) (newData : Buffer α) :
    Except Fault (Lq α × ℤ) := do
  if (← loopQueueIsFull lq.toRing) ≠ .full then
    let lq ← callAddOneDataFunc lq newData
    let lq ← loopQueueNonFullFastAddOne lq
    return (lq, 1)
  else return (lq, 0)

/-- `loopQueueForceAddOne`. -/
def loopQueueForceAddOne (lq : Lq α) (newData : Buffer α) :
    Except Fault (Lq α × ℤ) := do
  let lq ← callAddOneDataFunc lq newData
  let lq ← loopQueueUnknownFullFastAddOne lq
  return (lq, 1)

/-- One round of the loop of `loopQueueAddMulti`: the same `newData` every time. -/
def addRound (newData : Buffer α) (_ : ℕ) (lq : Lq α) : Except Fault (Lq α) := do
  let lq ← callAddOneDataFunc lq newData
  loopQueueNonFullFastAddOne lq

/-- One round of the loop of `loopQueueForceAddMulti`. -/
def forceAddRound (newData : Buffer α) (_ : ℕ) (lq : Lq α) : Except Fault (Lq α) := do
  let lq ← callAddOneDataFunc lq newData
  loopQueueUnknownFullFastAddOne lq

/-- One round of the loop of `loopQueueGetMulti`. -/
def getRound (i : ℕ) (state : Lq α × Option (Buffer α)) :
    Except Fault (Lq α × Option (Buffer α)) := do
  let recvData ← callGetOneDataFunc state.1 state.2 i
  let lq ← loopQueueNonEmptyFastGetOne state.1
  return (lq, recvData)

/-- `loopQueueAddMulti`. -/
def loopQueueAddMulti (lq : Lq α) (newData : Buffer α) (multi : ℤ) :
    Except Fault (Lq α × ℤ) := do
  let idle ← loopQueueGetIdleLength lq.toRing
  let idle := if multi < idle then multi else idle
  let lq ← forLoop (addRound newData) idle.toNat lq
  return (lq, idle)

/-- `loopQueueForceAddMulti`. -/
def loopQueueForceAddMulti (lq : Lq α) (newData : Buffer α) (multi : ℤ) :
    Except Fault (Lq α × ℤ) := do
  let lq ← forLoop (forceAddRound newData) multi.toNat lq
  return (lq, multi)

/-- `loopQueueGetOne`: steps past the head without calling the handler. -/
def loopQueueGetOne (lq : Lq α) (recvData : Option (Buffer α)) :
    Except Fault (Lq α × Option (Buffer α) × ℤ) :=
  if loopQueueIsEmpty lq.toRing = .empty then return (lq, recvData, 0)
  else do
    let lq ← loopQueueNonEmptyFastGetOne lq
    return (lq, recvData, 1)

/-- `loopQueueGetMulti`. -/
def loopQueueGetMulti (lq : Lq α) (recvData : Option (Buffer α)) (recvSize : ℤ) :
    Except Fault (Lq α × Option (Buffer α) × ℤ) := do
  let use ← loopQueueGetUseLength lq.toRing
  let use := if recvSize < use then recvSize else use
  let (lq, recvData) ← forLoop getRound use.toNat (lq, recvData)
  return (lq, recvData, use)

/-- `loopQueueInspectMulti`. -/
def loopQueueInspectMulti (lq : Lq α) (recvData : Option (Buffer α)) (recvSize : ℤ) :
    Except Fault (Lq α × Option (Buffer α) × ℤ) := do
  let use ← loopQueueGetUseLength lq.toRing
  let use := if recvSize < use then recvSize else use
  let recvData ← forLoop (fun i recvData => callGetOneDataFunc lq recvData i) use.toNat recvData
  return (lq, recvData, use)

/-- `loopQueueInspectDelete`. -/
def loopQueueInspectDelete (lq : Lq α) (inspectMulti : ℤ) :
    Except Fault (Lq α × ℤ) := do
  let lq ← forLoop (fun _ lq => loopQueueNonEmptyFastGetOne lq) inspectMulti.toNat lq
  return (lq, inspectMulti)

/-- `loopQueueDeleteMulti`. -/
def loopQueueDeleteMulti (lq : Lq α) (multi : ℤ) : Except Fault (Lq α × ℤ) := do
  let use ← loopQueueGetUseLength lq.toRing
  let use := if multi < use then multi else use
  let lq ← forLoop (fun _ lq => loopQueueNonEmptyFastGetOne lq) use.toNat lq
  return (lq, use)

/-- `loopQueueDeleteAll`. -/
def loopQueueDeleteAll (lq : Lq α) : Lq α := loopQueueFastDeleteAll lq

/-! ### Runs -/

/-- The calls of one user. -/
inductive Op (α : Type)
  | addOne (newData : Buffer α)
  | forceAddOne (newData : Buffer α)
  | addMulti (newData : Buffer α) (multi : ℤ)
  | forceAddMulti (newData : Buffer α) (multi : ℤ)
  | getOne (recvData : Option (Buffer α))
  | getMulti (recvData : Option (Buffer α)) (recvSize : ℤ)
  | inspectMulti (recvData : Option (Buffer α)) (recvSize : ℤ)
  | inspectDelete (multi : ℤ)
  | deleteMulti (multi : ℤ)
  | deleteAll

namespace Op

/-- Make the call. The result is the count it returns, and `0` for `loopQueueDeleteAll`. -/
def exec (lq : Lq α) : Op α → Except Fault (Lq α × ℤ)
  | addOne newData => loopQueueAddOne lq newData
  | forceAddOne newData => loopQueueForceAddOne lq newData
  | addMulti newData multi => loopQueueAddMulti lq newData multi
  | forceAddMulti newData multi => loopQueueForceAddMulti lq newData multi
  | getOne recvData => do
    let (lq, _, count) ← loopQueueGetOne lq recvData
    return (lq, count)
  | getMulti recvData recvSize => do
    let (lq, _, count) ← loopQueueGetMulti lq recvData recvSize
    return (lq, count)
  | inspectMulti recvData recvSize => do
    let (lq, _, count) ← loopQueueInspectMulti lq recvData recvSize
    return (lq, count)
  | inspectDelete multi => loopQueueInspectDelete lq multi
  | deleteMulti multi => loopQueueDeleteMulti lq multi
  | deleteAll => return (loopQueueDeleteAll lq, 0)

end Op

/-- A count a caller may pass. -/
def Count (n : ℤ) : Prop := 0 ≤ n ∧ n ≤ lqSizeMax

/-- A pointer to at least one element, or `NULL`. -/
def Room (recvData : Option (Buffer α)) : Prop := ∀ arrRecv ∈ recvData, 0 < arrRecv.size

instance (n : ℤ) : Decidable (Count n) := inferInstanceAs (Decidable (_ ∧ _))

instance (recvData : Option (Buffer α)) : Decidable (Room recvData) :=
  match recvData with
  | none => isTrue (by simp [Room])
  | some arrRecv => decidable_of_iff (0 < arrRecv.size) (by simp [Room])

/-- What a caller of a queue in which `use` elements are stored may ask for. -/
def Op.Allowed (use : ℤ) : Op α → Prop
  | addOne newData | forceAddOne newData => 0 < newData.size
  | addMulti newData multi | forceAddMulti newData multi => 0 < newData.size ∧ Count multi
  | getOne _ | deleteAll => True
  | getMulti recvData recvSize | inspectMulti recvData recvSize => Room recvData ∧ Count recvSize
  | inspectDelete multi => 0 ≤ multi ∧ multi ≤ use
  | deleteMulti multi => Count multi

instance (use : ℤ) (op : Op α) : Decidable (op.Allowed use) :=
  match op with
  | .addOne _ | .forceAddOne _ => inferInstanceAs (Decidable (_ < _))
  | .addMulti _ _ | .forceAddMulti _ _ | .getMulti _ _ | .inspectMulti _ _ | .inspectDelete _ =>
    inferInstanceAs (Decidable (_ ∧ _))
  | .getOne _ | .deleteAll => inferInstanceAs (Decidable True)
  | .deleteMulti _ => inferInstanceAs (Decidable (Count _))

/-- Runs of one user. -/
def machine (α : Type) : Machine (Lq α) (Op α) ℤ Fault where
  step := Op.exec
  Allowed lq op := ∃ use, loopQueueGetUseLength lq.toRing = .ok use ∧ op.Allowed use

instance (lq : Lq α) (op : Op α) : Decidable ((machine α).Allowed lq op) :=
  match known : loopQueueGetUseLength lq.toRing with
  | .ok use => decidable_of_iff (op.Allowed use) (by simp [machine, known])
  | .error _ => isFalse (by simp [machine, known])

/-- A queue that `loopQueueInit` set up with these handlers, after calls that were all
allowed and completed. -/
def Reached (addOneDataFunc : Option (AddOneDataFunc α))
    (getOneDataFunc : Option (GetOneDataFunc α)) (lq : Lq α) : Prop :=
  ∃ (lq₀ : Lq α) (max : ℤ) (queue : Buffer α) (userData : ℕ) (ops : List (Op α))
    (results : List ℤ), 1 ≤ max ∧ max ≤ lqSizeMax ∧ (queue.size : ℤ) = max ∧
    (machine α).Admissible
      (loopQueueInit lq₀ max queue addOneDataFunc getOneDataFunc userData) ops ∧
    (machine α).run (loopQueueInit lq₀ max queue addOneDataFunc getOneDataFunc userData) ops =
      .ok (lq, results)

end Components.LoopQueue
