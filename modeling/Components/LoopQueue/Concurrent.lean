import Components.LoopQueue.Basic
import Components.Math.Circular

/-!
# One producer and one consumer

The queue is shared by a thread that only adds and a thread that only gets or deletes,
without a lock. Every read or write of `head`, of `end` and of a slot is one atomic
step, and the steps of the two threads interleave freely. Each thread stands at one of
its accesses with what it has read so far in its registers. Operands are evaluated from
left to right, which is no restriction: one of them is always the index that only the
thread itself writes. Arithmetic on `lq_size_t` wraps as compiled code does.

`loopQueueGetUseLength` reads both indices twice and may combine an old value of the
other thread's index with a new one. What keeps the queue safe is that such a mixed
reading never overestimates: the producer never sees more room, and the consumer never
more elements, than there are.

The history variables `stored`, `passed` and `reads` record what the producer wrote to
slots, what stood in the slots the consumer stepped past, and what the get handler read
together with the number of elements passed before. What was stored are copies of the
values of the calls, in the order of the calls.

## Main definitions

* `Producer`, `Consumer` — where a thread stands
* `Spsc`, `Event`, `spsc` — the two threads over the shared queue
* `Inv` — the invariant, with the number of published elements
* `StoredBy`, `Writes` — what was stored, and the calls that stored it

## Main results

* `Inv.produce`, `Inv.consume` — every step of either thread keeps the invariant
* `Writes.step` — so does what was stored by calls
* `spsc_safety` — what the consumer passes is a prefix of what the producer stored
-/

namespace Components.LoopQueue

open Circular

variable {α : Type}

/-- A result of `lq_size_t` arithmetic. -/
def wrap (x : ℤ) : ℤ := x.bmod (2 ^ 32)

/-- The shared queue. -/
structure Shared (α : Type) where
  head : ℤ
  end_ : ℤ
  slots : ℕ → α

/-- The access the producer makes next. -/
inductive Producer (α : Type)
  /-- Between two calls. -/
  | returned
  /-- `loopQueueIsFull`: read `end`, then `head`. -/
  | fullEnd (v : α)
  | fullHead (v : α) (end_ : ℤ)
  /-- `loopQueueGetUseLength`: the comparison `end >= head`. -/
  | compareEnd (v : α) (multi : ℤ)
  | compareHead (v : α) (multi : ℤ) (end_ : ℤ)
  /-- Its first branch, `end - head`. -/
  | geEnd (v : α) (multi : ℤ)
  | geHead (v : α) (multi : ℤ) (end_ : ℤ)
  /-- Its second branch, `(max - head) + end`. -/
  | ltHead (v : α) (multi : ℤ)
  | ltEnd (v : α) (multi : ℤ) (head : ℤ)
  /-- The add handler: read `end`, then write the slot. -/
  | storeEnd (v : α) (i idle : ℤ)
  | storeSlot (v : α) (i idle : ℤ) (end_ : ℤ)
  /-- `loopQueueNonFullFastAddOne`: read `end`, then write it. -/
  | bumpRead (v : α) (i idle : ℤ)
  | bumpWrite (v : α) (i idle : ℤ) (end_ : ℤ)
  deriving DecidableEq

/-- The access the consumer makes next. `handler` tells whether the get handler is
called in every round. -/
inductive Consumer
  /-- Between two calls. -/
  | returned
  /-- `loopQueueIsEmpty`: read `head`, then `end`. -/
  | emptyHead
  | emptyEnd (head : ℤ)
  /-- `loopQueueGetUseLength`: the comparison `end >= head`. -/
  | compareEnd (handler : Bool) (count : ℤ)
  | compareHead (handler : Bool) (count : ℤ) (end_ : ℤ)
  /-- Its first branch, `end - head`. -/
  | geEnd (handler : Bool) (count : ℤ)
  | geHead (handler : Bool) (count : ℤ) (end_ : ℤ)
  /-- Its second branch, `(max - head) + end`. -/
  | ltHead (handler : Bool) (count : ℤ)
  | ltEnd (handler : Bool) (count : ℤ) (head : ℤ)
  /-- The get handler: read `head`, then the slot. -/
  | handleHead (i use : ℤ)
  | handleSlot (i use : ℤ) (head : ℤ)
  /-- `loopQueueNonEmptyFastGetOne`: read `head`, then write it. -/
  | bumpRead (handler : Bool) (i use : ℤ)
  | bumpWrite (handler : Bool) (i use : ℤ) (head : ℤ)
  deriving DecidableEq

/-- The two threads, the queue, and what happened. -/
structure Spsc (α : Type) where
  shared : Shared α
  producer : Producer α
  consumer : Consumer
  /-- What the producer wrote to slots, in order. -/
  stored : List α
  /-- What stood in the slots the consumer stepped past, in order. -/
  passed : List α
  /-- What the get handler read, with the number of elements passed before. -/
  reads : List (ℕ × α)

/-! ### Steps -/

/-- The loop test of the producer. -/
def addLoop (v : α) (i idle : ℤ) : Producer α := if i < idle then .storeEnd v i idle else .returned

/-- `loopQueueAddMulti` from the use length on. -/
def addFrom (max : ℤ) (v : α) (multi use : ℤ) : Producer α :=
  let idle := wrap (wrap (max - 1) - use)
  addLoop v 0 (if multi < idle then multi else idle)

/-- The loop test of the consumer. -/
def getLoop (handler : Bool) (i use : ℤ) : Consumer :=
  if i < use then if handler then .handleHead i use else .bumpRead handler i use else .returned

/-- `loopQueueGetMulti` and `loopQueueDeleteMulti` from the use length on. -/
def getFrom (handler : Bool) (count use : ℤ) : Consumer :=
  getLoop handler 0 (if count < use then count else use)

/-- One access of the producer. -/
def produce (max : ℤ) (t : Spsc α) : Spsc α :=
  match t.producer with
  | .returned => t
  | .fullEnd v => { t with producer := .fullHead v t.shared.end_ }
  -- `loopQueueAddOne` is one round of the loop
  | .fullHead v e =>
    { t with producer :=
        if (wrap (e + 1)).tmod max = t.shared.head then .returned else .storeEnd v 0 1 }
  | .compareEnd v n => { t with producer := .compareHead v n t.shared.end_ }
  | .compareHead v n e =>
    { t with producer := if e ≥ t.shared.head then .geEnd v n else .ltHead v n }
  | .geEnd v n => { t with producer := .geHead v n t.shared.end_ }
  | .geHead v n e => { t with producer := addFrom max v n (wrap (e - t.shared.head)) }
  | .ltHead v n => { t with producer := .ltEnd v n t.shared.head }
  | .ltEnd v n h =>
    { t with producer := addFrom max v n (wrap (wrap (max - h) + t.shared.end_)) }
  | .storeEnd v i idle => { t with producer := .storeSlot v i idle t.shared.end_ }
  -- the slot is not part of the queue before `end` has moved
  | .storeSlot v i idle e =>
    { t with
      shared := { t.shared with slots := Function.update t.shared.slots e.toNat v }
      producer := .bumpRead v i idle
      stored := t.stored ++ [v] }
  | .bumpRead v i idle => { t with producer := .bumpWrite v i idle t.shared.end_ }
  | .bumpWrite v i idle e =>
    { t with
      shared := { t.shared with end_ := (wrap (e + 1)).tmod max }
      producer := addLoop v (i + 1) idle }

/-- One access of the consumer. -/
def consume (max : ℤ) (t : Spsc α) : Spsc α :=
  match t.consumer with
  | .returned => t
  | .emptyHead => { t with consumer := .emptyEnd t.shared.head }
  | .emptyEnd h =>
    { t with consumer := if h = t.shared.end_ then .returned else .bumpRead false 0 1 }
  | .compareEnd r n => { t with consumer := .compareHead r n t.shared.end_ }
  | .compareHead r n e =>
    { t with consumer := if e ≥ t.shared.head then .geEnd r n else .ltHead r n }
  | .geEnd r n => { t with consumer := .geHead r n t.shared.end_ }
  | .geHead r n e => { t with consumer := getFrom r n (wrap (e - t.shared.head)) }
  | .ltHead r n => { t with consumer := .ltEnd r n t.shared.head }
  | .ltEnd r n h => { t with consumer := getFrom r n (wrap (wrap (max - h) + t.shared.end_)) }
  | .handleHead i use => { t with consumer := .handleSlot i use t.shared.head }
  | .handleSlot i use h =>
    { t with
      consumer := .bumpRead true i use
      reads := t.reads ++ [(t.passed.length, t.shared.slots h.toNat)] }
  | .bumpRead r i use => { t with consumer := .bumpWrite r i use t.shared.head }
  -- from here on the producer may write the slot again
  | .bumpWrite r i use h =>
    { t with
      shared := { t.shared with head := (wrap (h + 1)).tmod max }
      consumer := getLoop r (i + 1) use
      passed := t.passed ++ [t.shared.slots h.toNat] }

/-- A thread starts a call or makes its next access. -/
inductive Event (α : Type)
  | addOne (v : α)
  | addMulti (v : α) (multi : ℤ)
  | getOne
  | getMulti (recvSize : ℤ)
  | deleteMulti (multi : ℤ)
  | produce
  | consume

/-- A thread starts a call when its last one has returned. -/
def Event.Allowed (t : Spsc α) : Event α → Prop
  | .addOne _ => t.producer = .returned
  | .addMulti _ multi => t.producer = .returned ∧ Count multi
  | .getOne => t.consumer = .returned
  | .getMulti count | .deleteMulti count => t.consumer = .returned ∧ Count count
  | .produce | .consume => True

instance [DecidableEq α] (t : Spsc α) (event : Event α) : Decidable (event.Allowed t) :=
  match event with
  | .addOne _ => inferInstanceAs (Decidable (t.producer = .returned))
  | .addMulti _ multi => inferInstanceAs (Decidable (t.producer = .returned ∧ Count multi))
  | .getOne => inferInstanceAs (Decidable (t.consumer = .returned))
  | .getMulti count | .deleteMulti count =>
    inferInstanceAs (Decidable (t.consumer = .returned ∧ Count count))
  | .produce | .consume => isTrue trivial

/-- Interleaved steps of the two threads. -/
def Spsc.step (max : ℤ) (t : Spsc α) : Event α → Spsc α
  | .addOne v => { t with producer := .fullEnd v }
  | .addMulti v multi => { t with producer := .compareEnd v multi }
  | .getOne => { t with consumer := .emptyHead }
  | .getMulti recvSize => { t with consumer := .compareEnd true recvSize }
  | .deleteMulti multi => { t with consumer := .compareEnd false multi }
  | .produce => LoopQueue.produce max t
  | .consume => LoopQueue.consume max t

/-- The two threads as a machine, which has no faults. -/
def spsc (α : Type) (max : ℤ) : Machine (Spsc α) (Event α) Unit Empty where
  step t event := .ok (t.step max event, ())
  Allowed t event := event.Allowed t

instance [DecidableEq α] (max : ℤ) (t : Spsc α) (event : Event α) :
    Decidable ((spsc α max).Allowed t event) :=
  inferInstanceAs (Decidable (event.Allowed t))

/-- After `loopQueueInit`, before the first call. -/
def Spsc.start (slots : ℕ → α) : Spsc α := ⟨⟨0, 0, slots⟩, .returned, .returned, [], [], []⟩

/-! ### The invariant -/

/-- Has the producer written a slot that it has not published yet? -/
def Producer.pending : Producer α → ℕ
  | .bumpRead .. | .bumpWrite .. => 1
  | _ => 0

/-- What the registers of the producer say, when `e` elements are published and `h`
passed. In the loop it has no more rounds to go than there is room. -/
def Producer.Knows (m e h : ℕ) : Producer α → Prop
  | .returned | .fullEnd _ | .compareEnd _ _ | .ltHead _ _ => True
  | .fullHead _ end_ | .compareHead _ _ end_ => end_ = (e % m : ℕ)
  | .geEnd _ _ => e / m ≤ h / m
  | .geHead _ _ end_ => end_ = (e % m : ℕ) ∧ e / m ≤ h / m
  | .ltEnd _ _ head => ∃ k ≤ h, e < k + m ∧ head = (k % m : ℕ)
  | .storeEnd _ i idle | .bumpRead _ i idle => i < idle ∧ idle - i ≤ h + m - 1 - e
  | .storeSlot _ i idle end_ | .bumpWrite _ i idle end_ =>
    (i < idle ∧ idle - i ≤ h + m - 1 - e) ∧ end_ = (e % m : ℕ)

/-- What the registers of the consumer say. In the loop it has no more rounds to go
than there are published elements. -/
def Consumer.Knows (m e h : ℕ) : Consumer → Prop
  | .returned | .emptyHead | .compareEnd _ _ | .geEnd _ _ => True
  | .emptyEnd head => head = (h % m : ℕ)
  | .compareHead _ _ end_ | .geHead _ _ end_ => ∃ k, h ≤ k ∧ k ≤ e ∧ end_ = (k % m : ℕ)
  | .ltHead _ _ => h / m + 1 ≤ e / m
  | .ltEnd _ _ head => head = (h % m : ℕ) ∧ h / m + 1 ≤ e / m
  | .handleHead i use | .bumpRead _ i use => i < use ∧ use - i ≤ e - h
  | .handleSlot i use head | .bumpWrite _ i use head =>
    (i < use ∧ use - i ≤ e - h) ∧ head = (h % m : ℕ)

/-- The invariant, for a queue of `m` slots with `e` elements published. -/
structure Inv (m e : ℕ) (t : Spsc α) : Prop where
  large : (m : ℤ) ≤ lqSizeMax
  low : t.passed.length ≤ e
  high : e < t.passed.length + m
  head : t.shared.head = (t.passed.length % m : ℕ)
  end_ : t.shared.end_ = (e % m : ℕ)
  stored : t.stored.length = e + t.producer.pending
  passed : t.passed <+: t.stored
  window : Window m t.shared.slots t.passed.length (t.stored.drop t.passed.length)
  reads : ∀ entry ∈ t.reads, t.stored[entry.1]? = some entry.2
  producer : t.producer.Knows m e t.passed.length
  consumer : t.consumer.Knows m e t.passed.length

/-! ### Arithmetic -/

section Arithmetic

variable {m e h k : ℕ} {v : α} {i n idle use : ℤ}

theorem wrap_eq {x : ℤ} (low : -2 ^ 31 ≤ x) (high : x ≤ lqSizeMax) : wrap x = x := by
  unfold lqSizeMax at high
  exact Int.bmod_eq_of_le (by norm_num; omega) (by norm_num; omega)

theorem wrap_wrap_add (x y : ℤ) : wrap (wrap x + y) = wrap (x + y) := Int.bmod_add_bmod

theorem wrap_wrap_sub_wrap (x y : ℤ) : wrap (wrap x - wrap y) = wrap (x - y) := by
  unfold wrap
  rw [Int.bmod_sub_bmod, Int.sub_bmod_bmod]

/-- The next index. -/
theorem wrap_succ_tmod (pos : 0 < m) (large : (m : ℤ) ≤ lqSizeMax) (i : ℕ) :
    (wrap (((i % m : ℕ) : ℤ) + 1)).tmod m = ((i + 1) % m : ℕ) := by
  have lt := Nat.mod_lt i pos
  have cast : ((i % m : ℕ) : ℤ) + 1 = ((i % m + 1 : ℕ) : ℤ) := by push_cast; ring
  rw [wrap_eq (by omega) (by omega), cast, ← Int.ofNat_tmod, succ_mod]

theorem addLoop_knows (bound : idle - i ≤ h + m - 1 - e) : (addLoop v i idle).Knows m e h := by
  unfold addLoop
  split_ifs with more
  · exact ⟨more, bound⟩
  · trivial

theorem addLoop_pending : (addLoop v i idle).pending = 0 := by
  unfold addLoop
  split_ifs <;> rfl

theorem addFrom_knows (bound : wrap (wrap ((m : ℤ) - 1) - use) ≤ h + m - 1 - e) :
    (addFrom m v n use).Knows m e h := by
  unfold addFrom
  apply addLoop_knows
  split_ifs <;> omega

theorem getLoop_knows {handler : Bool} (bound : use - i ≤ e - h) :
    (getLoop handler i use).Knows m e h := by
  unfold getLoop
  split_ifs with more
  · exact ⟨more, bound⟩
  · exact ⟨more, bound⟩
  · trivial

theorem getFrom_knows {handler : Bool} (bound : use ≤ e - h) :
    (getFrom handler n use).Knows m e h := by
  unfold getFrom
  apply getLoop_knows
  split_ifs <;> omega

variable (low : h ≤ e) (high : e < h + m) (large : (m : ℤ) ≤ lqSizeMax)
include low high large

/-- The first branch, taken by the producer in the same round as the head: the room is
what it seems, whatever the head did since the comparison. -/
theorem idle_ge (round : e / m ≤ h / m) :
    wrap (wrap ((m : ℤ) - 1) - wrap (((e % m : ℕ) : ℤ) - (h % m : ℕ))) ≤ h + m - 1 - e := by
  have divE := Nat.div_add_mod e m
  have divH := Nat.div_add_mod h m
  have ltE := Nat.mod_lt e (show 0 < m by omega)
  have rounds : e / m = h / m := le_antisymm round (Nat.div_le_div_right low)
  rw [rounds] at divE
  rw [wrap_wrap_sub_wrap, wrap_eq (by omega) (by omega)]
  omega

omit low in
/-- The second branch, taken by the producer with a head read at `k ≤ h`: it cannot see
more room than there was then. -/
theorem idle_lt (before : k ≤ h) (seen : e < k + m) (low : h ≤ e) :
    wrap (wrap ((m : ℤ) - 1) - wrap (wrap ((m : ℤ) - (k % m : ℕ)) + (e % m : ℕ))) ≤
      h + m - 1 - e := by
  have pos : 0 < m := by omega
  have divE := Nat.div_add_mod e m
  have divK := Nat.div_add_mod k m
  have ltE := Nat.mod_lt e pos
  have ltK := Nat.mod_lt k pos
  have sum : (m : ℤ) - 1 - ((m : ℤ) - (k % m : ℕ) + (e % m : ℕ)) =
      (k % m : ℕ) - (e % m : ℕ) - 1 := by ring
  unfold lqSizeMax at large
  rw [wrap_wrap_add, wrap_wrap_sub_wrap, sum, wrap_eq (by omega) (by unfold lqSizeMax; omega)]
  -- the end is in the round of the head that was read, or in the next one
  rcases round_cases (before.trans low) seen with same | next
  · rw [same] at divE
    omega
  · rw [next, Nat.mul_add] at divE
    omega

/-- The first branch, taken by the consumer with an end read at `e`: it cannot see more
elements than there are. -/
theorem use_ge : wrap (((e % m : ℕ) : ℤ) - (h % m : ℕ)) ≤ e - h := by
  have pos : 0 < m := by omega
  have divE := Nat.div_add_mod e m
  have divH := Nat.div_add_mod h m
  have ltE := Nat.mod_lt e pos
  have ltH := Nat.mod_lt h pos
  unfold lqSizeMax at large
  rw [wrap_eq (by omega) (by unfold lqSizeMax; omega)]
  -- in the next round the difference is negative
  rcases round_cases low high with same | next
  · rw [same] at divE
    omega
  · rw [next, Nat.mul_add] at divE
    omega

/-- The second branch, taken by the consumer once the end is a round ahead. -/
theorem use_lt (round : h / m + 1 ≤ e / m) :
    wrap (wrap ((m : ℤ) - (h % m : ℕ)) + (e % m : ℕ)) ≤ e - h := by
  have pos : 0 < m := by omega
  have divE := Nat.div_add_mod e m
  have divH := Nat.div_add_mod h m
  have ltE := Nat.mod_lt e pos
  have ltH := Nat.mod_lt h pos
  have next : e / m = h / m + 1 := le_antisymm (div_le_succ low high) round
  rw [next, Nat.mul_add] at divE
  rw [wrap_wrap_add, wrap_eq (by omega) (by omega)]
  omega

end Arithmetic

/-! ### What one thread knows survives the steps of the other -/

theorem Producer.Knows.pass {m e h : ℕ} {p : Producer α} (knows : p.Knows m e h) :
    p.Knows m e (h + 1) := by
  have rounds : h / m ≤ (h + 1) / m := Nat.div_le_div_right (Nat.le_succ h)
  -- more elements passed only means more room than the producer counts on
  cases p with
  | returned => trivial
  | fullEnd v => trivial
  | fullHead v end_ => exact knows
  | compareEnd v multi => trivial
  | compareHead v multi end_ => exact knows
  | geEnd v multi => exact Nat.le_trans knows rounds
  | geHead v multi end_ => exact ⟨knows.1, knows.2.trans rounds⟩
  | ltHead v multi => trivial
  | ltEnd v multi head =>
    obtain ⟨k, before, seen, read⟩ := knows
    exact ⟨k, before.trans (Nat.le_succ h), seen, read⟩
  | storeEnd v i idle => exact ⟨knows.1, knows.2.trans (by push_cast; omega)⟩
  | storeSlot v i idle end_ =>
    exact ⟨⟨knows.1.1, knows.1.2.trans (by push_cast; omega)⟩, knows.2⟩
  | bumpRead v i idle => exact ⟨knows.1, knows.2.trans (by push_cast; omega)⟩
  | bumpWrite v i idle end_ =>
    exact ⟨⟨knows.1.1, knows.1.2.trans (by push_cast; omega)⟩, knows.2⟩

theorem Consumer.Knows.publish {m e h : ℕ} {c : Consumer} (knows : c.Knows m e h) :
    c.Knows m (e + 1) h := by
  have rounds : e / m ≤ (e + 1) / m := Nat.div_le_div_right (Nat.le_succ e)
  -- more elements published only means more than the consumer counts on
  cases c with
  | returned => trivial
  | emptyHead => trivial
  | emptyEnd head => exact knows
  | compareEnd handler count => trivial
  | compareHead handler count end_ =>
    obtain ⟨k, after, seen, read⟩ := knows
    exact ⟨k, after, seen.trans (Nat.le_succ e), read⟩
  | geEnd handler count => trivial
  | geHead handler count end_ =>
    obtain ⟨k, after, seen, read⟩ := knows
    exact ⟨k, after, seen.trans (Nat.le_succ e), read⟩
  | ltHead handler count => exact Nat.le_trans knows rounds
  | ltEnd handler count head => exact ⟨knows.1, knows.2.trans rounds⟩
  | handleHead i use => exact ⟨knows.1, knows.2.trans (by push_cast; omega)⟩
  | handleSlot i use head =>
    exact ⟨⟨knows.1.1, knows.1.2.trans (by push_cast; omega)⟩, knows.2⟩
  | bumpRead handler i use => exact ⟨knows.1, knows.2.trans (by push_cast; omega)⟩
  | bumpWrite handler i use head =>
    exact ⟨⟨knows.1.1, knows.1.2.trans (by push_cast; omega)⟩, knows.2⟩

/-! ### Every step keeps the invariant -/

namespace Inv

variable {m e : ℕ} {t : Spsc α}

theorem start {m : ℕ} (pos : 1 ≤ m) (large : (m : ℤ) ≤ lqSizeMax) (slots : ℕ → α) :
    Inv m 0 (.start slots) where
  large := large
  low := le_rfl
  high := by
    show 0 < 0 + m
    omega
  head := by simp [Spsc.start]
  end_ := by simp [Spsc.start]
  stored := rfl
  passed := List.nil_prefix
  window := Window.nil m slots 0
  reads := by simp [Spsc.start]
  producer := trivial
  consumer := trivial

/-- A step of the producer that touches nothing shared. -/
theorem setProducer (inv : Inv m e t) {p : Producer α} (same : p.pending = t.producer.pending)
    (knows : p.Knows m e t.passed.length) : Inv m e { t with producer := p } where
  large := inv.large
  low := inv.low
  high := inv.high
  head := inv.head
  end_ := inv.end_
  stored := by rw [same]; exact inv.stored
  passed := inv.passed
  window := inv.window
  reads := inv.reads
  producer := knows
  consumer := inv.consumer

/-- A step of the consumer that touches nothing shared. -/
theorem setConsumer (inv : Inv m e t) {c : Consumer} (knows : c.Knows m e t.passed.length) :
    Inv m e { t with consumer := c } where
  large := inv.large
  low := inv.low
  high := inv.high
  head := inv.head
  end_ := inv.end_
  stored := inv.stored
  passed := inv.passed
  window := inv.window
  reads := inv.reads
  producer := inv.producer
  consumer := knows

/-- The slot at `end` is outside the window, so writing it overwrites nothing that the
consumer has still to pass. -/
theorem store (inv : Inv m e t) {v : α} {i idle : ℤ} (idles : t.producer.pending = 0)
    (knows : i < idle ∧ idle - i ≤ t.passed.length + m - 1 - e) :
    Inv m e { t with
      shared := { t.shared with slots := Function.update t.shared.slots (e % m) v }
      producer := .bumpRead v i idle
      stored := t.stored ++ [v] } where
  large := inv.large
  low := inv.low
  high := inv.high
  head := inv.head
  end_ := inv.end_
  stored := by
    rw [List.length_append, inv.stored, idles]
    rfl
  passed := inv.passed.trans (List.prefix_append _ _)
  window := by
    -- all stored elements are published, so the window ends at `end`
    have length : t.stored.length = e := by rw [inv.stored, idles, Nat.add_zero]
    have last : t.passed.length + (t.stored.drop t.passed.length).length = e := by
      rw [List.length_drop, length, Nat.add_sub_of_le inv.low]
    have room : (t.stored.drop t.passed.length).length < m := by
      have high := inv.high
      omega
    rw [List.drop_append_of_le_length inv.passed.length_le, ← last]
    exact inv.window.push room v
  reads := by
    intro entry mem
    have old := inv.reads entry mem
    have lt := (List.getElem?_eq_some_iff.mp old).1
    rw [List.getElem?_append_left lt, old]
  producer := knows
  consumer := inv.consumer

/-- Publishing the slot that was written. -/
theorem publish (inv : Inv m e t) {v : α} {i idle : ℤ} (pending : t.producer.pending = 1)
    (knows : i < idle ∧ idle - i ≤ t.passed.length + m - 1 - e) :
    Inv m (e + 1) { t with
      shared := { t.shared with end_ := ((e + 1) % m : ℕ) }
      producer := addLoop v (i + 1) idle } where
  large := inv.large
  low := inv.low.trans (Nat.le_succ e)
  high := by
    have more := knows.1
    have room := knows.2
    show e + 1 < t.passed.length + m
    omega
  head := inv.head
  end_ := rfl
  stored := by rw [addLoop_pending, Nat.add_zero, inv.stored, pending]
  passed := inv.passed
  window := inv.window
  reads := inv.reads
  producer := by
    apply addLoop_knows
    have room := knows.2
    push_cast
    omega
  consumer := inv.consumer.publish

/-- Stepping past the slot at `head`, which holds the next stored value. -/
theorem pass (inv : Inv m e t) {r : Bool} {i use : ℤ}
    (knows : i < use ∧ use - i ≤ e - t.passed.length) :
    Inv m e { t with
      shared := { t.shared with head := ((t.passed.length + 1) % m : ℕ) }
      consumer := getLoop r (i + 1) use
      passed := t.passed ++ [t.shared.slots (t.passed.length % m)] } := by
  have more := knows.1
  have left := knows.2
  have filled : t.passed.length < t.stored.length := by
    rw [inv.stored]
    omega
  have split := List.drop_eq_getElem_cons filled
  have window := inv.window
  rw [split] at window
  -- the passed elements are the stored ones up to here, and one more
  have taken : t.passed ++ [t.shared.slots (t.passed.length % m)] =
      t.stored.take (t.passed.length + 1) := by
    rw [List.take_succ_eq_append_getElem filled, ← List.prefix_iff_eq_take.mp inv.passed,
      window.head]
  have length : (t.passed ++ [t.shared.slots (t.passed.length % m)]).length =
      t.passed.length + 1 := by simp
  exact {
    large := inv.large
    low := by rw [length]; omega
    high := by
      have high := inv.high
      rw [length]
      omega
    head := by rw [length]
    end_ := inv.end_
    stored := inv.stored
    passed := by
      rw [taken]
      exact List.take_prefix _ _
    window := by
      rw [length]
      exact window.pop
    reads := inv.reads
    producer := by
      rw [length]
      exact inv.producer.pass
    consumer := by
      rw [length]
      apply getLoop_knows
      push_cast
      omega }

/-- The get handler reads the value the consumer is about to pass. -/
theorem read (inv : Inv m e t) {i use : ℤ} (knows : i < use ∧ use - i ≤ e - t.passed.length) :
    Inv m e { t with
      consumer := .bumpRead true i use
      reads := t.reads ++ [(t.passed.length, t.shared.slots (t.passed.length % m))] } where
  large := inv.large
  low := inv.low
  high := inv.high
  head := inv.head
  end_ := inv.end_
  stored := inv.stored
  passed := inv.passed
  window := inv.window
  reads := by
    have filled : t.passed.length < t.stored.length := by
      have more := knows.1
      have left := knows.2
      rw [inv.stored]
      omega
    have window := inv.window
    rw [List.drop_eq_getElem_cons filled] at window
    intro entry mem
    rcases List.mem_append.mp mem with old | new
    · exact inv.reads entry old
    · rw [List.mem_singleton.mp new, window.head]
      exact List.getElem?_eq_getElem filled
  producer := inv.producer
  consumer := knows

/-- One access of the producer. -/
theorem produce (inv : Inv m e t) : ∃ e', Inv m e' (LoopQueue.produce m t) := by
  have low := inv.low
  have high := inv.high
  have pos : 0 < m := by omega
  have head := inv.head
  have end_ := inv.end_
  have knows := inv.producer
  cases pc : t.producer with
  | returned => exact ⟨e, by simpa only [LoopQueue.produce, pc] using inv⟩
  | fullEnd v =>
    simp only [LoopQueue.produce, pc]
    exact ⟨e, inv.setProducer (by rw [pc]; rfl) end_⟩
  | fullHead v read =>
    rw [pc] at knows
    have next : (wrap (read + 1)).tmod m = ((e + 1) % m : ℕ) := by
      rw [knows]
      exact wrap_succ_tmod pos inv.large e
    simp only [LoopQueue.produce, pc, next, head]
    refine ⟨e, inv.setProducer (by rw [pc]; split_ifs <;> rfl) ?_⟩
    split_ifs with full
    · trivial
    · -- the next index is not the head, so another round of `m` slots is not over
      have room := (succ_mod_eq_mod_iff low high).not.mp (by exact_mod_cast full)
      exact ⟨Int.zero_lt_one, by omega⟩
  | compareEnd v multi =>
    simp only [LoopQueue.produce, pc]
    exact ⟨e, inv.setProducer (by rw [pc]; rfl) end_⟩
  | compareHead v multi read =>
    rw [pc] at knows
    simp only [LoopQueue.produce, pc]
    refine ⟨e, inv.setProducer (by rw [pc]; split_ifs <;> rfl) ?_⟩
    split_ifs with ge
    · -- the indices are in order, so both counters are in the same round
      rw [knows, head] at ge
      have apart := sub_of_mod_le low high (by exact_mod_cast ge)
      have divE := Nat.div_add_mod e m
      have divH := Nat.div_add_mod t.passed.length m
      show e / m ≤ t.passed.length / m
      refine Nat.le_of_mul_le_mul_left ?_ pos
      omega
    · trivial
  | geEnd v multi =>
    rw [pc] at knows
    simp only [LoopQueue.produce, pc]
    exact ⟨e, inv.setProducer (by rw [pc]; rfl) ⟨end_, knows⟩⟩
  | geHead v multi read =>
    rw [pc] at knows
    simp only [LoopQueue.produce, pc]
    refine ⟨e, inv.setProducer (by rw [pc]; exact addLoop_pending) (addFrom_knows ?_)⟩
    rw [knows.1, head]
    exact idle_ge low high inv.large knows.2
  | ltHead v multi =>
    simp only [LoopQueue.produce, pc]
    exact ⟨e, inv.setProducer (by rw [pc]; rfl) ⟨t.passed.length, le_rfl, high, head⟩⟩
  | ltEnd v multi read =>
    rw [pc] at knows
    obtain ⟨k, before, seen, value⟩ := knows
    simp only [LoopQueue.produce, pc]
    refine ⟨e, inv.setProducer (by rw [pc]; exact addLoop_pending) (addFrom_knows ?_)⟩
    rw [value, end_]
    exact idle_lt high inv.large before seen low
  | storeEnd v i idle =>
    rw [pc] at knows
    simp only [LoopQueue.produce, pc]
    exact ⟨e, inv.setProducer (by rw [pc]; rfl) ⟨knows, end_⟩⟩
  | storeSlot v i idle read =>
    rw [pc] at knows
    simp only [LoopQueue.produce, pc, knows.2, Int.toNat_natCast]
    exact ⟨e, inv.store (by rw [pc]; rfl) knows.1⟩
  | bumpRead v i idle =>
    rw [pc] at knows
    simp only [LoopQueue.produce, pc]
    exact ⟨e, inv.setProducer (by rw [pc]; rfl) ⟨knows, end_⟩⟩
  | bumpWrite v i idle read =>
    rw [pc] at knows
    simp only [LoopQueue.produce, pc, knows.2, wrap_succ_tmod pos inv.large]
    exact ⟨e + 1, inv.publish (by rw [pc]; rfl) knows.1⟩

/-- One access of the consumer. -/
theorem consume (inv : Inv m e t) : Inv m e (LoopQueue.consume m t) := by
  have low := inv.low
  have high := inv.high
  have pos : 0 < m := by omega
  have head := inv.head
  have end_ := inv.end_
  have knows := inv.consumer
  cases pc : t.consumer with
  | returned => simpa only [LoopQueue.consume, pc] using inv
  | emptyHead =>
    simp only [LoopQueue.consume, pc]
    exact inv.setConsumer head
  | emptyEnd read =>
    rw [pc] at knows
    simp only [LoopQueue.consume, pc]
    apply inv.setConsumer
    split_ifs with empty
    · trivial
    · -- the indices differ, so an element is there
      rw [knows, end_] at empty
      have differ := (mod_eq_mod_iff low high).not.mp (by exact_mod_cast empty)
      exact ⟨Int.zero_lt_one, by omega⟩
  | compareEnd handler count =>
    simp only [LoopQueue.consume, pc]
    exact inv.setConsumer ⟨e, low, le_rfl, end_⟩
  | compareHead handler count read =>
    rw [pc] at knows
    obtain ⟨k, after, seen, value⟩ := knows
    simp only [LoopQueue.consume, pc]
    apply inv.setConsumer
    split_ifs with ge
    · trivial
    · -- the end was already a round ahead when it was read
      rw [value, head] at ge
      have apart := sub_of_mod_lt after (seen.trans_lt high) (by exact_mod_cast not_le.mp ge)
      have divK := Nat.div_add_mod k m
      have divH := Nat.div_add_mod t.passed.length m
      show t.passed.length / m + 1 ≤ e / m
      refine le_trans ?_ (Nat.div_le_div_right seen)
      refine Nat.le_of_mul_le_mul_left ?_ pos
      rw [Nat.mul_add]
      omega
  | geEnd handler count =>
    simp only [LoopQueue.consume, pc]
    exact inv.setConsumer ⟨e, low, le_rfl, end_⟩
  | geHead handler count read =>
    rw [pc] at knows
    obtain ⟨k, after, seen, value⟩ := knows
    simp only [LoopQueue.consume, pc]
    refine inv.setConsumer (getFrom_knows ?_)
    rw [value, head]
    exact (use_ge after (seen.trans_lt high) inv.large).trans (by omega)
  | ltHead handler count =>
    rw [pc] at knows
    simp only [LoopQueue.consume, pc]
    exact inv.setConsumer ⟨head, knows⟩
  | ltEnd handler count read =>
    rw [pc] at knows
    simp only [LoopQueue.consume, pc]
    refine inv.setConsumer (getFrom_knows ?_)
    rw [knows.1, end_]
    exact use_lt low high inv.large knows.2
  | handleHead i use =>
    rw [pc] at knows
    simp only [LoopQueue.consume, pc]
    exact inv.setConsumer ⟨knows, head⟩
  | handleSlot i use read =>
    rw [pc] at knows
    simp only [LoopQueue.consume, pc, knows.2, Int.toNat_natCast]
    exact inv.read knows.1
  | bumpRead handler i use =>
    rw [pc] at knows
    simp only [LoopQueue.consume, pc]
    exact inv.setConsumer ⟨knows, head⟩
  | bumpWrite handler i use read =>
    rw [pc] at knows
    simp only [LoopQueue.consume, pc, knows.2, wrap_succ_tmod pos inv.large, Int.toNat_natCast]
    exact inv.pass knows.1

/-- A call starts or a thread makes an access. -/
theorem step (inv : Inv m e t) {event : Event α} (allowed : event.Allowed t) :
    ∃ e', Inv m e' (t.step m event) := by
  cases event with
  | addOne v =>
    exact ⟨e, inv.setProducer (by rw [show t.producer = .returned from allowed]; rfl) trivial⟩
  | addMulti v multi =>
    exact ⟨e, inv.setProducer (by rw [show t.producer = .returned from allowed.1]; rfl) trivial⟩
  | getOne => exact ⟨e, inv.setConsumer trivial⟩
  | getMulti recvSize => exact ⟨e, inv.setConsumer trivial⟩
  | deleteMulti multi => exact ⟨e, inv.setConsumer trivial⟩
  | produce => exact inv.produce
  | consume => exact ⟨e, inv.consume⟩

end Inv

/-! ### What the calls store -/

/-- The adds that an event starts: a value, and how many copies of it at most. -/
def Event.adds : Event α → List (α × ℕ)
  | .addOne v => [(v, 1)]
  | .addMulti v multi => [(v, multi.toNat)]
  | _ => []

/-- Each call has stored some copies of its value, the calls one after the other. -/
def StoredBy : List (α × ℕ) → List α → Prop
  | [], stored => stored = []
  | (v, n) :: calls, stored =>
    ∃ k ≤ n, ∃ rest, stored = List.replicate k v ++ rest ∧ StoredBy calls rest

/-- The producer is in this call, of which it has stored `k` copies, or has returned from it. -/
def Producer.Serves (call : α × ℕ) (k : ℕ) : Producer α → Prop
  | .returned => k ≤ call.2
  | .fullEnd v | .fullHead v _ => call = (v, 1) ∧ k = 0
  | .compareEnd v n | .compareHead v n _ | .geEnd v n | .geHead v n _ | .ltHead v n
  | .ltEnd v n _ => (call.1 = v ∧ (call.2 : ℤ) = n) ∧ k = 0
  | .storeEnd v i idle | .storeSlot v i idle _ =>
    call.1 = v ∧ (k : ℤ) = i ∧ i < idle ∧ idle ≤ call.2
  | .bumpRead v i idle | .bumpWrite v i idle _ =>
    call.1 = v ∧ (k : ℤ) = i + 1 ∧ i < idle ∧ idle ≤ call.2

/-- These calls have stored what was stored. The last of them may still be under way. -/
def Writes (calls : List (α × ℕ)) (t : Spsc α) : Prop :=
  (calls = [] ∧ t.stored = [] ∧ t.producer = .returned) ∨
  ∃ earlier call k stored, calls = earlier ++ [call] ∧ StoredBy earlier stored ∧
    t.stored = stored ++ List.replicate k call.1 ∧ t.producer.Serves call k

section Writes

variable {calls : List (α × ℕ)} {call : α × ℕ} {stored : List α} {k : ℕ} {v : α} {t : Spsc α}

/-- One more call. -/
theorem StoredBy.concat (h : StoredBy calls stored) (le : k ≤ call.2) :
    StoredBy (calls ++ [call]) (stored ++ List.replicate k call.1) := by
  induction calls generalizing stored with
  | nil =>
    obtain rfl : stored = [] := h
    exact ⟨k, le, [], by simp, rfl⟩
  | cons first calls ih =>
    obtain ⟨j, le', rest, rfl, h⟩ := h
    exact ⟨j, le', _, List.append_assoc .., ih h⟩

theorem serves_addLoop {i idle : ℤ} (value : call.1 = v) (count : (k : ℤ) = i)
    (bound : idle ≤ call.2) (le : k ≤ call.2) : (addLoop v i idle).Serves call k := by
  unfold addLoop
  split_ifs with more
  · exact ⟨value, count, more, bound⟩
  · exact le

theorem serves_addFrom {max n use : ℤ} (value : call.1 = v) (asked : (call.2 : ℤ) = n) :
    (addFrom max v n use).Serves call 0 := by
  unfold addFrom
  refine serves_addLoop value rfl ?_ (Nat.zero_le _)
  split_ifs <;> omega

/-- One access of the producer stores a copy of the value of its call, or nothing. -/
theorem serves_produce {max : ℤ} (h : t.producer.Serves call k) :
    ((LoopQueue.produce max t).stored = t.stored ∧
      (LoopQueue.produce max t).producer.Serves call k) ∨
    ((LoopQueue.produce max t).stored = t.stored ++ [call.1] ∧
      (LoopQueue.produce max t).producer.Serves call (k + 1)) := by
  cases pc : t.producer with
  | returned =>
    simp only [LoopQueue.produce, pc]
    exact .inl ⟨trivial, pc ▸ h⟩
  | fullEnd v =>
    simp only [LoopQueue.produce, pc]
    exact .inl ⟨trivial, by rwa [pc] at h⟩
  | fullHead v read =>
    rw [pc] at h
    obtain ⟨rfl, rfl⟩ := h
    simp only [LoopQueue.produce, pc]
    refine .inl ⟨trivial, ?_⟩
    split_ifs
    · exact Nat.zero_le _
    · exact ⟨rfl, rfl, Int.zero_lt_one, le_rfl⟩
  | compareEnd v multi =>
    simp only [LoopQueue.produce, pc]
    exact .inl ⟨trivial, by rwa [pc] at h⟩
  | compareHead v multi read =>
    rw [pc] at h
    simp only [LoopQueue.produce, pc]
    refine .inl ⟨trivial, ?_⟩
    split_ifs
    · exact h
    · exact h
  | geEnd v multi =>
    simp only [LoopQueue.produce, pc]
    exact .inl ⟨trivial, by rwa [pc] at h⟩
  | geHead v multi read =>
    rw [pc] at h
    obtain ⟨⟨value, asked⟩, rfl⟩ := h
    simp only [LoopQueue.produce, pc]
    exact .inl ⟨trivial, serves_addFrom value asked⟩
  | ltHead v multi =>
    simp only [LoopQueue.produce, pc]
    exact .inl ⟨trivial, by rwa [pc] at h⟩
  | ltEnd v multi read =>
    rw [pc] at h
    obtain ⟨⟨value, asked⟩, rfl⟩ := h
    simp only [LoopQueue.produce, pc]
    exact .inl ⟨trivial, serves_addFrom value asked⟩
  | storeEnd v i idle =>
    simp only [LoopQueue.produce, pc]
    exact .inl ⟨trivial, by rwa [pc] at h⟩
  | storeSlot v i idle read =>
    rw [pc] at h
    obtain ⟨rfl, count, more, bound⟩ := h
    simp only [LoopQueue.produce, pc]
    exact .inr ⟨trivial, rfl, by push_cast; omega, more, bound⟩
  | bumpRead v i idle =>
    simp only [LoopQueue.produce, pc]
    exact .inl ⟨trivial, by rwa [pc] at h⟩
  | bumpWrite v i idle read =>
    rw [pc] at h
    obtain ⟨value, count, more, bound⟩ := h
    simp only [LoopQueue.produce, pc]
    exact .inl ⟨trivial, serves_addLoop value count bound (by omega)⟩

theorem serves_le (h : t.producer.Serves call k) : k ≤ call.2 := by
  cases pc : t.producer <;> rw [pc] at h <;> simp only [Producer.Serves] at h <;> omega

theorem Writes.storedBy (h : Writes calls t) : StoredBy calls t.stored := by
  rcases h with ⟨rfl, none, -⟩ | ⟨earlier, call, k, stored, rfl, before, eq, serves⟩
  · exact none
  · rw [eq]
    exact before.concat (serves_le serves)

/-- The producer starts a call. -/
theorem Writes.start (h : Writes calls t) {p : Producer α} (starts : p.Serves call 0) :
    Writes (calls ++ [call]) { t with producer := p } :=
  .inr ⟨calls, call, 0, t.stored, rfl, h.storedBy, (List.append_nil _).symm, starts⟩

/-- Every step of either thread keeps what was stored by calls. -/
theorem Writes.step {max : ℤ} (h : Writes calls t) {event : Event α} (allowed : event.Allowed t) :
    Writes (calls ++ event.adds) (t.step max event) := by
  have other (c : Consumer) : Writes (calls ++ []) { t with consumer := c } := by
    rw [List.append_nil]
    exact h
  cases event with
  | addOne v => exact h.start ⟨rfl, rfl⟩
  | addMulti v multi => exact h.start ⟨⟨rfl, Int.toNat_of_nonneg allowed.2.1⟩, rfl⟩
  | getOne => exact other _
  | getMulti recvSize => exact other _
  | deleteMulti multi => exact other _
  | produce =>
    show Writes (calls ++ []) (LoopQueue.produce max t)
    rw [List.append_nil]
    rcases h with ⟨rfl, none, pc⟩ | ⟨earlier, call, k, stored, rfl, before, eq, serves⟩
    · simp only [LoopQueue.produce, pc]
      exact .inl ⟨rfl, none, pc⟩
    · rcases @serves_produce α call k t max serves with ⟨same, serves'⟩ | ⟨more, serves'⟩
      · exact .inr ⟨earlier, call, k, stored, rfl, before, same.trans eq, serves'⟩
      · refine .inr ⟨earlier, call, k + 1, stored, rfl, before, ?_, serves'⟩
        rw [more, eq, List.append_assoc, List.replicate_succ']
  | consume =>
    show Writes (calls ++ []) (LoopQueue.consume max t)
    have same : (LoopQueue.consume max t).stored = t.stored ∧
        (LoopQueue.consume max t).producer = t.producer := by
      unfold LoopQueue.consume
      split <;> exact ⟨rfl, rfl⟩
    rw [List.append_nil, Writes, same.1, same.2]
    exact h

end Writes

/-! ### Whole interleavings -/

theorem spsc_invariant {m : ℕ} (pos : 1 ≤ m) (large : (m : ℤ) ≤ lqSizeMax) (slots : ℕ → α)
    {events : List (Event α)} (adm : (spsc α m).Admissible (.start slots) events) :
    ∃ t rs, (spsc α m).run (.start slots) events = .ok (t, rs) ∧ ∃ e, Inv m e t := by
  refine Machine.exists_run_of_invariant ?_ ⟨0, Inv.start pos large slots⟩ adm
  rintro t event ⟨e, inv⟩ allowed
  exact ⟨t.step m event, (), rfl, inv.step allowed⟩

/-- What was stored by the calls of an interleaving. -/
theorem spsc_writes {max : ℤ} {t t' : Spsc α} {calls : List (α × ℕ)} (h : Writes calls t)
    {events : List (Event α)} (adm : (spsc α max).Admissible t events) {rs : List Unit}
    (run : (spsc α max).run t events = .ok (t', rs)) :
    Writes (calls ++ events.flatMap Event.adds) t' := by
  induction events generalizing t calls rs with
  | nil =>
    cases run
    simpa using h
  | cons event events ih =>
    obtain ⟨t₁, r, rs', first, rest, -⟩ := Machine.run_cons_inv run
    cases first
    rw [List.flatMap_cons, ← List.append_assoc]
    exact ih (h.step adm.1) (adm.2 _ _ rfl) rest

/-- Every interleaving of one producer and one consumer is safe. What the producer stored are
copies of the values of its calls, in the order of the calls and no more than each call asks
for. What the consumer steps past is a prefix of it. The get handler reads, after `k` elements
were passed, the stored value number `k`. A stored value that is not passed yet is still
in its slot. The indices stay in range. -/
theorem spsc_safety (max : ℤ) (pos : 1 ≤ max) (large : max ≤ lqSizeMax) (slots : ℕ → α)
    (events : List (Event α)) (adm : (spsc α max).Admissible (.start slots) events) :
    ∃ t rs, (spsc α max).run (.start slots) events = .ok (t, rs) ∧
      StoredBy (events.flatMap Event.adds) t.stored ∧ t.passed <+: t.stored ∧
      (∀ entry ∈ t.reads, t.stored[entry.1]? = some entry.2) ∧
      (∀ k v, t.passed.length ≤ k → t.stored[k]? = some v →
        t.shared.slots (k % max.toNat) = v) ∧
      (0 ≤ t.shared.head ∧ t.shared.head < max) ∧
      0 ≤ t.shared.end_ ∧ t.shared.end_ < max := by
  lift max to ℕ using by omega with m
  have pos' : 1 ≤ m := by exact_mod_cast pos
  obtain ⟨t, rs, run, e, inv⟩ := spsc_invariant pos' large slots adm
  have writes : Writes (events.flatMap Event.adds) t :=
    spsc_writes (.inl ⟨rfl, rfl, rfl⟩) adm run
  refine ⟨t, rs, run, writes.storedBy, inv.passed, inv.reads, ?_, ?_, ?_⟩
  -- a stored element that was not passed lies in the window
  · intro k v after stored
    obtain ⟨lt, value⟩ := List.getElem?_eq_some_iff.mp stored
    have slot := inv.window (k - t.passed.length) (by rw [List.length_drop]; omega)
    rw [Nat.add_sub_of_le after] at slot
    rw [Int.toNat_natCast, slot, ← value]
    simp [Nat.add_sub_of_le after]
  · rw [inv.head]
    exact ⟨Int.natCast_nonneg _, by exact_mod_cast Nat.mod_lt _ pos'⟩
  · rw [inv.end_]
    exact ⟨Int.natCast_nonneg _, by exact_mod_cast Nat.mod_lt _ pos'⟩

/-- The consumer compares before, and subtracts after, the second add is published. -/
def mixedEvents : List (Event ℕ) :=
  Event.addOne 7 :: List.replicate 6 Event.produce ++
    Event.addOne 8 :: List.replicate 4 Event.produce ++
    Event.getMulti 5 :: List.replicate 2 Event.consume ++ List.replicate 2 Event.produce ++
    List.replicate 10 Event.consume

theorem spsc_safety_mixed :
    (spsc ℕ 3).Admissible (.start fun _ => 0) mixedEvents ∧
      ∃ t rs, (spsc ℕ 3).run (.start fun _ => 0) mixedEvents = .ok (t, rs) ∧
        StoredBy [(7, 1), (8, 1)] t.stored ∧ t.passed <+: t.stored ∧
        (∀ entry ∈ t.reads, t.stored[entry.1]? = some entry.2) ∧
        (∀ k v, t.passed.length ≤ k → t.stored[k]? = some v →
          t.shared.slots (k % (3 : ℤ).toNat) = v) ∧
        (0 ≤ t.shared.head ∧ t.shared.head < 3) ∧
        0 ≤ t.shared.end_ ∧ t.shared.end_ < 3 := by
  have adm : (spsc ℕ 3).Admissible (.start fun _ => 0) mixedEvents := by decide +kernel
  exact ⟨adm, spsc_safety 3 (by decide) (by decide) (fun _ => 0) mixedEvents adm⟩

end Components.LoopQueue
