import Components.LoopQueue.Concurrent
import Components.LoopQueue.Fifo

/-!
# A call that runs alone

The accesses of the two threads are those of the functions: a thread that starts a call and
makes its accesses without the other thread in between has done what the function does to the
queue, and has returned.

## Main definitions

* `Lq.shared` — the part of a queue that the threads share
* `Alone` — a thread makes its next accesses
* `Event.Starts` — the call that an event starts

## Main results

* `calls_alone` — each of the five calls, on every reachable queue
-/

namespace Components.LoopQueue

open Circular

variable {α : Type} {lq : Lq α} {l : List α} {m a k : ℕ} {max : ℤ} {own : Event α}
  {t t' t'' : Spsc α} {newData : Buffer α}

/-- What the threads see of a queue. -/
def Lq.shared (lq : Lq α) : Shared α := ⟨lq.head, lq.end_, lq.queue.data⟩

/-- A thread makes some accesses, one after the other. -/
def Alone (max : ℤ) (own : Event α) (t t' : Spsc α) : Prop :=
  ∃ n, (fun t => t.step max own)^[n] t = t'

namespace Alone

theorem refl (t : Spsc α) : Alone max own t t := ⟨0, rfl⟩

theorem trans (first : Alone max own t t') (rest : Alone max own t' t'') :
    Alone max own t t'' := by
  obtain ⟨n, rfl⟩ := first
  obtain ⟨n', rfl⟩ := rest
  exact ⟨n' + n, Function.iterate_add_apply ..⟩

end Alone

/-! ### The use length -/

/-- Where no check fails, nothing wraps. -/
theorem wrap_of_checked {x y : ℤ} (done : checked x = .ok y) : wrap x = y := by
  unfold checked at done
  split_ifs at done with range
  cases done
  exact wrap_eq range.1 range.2

section UseLength

variable (h : Holds m a lq l) (shows : t.shared = lq.shared)
include h

/-- The two branches, in the arithmetic of the threads. -/
theorem Holds.useLength_branches :
    (lq.end_ ≥ lq.head → wrap (lq.end_ - lq.head) = l.length) ∧
      (¬ lq.end_ ≥ lq.head → wrap (wrap ((m : ℤ) - lq.head) + lq.end_) = l.length) := by
  have known := h.useLength_eq
  unfold loopQueueGetUseLength at known
  rw [h.max] at known
  constructor
  · intro order
    rw [if_pos order] at known
    exact wrap_of_checked known
  · intro order
    rw [if_neg order] at known
    obtain ⟨x, first, second⟩ := bind_eq_ok known
    rw [wrap_of_checked first]
    exact wrap_of_checked second

include shows

theorem alone_produce_useLength {v : α} {n : ℤ} (pc : t.producer = .compareEnd v n) :
    Alone m .produce t { t with producer := addFrom m v n l.length } := by
  obtain ⟨ge, lt⟩ := h.useLength_branches
  have head : t.shared.head = lq.head := by rw [shows]; rfl
  have end_ : t.shared.end_ = lq.end_ := by rw [shows]; rfl
  -- the two indices are read twice, in the comparison and in its branch
  refine ⟨4, ?_⟩
  by_cases order : lq.end_ ≥ lq.head
  · simp only [Function.iterate_succ_apply, Function.iterate_zero_apply, Spsc.step, produce, pc,
      head, end_, if_pos order, ge order]
  · simp only [Function.iterate_succ_apply, Function.iterate_zero_apply, Spsc.step, produce, pc,
      head, end_, if_neg order, lt order]

theorem alone_consume_useLength {handler : Bool} {n : ℤ}
    (pc : t.consumer = .compareEnd handler n) :
    Alone m .consume t { t with consumer := getFrom handler n l.length } := by
  obtain ⟨ge, lt⟩ := h.useLength_branches
  have head : t.shared.head = lq.head := by rw [shows]; rfl
  have end_ : t.shared.end_ = lq.end_ := by rw [shows]; rfl
  refine ⟨4, ?_⟩
  by_cases order : lq.end_ ≥ lq.head
  · simp only [Function.iterate_succ_apply, Function.iterate_zero_apply, Spsc.step, consume, pc,
      head, end_, if_pos order, ge order]
  · simp only [Function.iterate_succ_apply, Function.iterate_zero_apply, Spsc.step, consume, pc,
      head, end_, if_neg order, lt order]

end UseLength

/-! ### Adding -/

/-- The accesses of one round of the producer. -/
theorem iterate_produce_round {v : α} {i idle : ℤ} (pc : t.producer = .storeEnd v i idle) :
    (fun t => t.step max .produce)^[4] t =
      { t with
        shared :=
          { t.shared with
            end_ := (wrap (t.shared.end_ + 1)).tmod max
            slots := Function.update t.shared.slots t.shared.end_.toNat v }
        producer := addLoop v (i + 1) idle
        stored := t.stored ++ [v] } := by
  simp only [Function.iterate_succ_apply, Function.iterate_zero_apply, Spsc.step, produce, pc]

/-- One round of the producer. -/
theorem alone_addRound (h : Holds m a lq l) (one : 0 < newData.size) (room : l.length + 1 < m)
    (shows : t.shared = lq.shared) {i idle : ℤ}
    (pc : t.producer = .storeEnd (newData.data 0) i idle) (j : ℕ) :
    ∃ lq', addRound newData j lq = .ok lq' ∧ Holds m a lq' (l ++ [newData.data 0]) ∧
      Alone m .produce t
        { t with
          shared := lq'.shared
          producer := addLoop (newData.data 0) (i + 1) idle
          stored := t.stored ++ [newData.data 0] } := by
  obtain ⟨lq', done, holds⟩ := h.append one room
  refine ⟨lq', done, holds, 4, ?_⟩
  rw [h.callAddOneDataFunc_eq one, ok_bind, h.fastAddOne_eq] at done
  have next := wrap_succ_tmod h.pos h.large (a + l.length)
  -- both leave the new element in the slot that `end` pointed at
  have shared : t.shared = ⟨lq.head, ((a + l.length) % m : ℕ), lq.queue.data⟩ := by
    rw [shows, Lq.shared, h.end_]
  have shared' : lq'.shared = ⟨lq.head, ((a + l.length + 1) % m : ℕ),
      Function.update lq.queue.data ((a + l.length) % m) (newData.data 0)⟩ := by
    cases done
    rfl
  rw [iterate_produce_round pc, shared, shared']
  dsimp only
  rw [next, Int.toNat_natCast]

/-- The loop of the producer. -/
theorem alone_addLoop (h : Holds m a lq l) (one : 0 < newData.size) {idle : ℤ}
    (count : idle.toNat = k) (room : l.length + k < m) (shows : t.shared = lq.shared)
    (pc : t.producer = addLoop (newData.data 0) 0 idle) :
    ∃ lq', forLoop (addRound newData) k lq = .ok lq' ∧
      Alone m .produce t
        { t with
          shared := lq'.shared
          producer := .returned
          stored := t.stored ++ List.replicate k (newData.data 0) } := by
  -- after `i` rounds both queues hold the list with `i` copies behind it
  have rounds : ∃ lq', forLoop (addRound newData) k lq = .ok lq' ∧
      Holds m a lq' (l ++ List.replicate k (newData.data 0)) ∧
      Alone m .produce t
        { t with
          shared := lq'.shared
          producer := addLoop (newData.data 0) k idle
          stored := t.stored ++ List.replicate k (newData.data 0) } := by
    refine forLoop_of_invariant (fun i lq' =>
      Holds m a lq' (l ++ List.replicate i (newData.data 0)) ∧
      Alone m .produce t
        { t with
          shared := lq'.shared
          producer := addLoop (newData.data 0) i idle
          stored := t.stored ++ List.replicate i (newData.data 0) }) ⟨by simpa using h, 0, ?_⟩ ?_
    · simp [← pc, ← shows]
    · rintro i lq₁ lt ⟨holds, before⟩
      have again : addLoop (newData.data 0) i idle = .storeEnd (newData.data 0) i idle :=
        if_pos (by omega)
      rw [again] at before
      obtain ⟨lq₂, done, holds', alone⟩ := alone_addRound holds one
        (by rw [List.length_append, List.length_replicate]; omega) (t := { t with
          shared := lq₁.shared
          producer := .storeEnd (newData.data 0) i idle
          stored := t.stored ++ List.replicate i (newData.data 0) }) rfl rfl i
      rw [List.append_assoc, ← List.replicate_succ'] at holds'
      simp only [List.append_assoc, ← List.replicate_succ'] at alone
      exact ⟨lq₂, done, holds', before.trans alone⟩
  obtain ⟨lq', done, -, alone⟩ := rounds
  have last : addLoop (newData.data 0) k idle = .returned := if_neg (by omega)
  rw [last] at alone
  exact ⟨lq', done, alone⟩

/-! ### Getting -/

/-- The accesses of one round of the consumer, without the get handler and with it. -/
theorem iterate_consume_round {i use : ℤ} (pc : t.consumer = .bumpRead false i use) :
    (fun t => t.step max .consume)^[2] t =
      { t with
        shared := { t.shared with head := (wrap (t.shared.head + 1)).tmod max }
        consumer := getLoop false (i + 1) use
        passed := t.passed ++ [t.shared.slots t.shared.head.toNat] } := by
  simp only [Function.iterate_succ_apply, Function.iterate_zero_apply, Spsc.step, consume, pc]

theorem iterate_consume_handled {i use : ℤ} (pc : t.consumer = .handleHead i use) :
    (fun t => t.step max .consume)^[4] t =
      { t with
        shared := { t.shared with head := (wrap (t.shared.head + 1)).tmod max }
        consumer := getLoop true (i + 1) use
        passed := t.passed ++ [t.shared.slots t.shared.head.toNat]
        reads := t.reads ++ [(t.passed.length, t.shared.slots t.shared.head.toNat)] } := by
  simp only [Function.iterate_succ_apply, Function.iterate_zero_apply, Spsc.step, consume, pc]

/-- What the consumer has done when it has stepped past these elements. -/
structure Took (handler : Bool) (seen : List α) (t t' : Spsc α) : Prop where
  producer : t'.producer = t.producer
  stored : t'.stored = t.stored
  passed : t'.passed = t.passed ++ seen
  reads : t'.reads.map Prod.snd = t.reads.map Prod.snd ++ if handler then seen else []

theorem Took.refl (handler : Bool) (t : Spsc α) : Took handler [] t t :=
  ⟨rfl, rfl, (List.append_nil _).symm, by simp⟩

theorem Took.trans {handler : Bool} {seen seen' : List α} (first : Took handler seen t t')
    (rest : Took handler seen' t' t'') : Took handler (seen ++ seen') t t'' where
  producer := rest.producer.trans first.producer
  stored := rest.stored.trans first.stored
  passed := by rw [rest.passed, first.passed, List.append_assoc]
  reads := by
    rw [rest.reads, first.reads, List.append_assoc]
    split_ifs <;> rfl

/-- One round of the consumer. -/
theorem alone_getRound {x : α} (h : Holds m a lq (x :: l)) (shows : t.shared = lq.shared)
    {handler : Bool} {i use : ℤ} (more : i < use) (pc : t.consumer = getLoop handler i use) :
    ∃ lq', loopQueueNonEmptyFastGetOne lq = .ok lq' ∧ Holds m (a + 1) lq' l ∧
      ∃ t', Alone m .consume t t' ∧ t'.shared = lq'.shared ∧
        t'.consumer = getLoop handler (i + 1) use ∧ Took handler [x] t t' := by
  obtain ⟨lq', done, holds⟩ := h.step
  refine ⟨lq', done, holds, ?_⟩
  rw [h.fastGetOne_eq] at done
  have next := wrap_succ_tmod h.pos h.large a
  have front : t.shared.slots t.shared.head.toNat = x := by
    rw [shows, Lq.shared, h.head, Int.toNat_natCast]
    exact h.window.head
  have moved : { t.shared with head := (wrap (t.shared.head + 1)).tmod m } = lq'.shared := by
    cases done
    rw [shows, Lq.shared, h.head, next]
    rfl
  cases handler with
  | false =>
    -- `head` is read and written
    refine ⟨_, ⟨2, iterate_consume_round (pc.trans (if_pos more))⟩, moved, rfl, rfl, rfl, ?_, ?_⟩
    · rw [front]
    · simp
  | true =>
    -- before that, the handler reads `head` and the slot
    refine ⟨_, ⟨4, iterate_consume_handled (pc.trans (if_pos more))⟩, moved, rfl, rfl, rfl, ?_, ?_⟩
    · rw [front]
    · rw [front]
      simp

/-- The loop of the consumer, for a loop of the code that may do more than step. -/
theorem alone_getLoop {σ : Type} {body : ℕ → σ → Except Fault σ} (queue : σ → Lq α)
    (Good : σ → Prop)
    (step : ∀ i s lq' a l, Good s → Holds m a (queue s) l →
      loopQueueNonEmptyFastGetOne (queue s) = .ok lq' →
      ∃ s', body i s = .ok s' ∧ queue s' = lq' ∧ Good s')
    {s : σ} (good : Good s) (h : Holds m a (queue s) l) {handler : Bool} {use : ℤ}
    (count : use.toNat = k) (enough : k ≤ l.length) (shows : t.shared = (queue s).shared)
    (pc : t.consumer = getLoop handler 0 use) :
    ∃ s', forLoop body k s = .ok s' ∧
      ∃ t', Alone m .consume t t' ∧ t'.shared = (queue s').shared ∧ t'.consumer = .returned ∧
        Took handler (l.take k) t t' := by
  -- after `i` rounds both queues hold the list without its first `i` elements
  have rounds : ∃ s', forLoop body k s = .ok s' ∧ Good s' ∧
      Holds m (a + k) (queue s') (l.drop k) ∧
      ∃ t', Alone m .consume t t' ∧ t'.shared = (queue s').shared ∧
        t'.consumer = getLoop handler k use ∧ Took handler (l.take k) t t' := by
    refine forLoop_of_invariant (fun i s' => Good s' ∧
      Holds m (a + i) (queue s') (l.drop i) ∧
      ∃ t', Alone m .consume t t' ∧ t'.shared = (queue s').shared ∧
        t'.consumer = getLoop handler i use ∧ Took handler (l.take i) t t')
      ⟨good, h, t, .refl t, shows, pc, .refl handler t⟩ ?_
    rintro i s₁ lt ⟨good, holds, t₁, before, shows, pc, took⟩
    have more : i < l.length := by omega
    have here : Holds m (a + i) (queue s₁) (l[i] :: l.drop (i + 1)) := by
      rw [← List.drop_eq_getElem_cons more]
      exact holds
    obtain ⟨lq', done, holds', t₂, alone, shows', pc', took'⟩ :=
      alone_getRound here shows (by omega) pc
    obtain ⟨s₂, done', rfl, good'⟩ := step i s₁ lq' (a + i) _ good holds done
    refine ⟨s₂, done', good', holds', t₂, before.trans alone, shows', by exact_mod_cast pc', ?_⟩
    rw [List.take_add_one, List.getElem?_eq_getElem more]
    exact took.trans took'
  obtain ⟨s', done, -, -, t', alone, shows', pc', took⟩ := rounds
  have last : getLoop handler k use = .returned := if_neg (by omega)
  exact ⟨s', done, t', alone, shows', pc'.trans last, took⟩

/-- A round with the default get handler. -/
theorem getRound_eq {state : Lq α × Option (Buffer α)} {lq' : Lq α} (h : Holds m a state.1 l)
    (room : Room state.2) (stepped : loopQueueNonEmptyFastGetOne state.1 = .ok lq') (i : ℕ) :
    ∃ state', getRound i state = .ok state' ∧ state'.1 = lq' ∧ Room state'.2 := by
  have handled := h.callGetOneDataFunc_eq room i
  refine ⟨(lq', state.2.map fun arrRecv => arrRecv.store (state.1.queue.data (a % m))), ?_, rfl, ?_⟩
  · simp only [getRound, handled, ok_bind, stepped]
    rfl
  · intro arrRecv mem
    obtain ⟨before, mem', rfl⟩ := Option.map_eq_some_iff.mp mem
    exact room before mem'

/-! ### Calls -/

/-- The accesses of the thread that the event belongs to. -/
def Event.access : Event α → Event α
  | .addOne _ | .addMulti _ _ | .produce => .produce
  | .getOne | .getMulti _ | .deleteMulti _ | .consume => .consume

/-- The call that an event starts. -/
def Event.Starts : Event α → Op α → Prop
  | .addOne v, .addOne newData => newData.data 0 = v
  | .addMulti v multi, .addMulti newData multi' => newData.data 0 = v ∧ multi = multi'
  | .getOne, .getOne _ => True
  | .getMulti recvSize, .getMulti _ recvSize' => recvSize = recvSize'
  | .deleteMulti multi, .deleteMulti multi' => multi = multi'
  | _, _ => False

/-- What a call stores that returns `r`. -/
def Event.stores (r : ℤ) : Event α → List α
  | .addOne v | .addMulti v _ => List.replicate r.toNat v
  | _ => []

/-- What a call steps past that returns `r`, in a queue that stores the list. -/
def Event.passes (l : List α) (r : ℤ) : Event α → List α
  | .getOne | .getMulti _ | .deleteMulti _ => l.take r.toNat
  | _ => []

/-- What the get handler sees. -/
def Event.handles (l : List α) (r : ℤ) : Event α → List α
  | .getMulti _ => l.take r.toNat
  | _ => []

/-- The thread has made the call, which returned `r`. -/
structure Made (event : Event α) (l : List α) (r : ℤ) (t t' : Spsc α) : Prop where
  producer : t'.producer = t.producer
  consumer : t'.consumer = t.consumer
  stored : t'.stored = t.stored ++ event.stores r
  passed : t'.passed = t.passed ++ event.passes l r
  reads : t'.reads.map Prod.snd = t.reads.map Prod.snd ++ event.handles l r

/-- A call that returns `0` has done nothing. -/
theorem made_zero (event : Event α) (l : List α) (t : Spsc α) : Made event l 0 t t := by
  have nothing : event.stores 0 = [] ∧ event.passes l 0 = [] ∧ event.handles l 0 = [] := by
    cases event <;> exact ⟨rfl, rfl, rfl⟩
  obtain ⟨stores, passes, handles⟩ := nothing
  refine ⟨rfl, rfl, ?_, ?_, ?_⟩
  · rw [stores, List.append_nil]
  · rw [passes, List.append_nil]
  · rw [handles, List.append_nil]

section Calls

variable (h : Holds m a lq l) (shows : t.shared = lq.shared)
include h shows

theorem addOne_alone (one : 0 < newData.size) (ready : t.producer = .returned) :
    ∃ lq' r t', loopQueueAddOne lq newData = .ok (lq', r) ∧
      Alone m .produce (t.step m (.addOne (newData.data 0))) t' ∧ t'.shared = lq'.shared ∧
      Made (.addOne (newData.data 0)) l r t t' := by
  have room := h.room
  have meet := succ_mod_eq_mod_iff (a := a) (b := a + l.length) (m := m) (by omega) (by omega)
  have next := wrap_succ_tmod h.pos h.large (a + l.length)
  have head : t.shared.head = (a % m : ℕ) := by
    rw [shows]
    exact h.head
  have end_ : t.shared.end_ = ((a + l.length) % m : ℕ) := by
    rw [shows]
    exact h.end_
  -- the test of `loopQueueIsFull` reads `end` and then `head`
  have tested : (fun t => t.step m .produce)^[2] (t.step m (.addOne (newData.data 0))) =
      { t with producer :=
          if (wrap (t.shared.end_ + 1)).tmod m = t.shared.head then .returned
          else .storeEnd (newData.data 0) 0 1 } := by
    simp only [Function.iterate_succ_apply, Function.iterate_zero_apply, Spsc.step, produce]
  rw [end_, next, head] at tested
  have fullIff : (((a + l.length + 1) % m : ℕ) : ℤ) = (a % m : ℕ) ↔ l.length + 1 = m := by
    rw [Nat.cast_inj, meet]
    omega
  unfold loopQueueAddOne
  rw [h.isFull_eq, ok_bind]
  by_cases full : l.length + 1 = m
  · rw [if_pos (fullIff.mpr full), ← ready] at tested
    rw [if_pos full, if_neg (by simp)]
    exact ⟨lq, 0, t, rfl, ⟨2, tested⟩, shows, made_zero ..⟩
  · rw [if_neg (fullIff.not.mpr full)] at tested
    rw [if_neg full, if_pos (by simp)]
    obtain ⟨lq', done, -, alone⟩ := alone_addRound h one (by omega) (t := { t with
      producer := .storeEnd (newData.data 0) 0 1 }) shows rfl 0
    refine ⟨lq', 1, _, ?_, .trans ⟨2, tested⟩ alone, rfl, ?_⟩
    · rw [← bind_assoc, show (callAddOneDataFunc lq newData >>= loopQueueNonFullFastAddOne) =
        .ok lq' from done]
      rfl
    · exact ⟨ready.symm, rfl, rfl, (List.append_nil _).symm, (List.append_nil _).symm⟩

theorem addMulti_alone (one : 0 < newData.size) {multi : ℤ} (count : 0 ≤ multi)
    (ready : t.producer = .returned) :
    ∃ lq' r t', loopQueueAddMulti lq newData multi = .ok (lq', r) ∧
      Alone m .produce (t.step m (.addMulti (newData.data 0) multi)) t' ∧ t'.shared = lq'.shared ∧
      Made (.addMulti (newData.data 0) multi) l r t t' := by
  have room := h.room
  have large := h.large
  have least : 0 ≤ min multi ((m : ℤ) - 1 - l.length) := le_min count (by omega)
  have bound := min_le_right multi ((m : ℤ) - 1 - l.length)
  have used := alone_produce_useLength h (t := t.step m (.addMulti (newData.data 0) multi))
    shows rfl
  -- the idle length does not wrap, since no check fails on it
  have idle : addFrom m (newData.data 0) multi l.length =
      addLoop (newData.data 0) 0 (min multi ((m : ℤ) - 1 - l.length)) := by
    unfold addFrom
    dsimp only
    rw [wrap_eq (x := (m : ℤ) - 1) (by omega) (by omega), wrap_eq (by omega) (by omega), clamp_eq]
  rw [idle] at used
  obtain ⟨lq', done, alone⟩ := alone_addLoop h one rfl (by omega) (t := { t with
    producer := addLoop (newData.data 0) 0 (min multi ((m : ℤ) - 1 - l.length)) }) shows rfl
  refine ⟨lq', min multi ((m : ℤ) - 1 - l.length), _, ?_, used.trans alone, rfl, ?_⟩
  · simp only [loopQueueAddMulti, h.idleLength_eq, ok_bind, clamp_eq, done]
    rfl
  · exact ⟨ready.symm, rfl, rfl, (List.append_nil _).symm, (List.append_nil _).symm⟩

theorem getOne_alone (recvData : Option (Buffer α)) (ready : t.consumer = .returned) :
    ∃ lq' r t', (Op.getOne recvData).exec lq = .ok (lq', r) ∧
      Alone m .consume (t.step m .getOne) t' ∧ t'.shared = lq'.shared ∧
      Made .getOne l r t t' := by
  -- the test of `loopQueueIsEmpty` reads `head` and then `end`
  have tested : (fun t => t.step m .consume)^[2] (t.step m .getOne) =
      { t with consumer :=
          if t.shared.head = t.shared.end_ then .returned else .bumpRead false 0 1 } := by
    simp only [Function.iterate_succ_apply, Function.iterate_zero_apply, Spsc.step, consume]
  have empty := h.isEmpty_eq
  unfold loopQueueIsEmpty at empty
  have same : t.shared.head = lq.head ∧ t.shared.end_ = lq.end_ := by
    rw [shows]
    exact ⟨rfl, rfl⟩
  rw [same.1, same.2] at tested
  simp only [Op.exec, loopQueueGetOne, h.isEmpty_eq]
  cases l with
  | nil =>
    have meet : lq.head = lq.end_ := by
      by_contra apart
      rw [if_neg apart] at empty
      simp at empty
    rw [if_pos meet, ← ready] at tested
    exact ⟨lq, 0, t, rfl, ⟨2, tested⟩, shows, made_zero ..⟩
  | cons x l =>
    have apart : lq.head ≠ lq.end_ := by
      intro meet
      rw [if_pos meet] at empty
      simp at empty
    rw [if_neg apart] at tested
    obtain ⟨lq', done, -, t', alone, shows', pc, took⟩ := @alone_getRound α lq l m a
      { t with consumer := .bumpRead false 0 1 } x h shows false 0 1 Int.zero_lt_one rfl
    rw [if_neg (by simp), done]
    refine ⟨lq', 1, t', rfl, .trans ⟨2, tested⟩ alone, shows', took.producer, ?_, ?_, ?_, ?_⟩
    · rw [pc, ready]
      rfl
    · rw [took.stored]
      exact (List.append_nil _).symm
    · exact took.passed
    · exact took.reads

/-- From the use length on the two other calls differ in the handler only. -/
theorem alone_getFrom {σ : Type} {body : ℕ → σ → Except Fault σ} (queue : σ → Lq α)
    (Good : σ → Prop)
    (step : ∀ i s lq' a l, Good s → Holds m a (queue s) l →
      loopQueueNonEmptyFastGetOne (queue s) = .ok lq' →
      ∃ s', body i s = .ok s' ∧ queue s' = lq' ∧ Good s')
    {s : σ} (good : Good s) (same : queue s = lq) (handler : Bool) (n : ℤ) :
    ∃ s', forLoop body (min n l.length).toNat s = .ok s' ∧
      ∃ t', Alone m .consume { t with consumer := .compareEnd handler n } t' ∧
        t'.shared = (queue s').shared ∧ t'.consumer = .returned ∧
        Took handler (l.take (min n l.length).toNat) t t' := by
  have bound := min_le_right n (l.length : ℤ)
  have used := alone_consume_useLength h (t := { t with consumer := .compareEnd handler n }) shows
    rfl
  rw [getFrom, clamp_eq] at used
  obtain ⟨s', done, t', alone, shows', pc, took⟩ := alone_getLoop queue Good step good (same ▸ h)
    rfl (by omega) (t := { t with consumer := getLoop handler 0 (min n l.length) })
    (same ▸ shows) rfl
  exact ⟨s', done, t', used.trans alone, shows', pc, took.producer, took.stored, took.passed,
    took.reads⟩

theorem getMulti_alone {recvData : Option (Buffer α)} (room : Room recvData) (recvSize : ℤ)
    (ready : t.consumer = .returned) :
    ∃ lq' r t', (Op.getMulti recvData recvSize).exec lq = .ok (lq', r) ∧
      Alone m .consume (t.step m (.getMulti recvSize)) t' ∧ t'.shared = lq'.shared ∧
      Made (.getMulti recvSize) l r t t' := by
  obtain ⟨⟨lq', recvData'⟩, done, t', alone, shows', pc, took⟩ := alone_getFrom h shows Prod.fst
    (fun state => Room state.2) (fun i _ _ _ _ room holds stepped =>
      getRound_eq holds room stepped i) (s := (lq, recvData)) room rfl true recvSize
  refine ⟨lq', min recvSize l.length, t', ?_, alone, shows', took.producer, pc.trans ready.symm, ?_,
    took.passed, took.reads⟩
  · rw [Op.exec, getMulti_eq h.useLength_eq done]
    rfl
  · rw [took.stored]
    exact (List.append_nil _).symm

theorem deleteMulti_alone (multi : ℤ) (ready : t.consumer = .returned) :
    ∃ lq' r t', loopQueueDeleteMulti lq multi = .ok (lq', r) ∧
      Alone m .consume (t.step m (.deleteMulti multi)) t' ∧ t'.shared = lq'.shared ∧
      Made (.deleteMulti multi) l r t t' := by
  obtain ⟨lq', done, t', alone, shows', pc, took⟩ := alone_getFrom h shows id (fun _ => True)
    (fun _ _ lq' _ _ _ _ stepped =>
      ⟨lq', stepped, rfl, trivial⟩) trivial rfl false multi
  refine ⟨lq', min multi l.length, t', ?_, alone, shows', took.producer, pc.trans ready.symm, ?_,
    took.passed, took.reads⟩
  · have rounds : forLoop (fun _ lq => loopQueueNonEmptyFastGetOne lq)
        (min multi l.length).toNat lq = .ok lq' := done
    simp only [loopQueueDeleteMulti, h.useLength_eq, ok_bind, clamp_eq, rounds]
    rfl
  · rw [took.stored]
    exact (List.append_nil _).symm

end Calls

/-- On every reachable queue: a thread that starts one of its calls and is not interrupted
comes to its end, with the queue that the function leaves. It has stored as many copies, or
stepped past as many elements, as the function returns. -/
theorem calls_alone (reached : Reached none none lq) {event : Event α} {op : Op α}
    (starts : event.Starts op) (allowed : (machine α).Allowed lq op) (ready : event.Allowed t)
    (shows : t.shared = lq.shared) :
    ∃ lq' r t', op.exec lq = .ok (lq', r) ∧
      Alone lq.max event.access (t.step lq.max event) t' ∧ t'.shared = lq'.shared ∧
      Made event (contents lq.toRing) r t t' := by
  obtain ⟨m, a, l, h⟩ := reached.holds
  rw [h.allowed_iff] at allowed
  rw [h.max, h.contents_eq]
  cases event with
  | addOne v =>
    cases op with
    | addOne newData =>
      obtain rfl : newData.data 0 = v := starts
      exact addOne_alone h shows allowed ready
    | _ => exact starts.elim
  | addMulti v multi =>
    cases op with
    | addMulti newData multi' =>
      obtain ⟨rfl, rfl⟩ := starts
      exact addMulti_alone h shows allowed.1 allowed.2.1 ready.1
    | _ => exact starts.elim
  | getOne =>
    cases op with
    | getOne recvData => exact getOne_alone h shows recvData ready
    | _ => exact starts.elim
  | getMulti recvSize =>
    cases op with
    | getMulti recvData recvSize' =>
      obtain rfl : recvSize = recvSize' := starts
      exact getMulti_alone h shows allowed.1 recvSize ready.1
    | _ => exact starts.elim
  | deleteMulti multi =>
    cases op with
    | deleteMulti multi' =>
      obtain rfl : multi = multi' := starts
      exact deleteMulti_alone h shows multi ready.1
    | _ => exact starts.elim
  | produce => exact starts.elim
  | consume => exact starts.elim

/-- The threads have returned, and two elements are stored. -/
def pairSpsc : Spsc ℕ := ⟨pairLq.shared, .returned, .returned, [7, 8], [], []⟩

theorem calls_alone_pair :
    ∃ lq' r t', (Op.getMulti none 1).exec pairLq = .ok (lq', r) ∧
      Alone pairLq.max .consume (pairSpsc.step pairLq.max (.getMulti 1)) t' ∧
      t'.shared = lq'.shared ∧ Made (.getMulti 1) [7, 8] r pairSpsc t' := by
  have alone := calls_alone (t := pairSpsc) pairLq_reached (show Event.Starts (.getMulti 1)
    (.getMulti none 1) from rfl) (by decide) ⟨rfl, by decide⟩ rfl
  rwa [pairLq_contents] at alone

end Components.LoopQueue
