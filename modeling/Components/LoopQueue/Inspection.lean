import Components.LoopQueue.Delivery

/-!
# Inspecting and deleting

`loopQueueInspectMulti` followed by `loopQueueInspectDelete` is meant to do what
`loopQueueGetMulti` does. Both paths remove the same elements and return the same count,
but they call the get handler differently: an inspection leaves `head` where it is, a get
advances it in every round. A handler may depend on `head`, and then the two fill
`recvData` differently as soon as two elements are read.

The get handlers in question decide by the queue and the index what they store, and store
in `recvData` only. A handler of this kind is given by its stores; the default one is the
simplest. Neither handler can move the indices, so the indices a run reaches do not
depend on the get handler.

## Main definitions

* `Stores`, `storing` — get handlers that only store in `recvData`
* `Indexed` — the indices lie in the ring
* `inspectThenDelete` — the first of the two paths

## Main results

* `Reached.withGet` — other get handlers reach the same rings
* `getMulti_deletes` — both paths leave the same queue and return the same count
* `inspectDelete_agrees_iff` — when both paths agree on `recvData`
-/

namespace Components.LoopQueue

variable {α : Type} {lq lq' : Lq α} {recvData : Option (Buffer α)} {newData : Buffer α} {n r : ℤ}

/-! ### Get handlers -/

/-- What a get handler stores: positions in `recvData` and the values for them, decided by
the queue and the index. -/
abbrev Stores (α : Type) := Ring α → ℤ → Except Fault (List (ℤ × α))

/-- The get handler that makes these stores one after the other, and none if `recvData`
is `NULL`. -/
def storing (stores : Stores α) : GetOneDataFunc α := fun lq recvData i =>
  match recvData with
  | none => return none
  | some arrRecv => do
    let arrRecv ←
      (← stores lq i).foldlM (fun arrRecv store => arrRecv.write store.1 store.2) arrRecv
    return some arrRecv

/-- The default handler stores the element at the head in the first place. -/
theorem defaultAeduceOneDataFunc_eq : (defaultAeduceOneDataFunc : GetOneDataFunc α) =
    storing fun lq _ => do return [(0, ← lq.queue.read lq.head)] := by
  funext lq recvData i
  cases recvData with
  | none => rfl
  | some arrRecv =>
    simp only [defaultAeduceOneDataFunc, storing]
    cases lq.queue.read lq.head with
    | error e => rfl
    | ok x =>
      simp only [ok_bind, pure_bind, List.foldlM_cons, List.foldlM_nil, bind_assoc]

/-- The queue with another get handler. -/
def Lq.withGet (lq : Lq α) (f : GetOneDataFunc α) : Lq α := { lq with getOneDataFunc := some f }

/-! ### The two paths -/

/-- `k = loopQueueInspectMulti(lq, recvData, n)`, then `loopQueueInspectDelete(lq, k)`. -/
def inspectThenDelete (lq : Lq α) (recvData : Option (Buffer α)) (n : ℤ) :
    Except Fault (Lq α × Option (Buffer α) × ℤ) := do
  let (lq, recvData, k) ← loopQueueInspectMulti lq recvData n
  let (lq, _) ← loopQueueInspectDelete lq k
  return (lq, recvData, k)

/-! ### The indices -/

/-- The indices lie in the ring, and the get handler is known. -/
structure Indexed (get : GetOneDataFunc α) (lq : Lq α) : Prop where
  pos : 1 ≤ lq.max
  high : lq.max ≤ lqSizeMax
  head : 0 ≤ lq.head ∧ lq.head < lq.max
  end_ : 0 ≤ lq.end_ ∧ lq.end_ < lq.max
  handler : lq.getOneDataFunc = some get

namespace Indexed

variable {get : GetOneDataFunc α} (h : Indexed get lq)
include h

theorem withGet (f : GetOneDataFunc α) : Indexed f (lq.withGet f) :=
  ⟨h.pos, h.high, h.head, h.end_, rfl⟩

theorem fastAddOne :
    loopQueueNonFullFastAddOne lq = .ok { lq with end_ := (lq.end_ + 1) % lq.max } ∧
      Indexed get { lq with end_ := (lq.end_ + 1) % lq.max } := by
  obtain ⟨next, bounds⟩ := next_eq h.end_ h.high
  refine ⟨?_, h.pos, h.high, h.head, bounds, h.handler⟩
  unfold loopQueueNonFullFastAddOne
  rw [← bind_assoc, next]
  rfl

theorem fastGetOne :
    loopQueueNonEmptyFastGetOne lq = .ok { lq with head := (lq.head + 1) % lq.max } ∧
      Indexed get { lq with head := (lq.head + 1) % lq.max } := by
  obtain ⟨next, bounds⟩ := next_eq h.head h.high
  refine ⟨?_, h.pos, h.high, bounds, h.end_, h.handler⟩
  unfold loopQueueNonEmptyFastGetOne
  rw [← bind_assoc, next]
  rfl

theorem delete (k : ℤ) : ∃ lq', loopQueueInspectDelete lq k = .ok (lq', k) := by
  obtain ⟨lq', done, -⟩ := forLoop_of_invariant (n := k.toNat) (fun _ => Indexed get) h
    fun _ _ _ indexed => ⟨_, indexed.fastGetOne⟩
  refine ⟨lq', ?_⟩
  simp only [loopQueueInspectDelete, done, ok_bind]
  rfl

/-- Fewer elements are stored than the ring has slots. -/
theorem useLength : ∃ use, loopQueueGetUseLength lq.toRing = .ok use ∧ use < lq.max := by
  obtain ⟨pos, high, ⟨headLow, headHigh⟩, ⟨endLow, endHigh⟩, -⟩ := h
  unfold loopQueueGetUseLength
  split_ifs with order
  · refine ⟨lq.end_ - lq.head, ?_, by omega⟩
    rw [sub, checked_eq (by omega) (by omega)]
  · refine ⟨lq.max - lq.head + lq.end_, ?_, by omega⟩
    rw [sub, checked_eq (by omega) (by omega), ok_bind, add, checked_eq (by omega) (by omega)]

end Indexed

/-! ### Steps that do not look at the get handler -/

/-- The step keeps the indices in the ring and does the same under every get handler. -/
def Blind (step : Lq α → Except Fault (Lq α)) : Prop :=
  ∀ get lq lq', Indexed get lq → step lq = .ok lq' →
    Indexed get lq' ∧ ∀ f, step (lq.withGet f) = .ok (lq'.withGet f)

namespace Blind

theorem bind {first second : Lq α → Except Fault (Lq α)} (h : Blind first) (h' : Blind second) :
    Blind fun lq => first lq >>= second := by
  intro get lq lq'' indexed done
  obtain ⟨lq', done, done'⟩ := bind_eq_ok done
  obtain ⟨indexed', same⟩ := h get lq lq' indexed done
  obtain ⟨indexed'', same'⟩ := h' get lq' lq'' indexed' done'
  refine ⟨indexed'', fun f => ?_⟩
  dsimp only
  rw [same, ok_bind, same']

theorem forLoop {body : ℕ → Lq α → Except Fault (Lq α)} (h : ∀ i, Blind (body i)) (k : ℕ) :
    Blind (forLoop body k) := by
  induction k with
  | zero =>
    intro get lq lq' indexed done
    cases done
    exact ⟨indexed, fun f => rfl⟩
  | succ k ih =>
    have rounds := ih.bind (h k)
    simp only [← forLoop_succ] at rounds
    exact rounds

theorem fastAddOne : Blind (loopQueueNonFullFastAddOne (α := α)) := by
  intro get lq lq' indexed done
  cases indexed.fastAddOne.1.symm.trans done
  exact ⟨indexed.fastAddOne.2, fun f => (indexed.withGet f).fastAddOne.1⟩

theorem fastGetOne : Blind (loopQueueNonEmptyFastGetOne (α := α)) := by
  intro get lq lq' indexed done
  cases indexed.fastGetOne.1.symm.trans done
  exact ⟨indexed.fastGetOne.2, fun f => (indexed.withGet f).fastGetOne.1⟩

theorem unknownFullFastAddOne : Blind (loopQueueUnknownFullFastAddOne (α := α)) := by
  refine fastAddOne.bind ?_
  intro get lq lq' indexed done
  dsimp only at done
  by_cases caught : lq.end_ = lq.head
  · rw [if_pos caught] at done
    obtain ⟨indexed', same⟩ := fastGetOne get lq lq' indexed done
    exact ⟨indexed', fun f => (if_pos caught).trans (same f)⟩
  · rw [if_neg caught] at done
    cases done
    exact ⟨indexed, fun f => if_neg caught⟩

theorem callAddOneDataFunc (newData : Buffer α) :
    Blind fun lq => callAddOneDataFunc lq newData := by
  rintro get ⟨ring, addOneDataFunc, getOneDataFunc, userData⟩ lq' indexed done
  cases addOneDataFunc with
  | none =>
    cases done
    exact ⟨indexed, fun f => rfl⟩
  | some add =>
    obtain ⟨queue, stored, done⟩ := bind_eq_ok done
    cases done
    refine ⟨⟨indexed.pos, indexed.high, indexed.head, indexed.end_, indexed.handler⟩, fun f => ?_⟩
    simp only [LoopQueue.callAddOneDataFunc, Lq.withGet, stored, ok_bind]
    rfl

theorem addRound (newData : Buffer α) (i : ℕ) : Blind (addRound newData i) :=
  (callAddOneDataFunc newData).bind fastAddOne

theorem forceAddRound (newData : Buffer α) (i : ℕ) : Blind (forceAddRound newData i) :=
  (callAddOneDataFunc newData).bind unknownFullFastAddOne

end Blind

/-- The same for a call that returns a count. -/
def BlindCall (call : Lq α → Except Fault (Lq α × ℤ)) : Prop :=
  ∀ get lq lq' r, Indexed get lq → call lq = .ok (lq', r) →
    Indexed get lq' ∧ ∀ f, call (lq.withGet f) = .ok (lq'.withGet f, r)

namespace BlindCall

theorem returning (r : ℤ) : BlindCall fun lq : Lq α => return (lq, r) := by
  intro get lq lq' r' indexed done
  cases done
  exact ⟨indexed, fun f => rfl⟩

/-- A step comes first. -/
theorem after {step : Lq α → Except Fault (Lq α)} {call : Lq α → Except Fault (Lq α × ℤ)}
    (h : Blind step) (h' : BlindCall call) : BlindCall fun lq => step lq >>= call := by
  intro get lq lq'' r indexed done
  obtain ⟨lq', stepped, done⟩ := bind_eq_ok done
  obtain ⟨indexed', same⟩ := h get lq lq' indexed stepped
  obtain ⟨indexed'', same'⟩ := h' get lq' lq'' r indexed' done
  refine ⟨indexed'', fun f => ?_⟩
  dsimp only
  rw [same, ok_bind, same']

/-- The call depends on what is computed from the ring. -/
theorem reading {β : Type} (read : Ring α → Except Fault β)
    {call : β → Lq α → Except Fault (Lq α × ℤ)} (h : ∀ b, BlindCall (call b)) :
    BlindCall fun lq => read lq.toRing >>= fun b => call b lq := by
  intro get lq lq' r indexed done
  obtain ⟨b, known, done⟩ := bind_eq_ok done
  obtain ⟨indexed', same⟩ := h b get lq lq' r indexed done
  refine ⟨indexed', fun f => ?_⟩
  have known' : read (lq.withGet f).toRing = .ok b := known
  dsimp only
  rw [known', ok_bind, same]

theorem addOne (newData : Buffer α) : BlindCall fun lq => loopQueueAddOne lq newData := by
  refine reading loopQueueIsFull fun state => ?_
  split_ifs with room
  · exact after (.callAddOneDataFunc newData) (after .fastAddOne (.returning 1))
  · exact .returning 0

theorem forceAddOne (newData : Buffer α) : BlindCall fun lq => loopQueueForceAddOne lq newData :=
  after (.callAddOneDataFunc newData) (after .unknownFullFastAddOne (.returning 1))

theorem addMulti (newData : Buffer α) (multi : ℤ) :
    BlindCall fun lq => loopQueueAddMulti lq newData multi :=
  reading loopQueueGetIdleLength fun _ => after (.forLoop (.addRound newData) _) (.returning _)

theorem forceAddMulti (newData : Buffer α) (multi : ℤ) :
    BlindCall fun lq => loopQueueForceAddMulti lq newData multi :=
  after (.forLoop (.forceAddRound newData) _) (.returning multi)

theorem inspectDelete (multi : ℤ) : BlindCall fun lq : Lq α => loopQueueInspectDelete lq multi :=
  after (.forLoop (fun _ => .fastGetOne) _) (.returning multi)

theorem deleteMulti (multi : ℤ) : BlindCall fun lq : Lq α => loopQueueDeleteMulti lq multi :=
  reading loopQueueGetUseLength fun _ => after (.forLoop (fun _ => .fastGetOne) _) (.returning _)

theorem getOne (recvData : Option (Buffer α)) :
    BlindCall fun lq => Op.exec lq (.getOne recvData) := by
  have same : (fun lq => Op.exec lq (.getOne recvData)) = fun lq =>
      (pure (loopQueueIsEmpty lq.toRing) : Except Fault LqState) >>= fun state =>
        if state = .empty then return (lq, 0)
        else loopQueueNonEmptyFastGetOne lq >>= fun lq => return (lq, 1) := by
    funext lq
    rw [pure_bind, Op.exec, loopQueueGetOne]
    split_ifs with empty
    · rfl
    · simp only [bind_assoc, pure_bind]
  rw [same]
  refine reading (fun ring => pure (loopQueueIsEmpty ring)) fun state => ?_
  split_ifs with empty
  · exact .returning 0
  · exact after .fastGetOne (.returning 1)

end BlindCall

/-! ### Other get handlers reach the same rings -/

/-- The get handler completes whenever there is room for one element. -/
def Ready (f : GetOneDataFunc α) : Prop :=
  ∀ lq recvData i, Room recvData → ∃ recvData', f lq recvData i = .ok recvData' ∧ Room recvData'

/-- A get that completes has completed its loop. -/
theorem getMulti_rounds {recvData' : Option (Buffer α)} {use k : ℤ}
    (known : loopQueueGetUseLength lq.toRing = .ok use)
    (got : loopQueueGetMulti lq recvData n = .ok (lq', recvData', k)) :
    k = min n use ∧
      forLoop getRound (min n use).toNat (lq, recvData) = .ok (lq', recvData') := by
  rw [loopQueueGetMulti, known, ok_bind] at got
  obtain ⟨state, rounds, result⟩ := bind_eq_ok got
  rw [clamp_eq] at rounds
  cases result
  exact ⟨clamp_eq n use, rounds⟩

/-- A loop that reads follows any other one, with the same queues. -/
theorem forLoop_getRound_withGet {get f : GetOneDataFunc α} (ready : Ready f) {k : ℕ}
    {recvData recvData₁ recvData' : Option (Buffer α)} (indexed : Indexed get lq)
    (room : Room recvData) (done : forLoop getRound k (lq, recvData₁) = .ok (lq', recvData')) :
    Indexed get lq' ∧
      ∃ got, forLoop getRound k (lq.withGet f, recvData) = .ok (lq'.withGet f, got) := by
  have rounds : ∃ state, forLoop getRound k (lq.withGet f, recvData) = .ok state ∧
      Indexed get lq' ∧ state.1 = lq'.withGet f ∧ Room state.2 := by
    refine forLoop_simulates
      (fun _ (state₁ state : Lq α × Option (Buffer α)) =>
        Indexed get state₁.1 ∧ state.1 = state₁.1.withGet f ∧ Room state.2)
      ⟨indexed, rfl, room⟩ ?_ done
    rintro i ⟨lq, recvData₁⟩ ⟨-, recvData⟩ ⟨lq', recvData₁'⟩ - ⟨indexed, rfl, room⟩ done
    obtain ⟨got₁, -, done⟩ := bind_eq_ok done
    obtain ⟨lq', stepped, done⟩ := bind_eq_ok done
    cases done
    obtain ⟨indexed', same⟩ := Blind.fastGetOne get lq lq' indexed stepped
    obtain ⟨got, called, room'⟩ := ready lq.toRing recvData i room
    refine ⟨(lq'.withGet f, got), ?_, indexed', rfl, room'⟩
    have call : callGetOneDataFunc (lq.withGet f) recvData i = .ok got := called
    simp only [getRound, call, ok_bind, same]
    rfl
  obtain ⟨⟨lq₂, got⟩, done', indexed', rfl, -⟩ := rounds
  exact ⟨indexed', got, done'⟩

/-- A loop that only calls the handler completes. -/
theorem forLoop_inspect_withGet {f : GetOneDataFunc α} (ready : Ready f) (room : Room recvData)
    (lq : Lq α) (k : ℕ) :
    ∃ got, forLoop (fun i recvData => callGetOneDataFunc (lq.withGet f) recvData i) k recvData =
      .ok got := by
  obtain ⟨got, done, -⟩ := forLoop_of_invariant (n := k) (fun _ => Room) room
    fun i recvData _ room => ready lq.toRing recvData i room
  exact ⟨got, done⟩

/-- A call that completes under one get handler leaves the same ring under every other one
that completes. -/
theorem exec_withGet {get f : GetOneDataFunc α} (ready : Ready f) {op : Op α} {use : ℤ}
    (indexed : Indexed get lq) (allowed : op.Allowed use) (done : op.exec lq = .ok (lq', r)) :
    Indexed get lq' ∧ op.exec (lq.withGet f) = .ok (lq'.withGet f, r) := by
  have blind : ∀ call, BlindCall call → call lq = .ok (lq', r) →
      Indexed get lq' ∧ call (lq.withGet f) = .ok (lq'.withGet f, r) := by
    intro call h done
    obtain ⟨indexed', same⟩ := h get lq lq' r indexed done
    exact ⟨indexed', same f⟩
  cases op with
  | addOne newData => exact blind _ (.addOne newData) done
  | forceAddOne newData => exact blind _ (.forceAddOne newData) done
  | addMulti newData multi => exact blind _ (.addMulti newData multi) done
  | forceAddMulti newData multi => exact blind _ (.forceAddMulti newData multi) done
  | getOne recvData => exact blind _ (.getOne recvData) done
  -- the two operations that call the handler
  | getMulti recvData recvSize =>
    obtain ⟨⟨lq', got₁, count⟩, done, result⟩ := bind_eq_ok done
    cases result
    obtain ⟨use, known, -⟩ := bind_eq_ok done
    obtain ⟨rfl, rounds⟩ := getMulti_rounds known done
    obtain ⟨indexed', got, rounds'⟩ := forLoop_getRound_withGet ready indexed allowed.1 rounds
    have known' : loopQueueGetUseLength (lq.withGet f).toRing = .ok use := known
    refine ⟨indexed', ?_⟩
    rw [Op.exec, getMulti_eq known' rounds']
    rfl
  | inspectMulti recvData recvSize =>
    obtain ⟨⟨lq', got₁, count⟩, done, result⟩ := bind_eq_ok done
    cases result
    obtain ⟨use, known, done⟩ := bind_eq_ok done
    obtain ⟨got₁, -, result⟩ := bind_eq_ok done
    cases result
    obtain ⟨got, rounds⟩ := forLoop_inspect_withGet ready allowed.1 lq (min recvSize use).toNat
    have known' : loopQueueGetUseLength (lq.withGet f).toRing = .ok use := known
    refine ⟨indexed, ?_⟩
    rw [Op.exec, inspectMulti_eq known' rounds, clamp_eq]
    rfl
  | inspectDelete multi => exact blind _ (.inspectDelete multi) done
  | deleteMulti multi => exact blind _ (.deleteMulti multi) done
  | deleteAll =>
    cases done
    exact ⟨⟨indexed.pos, indexed.high, indexed.end_, indexed.end_, indexed.handler⟩, rfl⟩

/-- What a queue reaches under one get handler it reaches under every other one that
completes. -/
theorem Reached.withGet {add : Option (AddOneDataFunc α)} {get : Option (GetOneDataFunc α)}
    {f : GetOneDataFunc α} (reached : Reached add get lq) (ready : Ready f) :
    Indexed (get.getD defaultAeduceOneDataFunc) lq ∧ Reached add (some f) (lq.withGet f) := by
  obtain ⟨lq₀, max, queue, userData, ops, results, low, high, size, adm, done⟩ := reached
  have start : Indexed (get.getD defaultAeduceOneDataFunc)
      (loopQueueInit lq₀ max queue add get userData) :=
    ⟨low, high, ⟨le_rfl, low⟩, ⟨le_rfl, low⟩, rfl⟩
  have step : ∀ lq lq₁ op lq' r,
      (Indexed (get.getD defaultAeduceOneDataFunc) lq ∧ lq₁ = lq.withGet f) →
      (machine α).Allowed lq op → (machine α).step lq op = .ok (lq', r) →
      (machine α).Allowed lq₁ op ∧ ∃ lq₁', (machine α).step lq₁ op = .ok (lq₁', r) ∧
        Indexed (get.getD defaultAeduceOneDataFunc) lq' ∧ lq₁' = lq'.withGet f := by
    rintro lq - op lq' r ⟨indexed, rfl⟩ ⟨use, known, allowed⟩ taken
    obtain ⟨indexed', taken'⟩ := exec_withGet ready indexed allowed taken
    exact ⟨⟨use, known, allowed⟩, lq'.withGet f, taken', indexed', rfl⟩
  obtain ⟨adm', lq₁, done', indexed, rfl⟩ :=
    Machine.run_of_simulation (N := machine α) step ⟨start, rfl⟩ adm done
  exact ⟨indexed, lq₀, max, queue, userData, ops, results, low, high, size, adm', done'⟩

theorem Reached.indexed {add : Option (AddOneDataFunc α)} {get : Option (GetOneDataFunc α)}
    (reached : Reached add get lq) : Indexed (get.getD defaultAeduceOneDataFunc) lq := by
  have ready : Ready fun (_ : Ring α) recvData _ => .ok recvData := by
    intro lq recvData i room
    exact ⟨recvData, rfl, room⟩
  exact (reached.withGet ready).1

/-! ### Where the paths agree -/

/-- A get removes what a delete of the count it returns removes. -/
theorem getMulti_deletes {recvData' : Option (Buffer α)} {k : ℤ}
    (got : loopQueueGetMulti lq recvData n = .ok (lq', recvData', k)) :
    loopQueueInspectDelete lq k = .ok (lq', k) := by
  obtain ⟨use, known, -⟩ := bind_eq_ok got
  obtain ⟨rfl, rounds⟩ := getMulti_rounds known got
  have deleted : ∃ lq₁, forLoop (fun _ lq => loopQueueNonEmptyFastGetOne lq) (min n use).toNat lq =
      .ok lq₁ ∧ lq₁ = lq' := by
    refine forLoop_simulates (fun _ (state : Lq α × Option (Buffer α)) lq => lq = state.1) rfl ?_
      rounds
    rintro i ⟨lq, recvData⟩ _ state - rfl done
    obtain ⟨recvData', -, done⟩ := bind_eq_ok done
    obtain ⟨lq', stepped, done⟩ := bind_eq_ok done
    cases done
    exact ⟨lq', stepped, rfl⟩
  obtain ⟨lq₁, deleted, rfl⟩ := deleted
  simp only [loopQueueInspectDelete, deleted, ok_bind]
  rfl

theorem inspectThenDelete_eq {seen : Option (Buffer α)} {k : ℤ}
    (inspected : loopQueueInspectMulti lq recvData n = .ok (lq, seen, k))
    (deleted : loopQueueInspectDelete lq k = .ok (lq', k)) :
    inspectThenDelete lq recvData n = .ok (lq', seen, k) := by
  simp only [inspectThenDelete, inspected, ok_bind, deleted]
  rfl

/-- When both paths complete, only `recvData` can differ. -/
theorem agrees_iff {seen recvData' : Option (Buffer α)} {k : ℤ}
    (inspected : loopQueueInspectMulti lq recvData n = .ok (lq, seen, k))
    (got : loopQueueGetMulti lq recvData n = .ok (lq', recvData', k)) :
    inspectThenDelete lq recvData n = loopQueueGetMulti lq recvData n ↔ seen = recvData' := by
  rw [inspectThenDelete_eq inspected (getMulti_deletes got), got]
  simp

/-- Both paths call the handler for the first element alike. -/
theorem agrees_of_le_one {use : ℤ} (known : loopQueueGetUseLength lq.toRing = .ok use)
    (few : min n use ≤ 1) :
    inspectThenDelete lq recvData n = loopQueueGetMulti lq recvData n := by
  have count : (min n use).toNat = 0 ∨ (min n use).toNat = 1 := by omega
  rcases count with zero | one
  · simp only [inspectThenDelete, loopQueueInspectMulti, loopQueueInspectDelete,
      loopQueueGetMulti, known, ok_bind, pure_bind, clamp_eq, zero, forLoop]
  · simp only [inspectThenDelete, loopQueueInspectMulti, loopQueueInspectDelete,
      loopQueueGetMulti, known, ok_bind, pure_bind, bind_assoc, clamp_eq, one, forLoop, getRound]

/-- Without a buffer there is nothing to disagree on. -/
theorem agrees_of_null {stores : Stores α} (indexed : Indexed (storing stores) lq) (n : ℤ) :
    inspectThenDelete lq none n = loopQueueGetMulti lq none n := by
  obtain ⟨use, known, -⟩ := indexed.useLength
  have call : ∀ {lq : Lq α}, Indexed (storing stores) lq → ∀ i : ℤ,
      callGetOneDataFunc lq none i = .ok none := by
    intro lq indexed i
    rw [callGetOneDataFunc, indexed.handler]
    rfl
  have inspected : ∃ seen, forLoop (fun i recvData => callGetOneDataFunc lq recvData i)
      (min n use).toNat none = .ok seen ∧ seen = none := by
    refine forLoop_of_invariant (fun _ seen => seen = none) rfl ?_
    rintro i _ - rfl
    exact ⟨none, call indexed i, rfl⟩
  have got : ∃ state, forLoop getRound (min n use).toNat (lq, none) = .ok state ∧
      Indexed (storing stores) state.1 ∧ state.2 = none := by
    refine forLoop_of_invariant (fun _ (state : Lq α × Option (Buffer α)) =>
      Indexed (storing stores) state.1 ∧ state.2 = none) ⟨indexed, rfl⟩ ?_
    rintro i ⟨lq, _⟩ - ⟨indexed, rfl⟩
    obtain ⟨stepped, indexed'⟩ := indexed.fastGetOne
    refine ⟨(_, none), ?_, indexed', rfl⟩
    simp only [getRound, call indexed, ok_bind, stepped]
    rfl
  obtain ⟨_, inspected, rfl⟩ := inspected
  obtain ⟨⟨lq', _⟩, got, -, rfl⟩ := got
  exact (agrees_iff (inspectMulti_eq known inspected) (getMulti_eq known got)).mpr rfl

/-! ### Where the paths differ -/

/-- Store `x` in the first place, except where the head is at `h`. -/
def storeAway (h : ℤ) (x : α) : Stores α := fun lq _ =>
  .ok (if lq.head = h then [] else [(0, x)])

theorem storing_storeAway {h : ℤ} {x : α} (lq : Ring α) (arrRecv : Buffer α) (i : ℤ) :
    storing (storeAway h x) lq (some arrRecv) i =
      if lq.head = h then .ok (some arrRecv) else some <$> arrRecv.write 0 x := by
  unfold storing storeAway
  split_ifs with at_
  · rfl
  · simp only [ok_bind, List.foldlM_cons, List.foldlM_nil, bind_pure]
    rfl

theorem ready_storeAway (h : ℤ) (x : α) : Ready (storing (storeAway h x)) := by
  intro lq recvData i room
  cases recvData with
  | none => exact ⟨none, rfl, room⟩
  | some arrRecv =>
    have one := room arrRecv rfl
    rw [storing_storeAway]
    split_ifs with at_
    · exact ⟨some arrRecv, rfl, room⟩
    · have first : (0 : ℤ) ≤ 0 ∧ (0 : ℤ) < arrRecv.size := ⟨le_rfl, by omega⟩
      rw [Buffer.write, if_pos first]
      refine ⟨_, rfl, ?_⟩
      intro arrRecv' mem
      cases mem
      exact one

/-- The head comes back to where it was after a whole round only. -/
theorem add_emod_ne {h i max : ℤ} (inside : 0 ≤ h ∧ h < max) (moved : 0 < i) (short : i < max) :
    (h + i) % max ≠ h := by
  intro back
  by_cases before : h + i < max
  · rw [Int.emod_eq_of_lt (by omega) before] at back
    omega
  · rw [← Int.sub_emod_right, Int.emod_eq_of_lt (by omega) (by omega)] at back
    omega

/-- The queue with the head `i` places further on. -/
def Lq.advance (lq : Lq α) (i : ℕ) : Lq α := { lq with head := (lq.head + i) % lq.max }

theorem Indexed.advance {get : GetOneDataFunc α} (indexed : Indexed get lq) (i : ℕ) :
    Indexed get (lq.advance i) ∧
      loopQueueNonEmptyFastGetOne (lq.advance i) = .ok (lq.advance (i + 1)) := by
  have low := Int.emod_nonneg (lq.head + i) (b := lq.max) (by have := indexed.pos; omega)
  have less := Int.emod_lt_of_pos (lq.head + i) (b := lq.max) indexed.pos
  have moved : Indexed get (lq.advance i) :=
    ⟨indexed.pos, indexed.high, ⟨low, less⟩, indexed.end_, indexed.handler⟩
  refine ⟨moved, moved.fastGetOne.1.trans ?_⟩
  simp only [Lq.advance, Int.emod_add_emod, Nat.cast_succ, add_assoc]

theorem Indexed.advance_zero {get : GetOneDataFunc α} (indexed : Indexed get lq) :
    lq.advance 0 = lq := by
  have home : (lq.head + (0 : ℕ)) % lq.max = lq.head := by
    rw [Nat.cast_zero, add_zero]
    exact Int.emod_eq_of_lt indexed.head.1 indexed.head.2
  rw [Lq.advance, home]

/-- The handler stores `x` from the second element on, when the head has moved. -/
theorem storeAway_stores {x : α} {arrRecv : Buffer α} {k : ℕ} {recvData' : Option (Buffer α)}
    (indexed : Indexed (storing (storeAway lq.head x)) lq) (short : k < lq.max)
    (rounds : forLoop getRound k (lq, some arrRecv) = .ok (lq', recvData')) :
    ∃ arrRecv', recvData' = some arrRecv' ∧ (2 ≤ k → arrRecv'.data 0 = x) := by
  have stored : lq' = lq.advance k ∧
      ∃ arrRecv', recvData' = some arrRecv' ∧ (2 ≤ k → arrRecv'.data 0 = x) := by
    refine forLoop_invariant
      (fun i (state : Lq α × Option (Buffer α)) => state.1 = lq.advance i ∧
        ∃ arrRecv', state.2 = some arrRecv' ∧ (2 ≤ i → arrRecv'.data 0 = x)) ?_ ?_ rounds
    · exact ⟨indexed.advance_zero.symm, arrRecv, rfl, fun wrong => by omega⟩
    rintro i ⟨-, -⟩ state hi ⟨rfl, arrRecv, rfl, before⟩ done
    obtain ⟨moved, stepped⟩ := indexed.advance i
    obtain ⟨recvData', called, done⟩ := bind_eq_ok done
    obtain ⟨lq', next, done⟩ := bind_eq_ok done
    cases stepped.symm.trans next
    cases done
    have call : callGetOneDataFunc (lq.advance i) (some arrRecv) i =
        if (lq.advance i).head = lq.head then .ok (some arrRecv)
        else some <$> arrRecv.write 0 x := by
      rw [callGetOneDataFunc, moved.handler]
      exact storing_storeAway _ _ _
    have called' := call.symm.trans called
    refine ⟨rfl, ?_⟩
    by_cases first : i = 0
    · subst first
      rw [indexed.advance_zero, if_pos rfl] at called'
      cases called'
      exact ⟨arrRecv, rfl, fun wrong => by omega⟩
    · have away : (lq.advance i).head ≠ lq.head :=
        add_emod_ne indexed.head (by omega) (by omega)
      rw [if_neg away, Buffer.write] at called'
      split_ifs at called' with inside
      · cases called'
        exact ⟨_, rfl, fun _ => by simp⟩
      · cases called'
  exact stored.2

/-- A handler that depends on the head tells the two paths apart. -/
theorem storeAway_differs {h : ℤ} {x : α} {arrRecv : Buffer α} {use : ℤ}
    (indexed : Indexed (storing (storeAway h x)) lq) (home : h = lq.head)
    (known : loopQueueGetUseLength lq.toRing = .ok use) (bound : use < lq.max)
    (many : 1 < min n use) (other : arrRecv.data 0 ≠ x) :
    inspectThenDelete lq (some arrRecv) n ≠ loopQueueGetMulti lq (some arrRecv) n := by
  subst home
  -- the inspection stores nothing
  have inspected : ∃ seen, forLoop (fun i recvData => callGetOneDataFunc lq recvData i)
      (min n use).toNat (some arrRecv) = .ok seen ∧ seen = some arrRecv := by
    refine forLoop_of_invariant (fun _ seen => seen = some arrRecv) rfl ?_
    rintro i _ - rfl
    refine ⟨some arrRecv, ?_, rfl⟩
    rw [callGetOneDataFunc, indexed.handler]
    exact (storing_storeAway _ _ _).trans (if_pos rfl)
  obtain ⟨_, inspected, rfl⟩ := inspected
  have inspected' := inspectMulti_eq known inspected
  intro agree
  cases got : loopQueueGetMulti lq (some arrRecv) n with
  | error e =>
    obtain ⟨lq', deleted⟩ := indexed.delete (min n use)
    rw [got, inspectThenDelete_eq inspected' deleted] at agree
    cases agree
  | ok result =>
    obtain ⟨lq', recvData', k⟩ := result
    obtain ⟨rfl, rounds⟩ := getMulti_rounds known got
    obtain rfl := (agrees_iff inspected' got).mp agree
    have bound' := min_le_right n use
    obtain ⟨arrRecv', same, stored⟩ := storeAway_stores indexed (by omega) rounds
    cases same
    exact other (stored (by omega))

/-! ### The default handler -/

theorem Buffer.store_inj {buffer : Buffer α} {x y : α} :
    buffer.store x = buffer.store y ↔ x = y := by
  constructor
  · intro same
    have first := congrArg (fun buffer => buffer.data 0) same
    simpa [Buffer.store] using first
  · rintro rfl
    rfl

/-- The default handler leaves the last element that a get removes, but the first one
that an inspection sees. -/
theorem Holds.default_agrees_iff {l : List α} {m a : ℕ} (h : Holds m a lq l) {arrRecv : Buffer α}
    (one : 0 < arrRecv.size) :
    inspectThenDelete lq (some arrRecv) n = loopQueueGetMulti lq (some arrRecv) n ↔
      l[(min n l.length).toNat - 1]? = l[0]? := by
  by_cases few : min n (l.length : ℤ) ≤ 1
  · have start : (min n (l.length : ℤ)).toNat - 1 = 0 := by omega
    rw [start]
    exact iff_of_true (agrees_of_le_one h.useLength_eq few) rfl
  have room : Room (some arrRecv) := by
    intro arrRecv' mem
    cases mem
    exact one
  have bound := min_le_right n (l.length : ℤ)
  have count : 0 ≤ n := by omega
  obtain ⟨lq', got, -⟩ := h.getMulti count fun _ => room
  rw [agrees_iff (h.inspectMulti room n) got]
  obtain ⟨k, next⟩ := Nat.exists_eq_succ_of_ne_zero
    (show (min n (l.length : ℤ)).toNat ≠ 0 by omega)
  have more : k < l.length := by omega
  have last : l[k]? = some l[k] := List.getElem?_eq_getElem more
  have first : l[0]? = some l[0] := List.getElem?_eq_getElem (by omega)
  have front : lq.queue.data (a % m) = l[0] := h.window 0 (by omega)
  rw [next, Nat.succ_eq_add_one, Nat.add_sub_cancel, last, first, received, received,
    Option.map_some, Option.map_some, foldl_store_take more, List.replicate_succ',
    foldl_store_concat, front, Option.some_inj, Option.some_inj, Buffer.store_inj, eq_comm]

/-! ### Every handler -/

/-- Inspecting and deleting agrees with getting under every get handler exactly if there is
at most one element to read or `recvData` is `NULL`. Under the default handler, which
stores in the first place only, it also agrees if the last element equals the first. -/
theorem inspectDelete_agrees_iff [Nontrivial α] {add : Option (AddOneDataFunc α)}
    {get : Option (GetOneDataFunc α)} (reached : Reached add get lq)
    (recvData : Option (Buffer α)) (n : ℤ) :
    ∃ use, loopQueueGetUseLength lq.toRing = .ok use ∧
      ((∀ stores lq', Reached add (some (storing stores)) lq' → lq'.toRing = lq.toRing →
          inspectThenDelete lq' recvData n = loopQueueGetMulti lq' recvData n) ↔
        min n use ≤ 1 ∨ recvData = none) ∧
      ∀ lq', Reached none none lq' → lq'.toRing = lq.toRing →
        ∀ arrRecv ∈ recvData, 0 < arrRecv.size →
          (inspectThenDelete lq' recvData n = loopQueueGetMulti lq' recvData n ↔
            (contents lq.toRing)[(min n use).toNat - 1]? = (contents lq.toRing)[0]?) := by
  obtain ⟨use, known, bound⟩ := reached.indexed.useLength
  refine ⟨use, known, ⟨?_, ?_⟩, ?_⟩
  · intro agrees
    by_contra differ
    obtain ⟨many, buffer⟩ := not_or.mp differ
    obtain ⟨arrRecv, rfl⟩ := Option.ne_none_iff_exists'.mp buffer
    obtain ⟨x, other⟩ := exists_ne (arrRecv.data 0)
    obtain ⟨indexed, reached'⟩ := reached.withGet (ready_storeAway lq.head x)
    exact storeAway_differs (indexed.withGet (storing (storeAway lq.head x))) rfl known bound
      (not_le.mp many) other.symm (agrees _ _ reached' rfl)
  · rintro (few | rfl) stores lq' reached' same
    · exact agrees_of_le_one (same ▸ known) few
    · exact agrees_of_null reached'.indexed n
  · rintro lq' reached' same arrRecv mem one
    obtain ⟨m, a, l, holds⟩ := reached'.holds
    rw [← same] at known ⊢
    obtain rfl : (l.length : ℤ) = use := Except.ok.inj (holds.useLength_eq.symm.trans known)
    rw [holds.contents_eq, Option.mem_def.mp mem]
    exact holds.default_agrees_iff one

/-- With `7` and `8` in the queue and a buffer, some handler tells the paths apart for two
elements and none does for one. -/
theorem inspectDelete_agrees_iff_pair :
    inspectThenDelete pairLq (some ⟨2, fun _ => 0⟩) 1 =
        loopQueueGetMulti pairLq (some ⟨2, fun _ => 0⟩) 1 ∧
      ¬ ∀ stores lq', Reached none (some (storing stores)) lq' → lq'.toRing = pairLq.toRing →
        inspectThenDelete lq' (some ⟨2, fun _ => 0⟩) 2 =
          loopQueueGetMulti lq' (some ⟨2, fun _ => 0⟩) 2 := by
  constructor
  · obtain ⟨use, known, -, default⟩ :=
      inspectDelete_agrees_iff pairLq_reached (some ⟨2, fun _ => 0⟩) 1
    obtain rfl : 2 = use := Except.ok.inj known
    rw [default pairLq pairLq_reached rfl _ rfl (by decide)]
    rfl
  · obtain ⟨use, known, every, -⟩ :=
      inspectDelete_agrees_iff pairLq_reached (some ⟨2, fun _ => 0⟩) 2
    obtain rfl : 2 = use := Except.ok.inj known
    rw [every]
    simp

/-- Inspecting `7` and `8` leaves `7` in the buffer, getting them leaves `8`. -/
theorem inspectDelete_differs_pair : Reached none none pairLq ∧
    (∃ stores : Stores ℕ, pairLq.getOneDataFunc = some (storing stores)) ∧
    inspectThenDelete pairLq (some ⟨2, fun _ => 0⟩) 2 ≠
      loopQueueGetMulti pairLq (some ⟨2, fun _ => 0⟩) 2 := by
  refine ⟨pairLq_reached, ⟨_, congrArg some defaultAeduceOneDataFunc_eq⟩, ?_⟩
  obtain ⟨m, a, l, holds⟩ := pairLq_reached.holds
  obtain rfl : l = [7, 8] := holds.contents_eq.symm.trans pairLq_contents
  rw [Ne, holds.default_agrees_iff (by decide)]
  decide

end Components.LoopQueue
