import Components.Ppp.Layers
import Components.Semantics.Always

/-!
# What the states of the automaton say

The states of `fsm.c` are given a meaning in terms of what has been done: whether the current
request has been acknowledged and the last request of the peer has been, whether the protocol has
been told that it is up, and whether the timer is set. Every event keeps this meaning, whatever the
peer sends and whichever packets find no buffer.

## Main definitions

* `Talk`, `talk` — what has been said in the negotiation, read off the log
* `Meaning` — what a state says

## Main results

* `up_and_down_alternate` — the calls of `up` and `down`
* `opened_after_agreement` — `OPENED` is reached with both requests acknowledged
* `timer_iff` — the timer, and the packets that leave the automaton without it
-/

namespace Components.Ppp

variable {O : Type} {pcb : Protocol O} {around : FsmAround} {f : Fsm O} {log : List FsmNote}

/-! ### What has been said -/

/-- What the log says of the negotiation. -/
structure Talk where
  /-- The id of the last request. -/
  request : Option UInt8
  /-- There was a buffer for it. -/
  sent : Bool
  /-- It has been acknowledged. -/
  heard : Bool
  /-- The last request of the peer in this negotiation has been acknowledged. -/
  said : Bool
  deriving DecidableEq, Repr

/-- One more entry of the log. -/
def Talk.note (t : Talk) : FsmNote → Talk
  | .output .confReq id _ sent => { t with request := some id, sent := sent, heard := false }
  | .output .confAck _ _ _ => { t with said := true }
  | .output .confNak _ _ _ | .output .confRej _ _ _ | .resetci => { t with said := false }
  | .acked id => { t with heard := t.request = some id }
  | _ => t

def talk (log : List FsmNote) : Talk := log.foldl Talk.note ⟨none, false, false, false⟩

@[simp] theorem talk_append (log notes : List FsmNote) :
    talk (log ++ notes) = notes.foldl Talk.note (talk log) := List.foldl_append

/-- A call of `up` or of `down`, `true` for `up`. -/
def FsmNote.upDown : FsmNote → List Bool
  | .up => [true]
  | .down => [false]
  | _ => []

/-- The calls of `up` and `down` in the log. -/
def upDowns (log : List FsmNote) : List Bool := log.flatMap FsmNote.upDown

@[simp] theorem upDowns_append (log notes : List FsmNote) :
    upDowns (log ++ notes) = upDowns log ++ notes.flatMap FsmNote.upDown := List.flatMap_append

/-- `up` and `down` in turn, and one more `up` if the layer is up. -/
def Alternating (up : Bool) (calls : List Bool) : Prop :=
  ∃ n, calls = (List.replicate n [true, false]).flatten ++ if up then [true] else []

theorem Alternating.up {calls : List Bool} (h : Alternating false calls) :
    Alternating true (calls ++ [true]) := by
  obtain ⟨n, rfl⟩ := h
  exact ⟨n, by simp⟩

theorem Alternating.down {calls : List Bool} (h : Alternating true calls) :
    Alternating false (calls ++ [false]) := by
  obtain ⟨n, rfl⟩ := h
  exact ⟨n + 1, by simp [List.replicate_succ']⟩

/-- What a state says. -/
def Meaning (f : Fsm O) : Prop :=
  Alternating (f.state = .opened) (upDowns f.log) ∧
  match f.state with
  | .initial | .starting | .closed | .stopped => f.timer = false
  | .closing | .stopping => f.timer = true
  | .reqSent => f.timer = (talk f.log).sent ∧ (talk f.log).request = some f.reqid
  | .ackRcvd =>
    f.timer = (talk f.log).sent ∧ (talk f.log).request = some f.reqid ∧
      f.seenAck = true ∧ (talk f.log).heard = true
  | .ackSent =>
    f.timer = (talk f.log).sent ∧ (talk f.log).request = some f.reqid ∧
      (talk f.log).said = true
  | .opened =>
    f.timer = false ∧ (talk f.log).request = some f.reqid ∧ f.seenAck = true ∧
      (talk f.log).heard = true ∧ (talk f.log).said = true

theorem Meaning.calls_of_ne (h : Meaning f) (ne : f.state ≠ .opened) :
    Alternating false (upDowns f.log) := by
  have calls := h.1
  rwa [decide_eq_false ne] at calls

/-- The states in which nothing is under way. -/
def FsmState.rests : FsmState → Bool
  | .initial | .starting | .closed | .stopped => true
  | _ => false

theorem meaning_resting (rests : f.state.rests = true) (off : f.timer = false)
    (calls : Alternating false (upDowns f.log)) : Meaning f := by
  unfold Meaning
  cases state : f.state <;> simp [state, FsmState.rests] at rests ⊢ <;> exact ⟨calls, off⟩

theorem meaning_terminating (ends : f.state = .closing ∨ f.state = .stopping)
    (on : f.timer = true) (calls : Alternating false (upDowns f.log)) : Meaning f := by
  unfold Meaning
  rcases ends with state | state <;> rw [state] <;> exact ⟨calls, on⟩

/-! ### Requests -/

theorem resetOptions_log :
    (resetOptions pcb f).log = f.log ++ if f.state.negotiates then [] else [.resetci] := by
  unfold resetOptions
  split_ifs <;> simp [Fsm.call]

theorem fsmSconfreq_log (pcb : Protocol O) (around : FsmAround) (retransmit : Bool) (f : Fsm O) :
    ∃ data, (fsmSconfreq pcb around retransmit f).log =
      (f.log ++ if f.state.negotiates then [] else [.resetci]) ++
        [.output .confReq (fsmSconfreq pcb around retransmit f).reqid data
          (around.hasPbuf .confReq)] := by
  rw [← @resetOptions_log O pcb]
  unfold fsmSconfreq sendRequest
  dsimp only
  cases retransmit <;> split_ifs <;> exact ⟨_, rfl⟩

@[simp] theorem fsmSconfreq_timer (retransmit : Bool) :
    (fsmSconfreq pcb around retransmit f).timer = (around.hasPbuf .confReq || f.timer) := by
  have reset : (resetOptions pcb f).timer = f.timer := by
    unfold resetOptions
    split_ifs <;> rfl
  unfold fsmSconfreq sendRequest
  cases retransmit <;> cases has : around.hasPbuf .confReq <;> simp [newRequest, reset]

/-- A new request is neither acknowledged nor does it take back an answer to the peer. -/
theorem talk_fsmSconfreq (retransmit : Bool) :
    talk (fsmSconfreq pcb around retransmit f).log =
      ⟨some (fsmSconfreq pcb around retransmit f).reqid, around.hasPbuf .confReq, false,
        f.state.negotiates && (talk f.log).said⟩ := by
  obtain ⟨data, eq⟩ := fsmSconfreq_log pcb around retransmit f
  rw [eq, talk_append]
  cases f.state.negotiates <;> simp [Talk.note]

@[simp] theorem upDowns_fsmSconfreq (retransmit : Bool) :
    upDowns (fsmSconfreq pcb around retransmit f).log = upDowns f.log := by
  obtain ⟨data, eq⟩ := fsmSconfreq_log pcb around retransmit f
  rw [eq, upDowns_append]
  cases f.state.negotiates <;> simp [FsmNote.upDown]

/-- After a request, in `REQSENT`. -/
theorem meaning_reqSent (retransmit : Bool) (calls : Alternating false (upDowns f.log))
    (off : f.timer = false) :
    Meaning { fsmSconfreq pcb around retransmit f with state := .reqSent } := by
  refine And.intro ?_ ?_
  · show Alternating false (upDowns (fsmSconfreq pcb around retransmit f).log)
    rwa [upDowns_fsmSconfreq]
  · show (fsmSconfreq pcb around retransmit f).timer =
        (talk (fsmSconfreq pcb around retransmit f).log).sent ∧
      (talk (fsmSconfreq pcb around retransmit f).log).request =
        some (fsmSconfreq pcb around retransmit f).reqid
    rw [talk_fsmSconfreq, fsmSconfreq_timer, off, Bool.or_false]
    exact ⟨rfl, rfl⟩

theorem meaning_startRequest (calls : Alternating false (upDowns f.log)) (off : f.timer = false) :
    Meaning (startRequest pcb around f) := meaning_reqSent false calls off

/-- A request in the middle of the negotiation. -/
theorem meaning_request (retransmit : Bool) (calls : Alternating false (upDowns f.log))
    (off : f.timer = false)
    (state : f.state = .reqSent ∨ f.state = .ackSent ∧ (talk f.log).said = true) :
    Meaning (fsmSconfreq pcb around retransmit f) := by
  have state' := @fsmSconfreq_state O pcb around f retransmit
  unfold Meaning
  rw [upDowns_fsmSconfreq, talk_fsmSconfreq, fsmSconfreq_timer, off, Bool.or_false]
  rcases state with state | ⟨state, said⟩
  · rw [state'.trans state]
    exact ⟨calls, rfl, rfl⟩
  · rw [state'.trans state, state, said]
    exact ⟨calls, rfl, rfl, rfl⟩

/-! ### Events keep the meaning of the states -/

theorem Meaning.lowerup (h : Meaning f) : Meaning (fsmLowerup pcb around f) := by
  have calls := h.calls_of_ne
  obtain ⟨-, rest⟩ := id h
  unfold fsmLowerup
  cases state : f.state with
  | initial =>
    rw [state] at rest
    exact And.intro (calls (by simp [state])) rest
  | starting =>
    rw [state] at rest
    dsimp only
    split_ifs
    · exact And.intro (calls (by simp [state])) rest
    · exact meaning_startRequest (calls (by simp [state])) rest
  | closed | stopped | closing | stopping | reqSent | ackRcvd | ackSent | opened => exact h

theorem Meaning.lowerdown (h : Meaning f) : Meaning (fsmLowerdown pcb f) := by
  obtain ⟨calls, rest⟩ := id h
  unfold fsmLowerdown
  cases state : f.state with
  | initial | starting => exact h
  | closed =>
    rw [state] at calls rest
    exact And.intro calls rest
  | stopped =>
    rw [state] at calls rest
    refine And.intro ?_ rest
    simpa [Fsm.call, FsmNote.upDown] using calls
  | closing | stopping | reqSent | ackRcvd | ackSent =>
    rw [state] at calls
    exact And.intro calls rfl
  | opened =>
    rw [state] at calls rest
    refine And.intro ?_ rest.1
    simpa [Fsm.call, FsmNote.upDown] using calls.down

theorem Meaning.restartLayer (h : Meaning f) : Meaning (restartLayer pcb around f) := by
  unfold Ppp.restartLayer
  split_ifs
  · exact h.lowerdown.lowerup
  · exact h

theorem Meaning.open (h : Meaning f) : Meaning (fsmOpen pcb around f) := by
  obtain ⟨calls, rest⟩ := id h
  unfold fsmOpen
  cases state : f.state with
  | initial =>
    rw [state] at calls rest
    refine And.intro ?_ rest
    simpa [Fsm.call, FsmNote.upDown] using calls
  | closed =>
    rw [state] at calls rest
    dsimp only
    split_ifs
    · exact And.intro calls rest
    · exact meaning_startRequest calls rest
  | closing =>
    rw [state] at calls rest
    have stopping : Meaning { f with state := .stopping } := And.intro calls rest
    exact stopping.restartLayer
  | stopped | opened => exact h.restartLayer
  | starting | stopping | reqSent | ackRcvd | ackSent => exact h

theorem Meaning.leaveLayer (h : Meaning f) : (leaveLayer pcb f).timer = false ∧
    Alternating false (upDowns (leaveLayer pcb f).log) := by
  obtain ⟨calls, rest⟩ := id h
  unfold Ppp.leaveLayer
  split_ifs with state
  · exact ⟨rfl, h.calls_of_ne state⟩
  · have opened : f.state = .opened := not_not.mp state
    rw [opened] at calls rest
    refine ⟨rest.1, ?_⟩
    simpa [Fsm.call, FsmNote.upDown] using calls.down

theorem Meaning.terminateLayer (h : Meaning f) (closing : Bool) :
    Meaning (terminateLayer pcb around closing f) := by
  obtain ⟨off, calls⟩ := @Meaning.leaveLayer O pcb f h
  unfold Ppp.terminateLayer
  dsimp only
  generalize Ppp.leaveLayer pcb f = g at off calls
  have sent : Alternating false
      (upDowns (sendTerminate around { g with
        retransmits := pcb.settings.fsmMaxTermTransmits }).log) := by
    simpa [sendTerminate, fsmSdata, FsmNote.upDown] using calls
  have finished (log : List FsmNote) (calls : Alternating false (upDowns log)) :
      Alternating false (upDowns (log ++ [.finished])) := by
    simpa [FsmNote.upDown] using calls
  by_cases none : (sendTerminate around
      { g with retransmits := pcb.settings.fsmMaxTermTransmits }).retransmits = 0
  · rw [if_pos none]
    refine meaning_resting ?_ off (finished _ sent)
    cases closing <;> rfl
  · rw [if_neg none]
    refine meaning_terminating ?_ rfl sent
    cases closing <;> simp

theorem Meaning.closeLayer (h : Meaning f) : Meaning (closeLayer pcb around f) := by
  obtain ⟨calls, rest⟩ := id h
  unfold Ppp.closeLayer
  cases state : f.state with
  | starting | stopped | stopping =>
    rw [state] at calls rest
    exact And.intro calls rest
  | reqSent | ackRcvd | ackSent | opened => exact h.terminateLayer true
  | initial | closed | closing => exact h

theorem meaning_retryTerminate (ends : f.state = .closing ∨ f.state = .stopping)
    (off : f.timer = false) (calls : Alternating false (upDowns f.log)) :
    Meaning (retryTerminate pcb around f) := by
  unfold retryTerminate
  by_cases last : f.retransmits = 0
  · rw [if_pos last]
    refine meaning_resting ?_ off ?_
    · rcases ends with state | state <;> rw [state] <;> rfl
    · simpa [Fsm.call, FsmNote.upDown] using calls
  · rw [if_neg last]
    refine meaning_terminating ends rfl ?_
    simpa [sendTerminate, fsmSdata, FsmNote.upDown] using calls

theorem meaning_retryRequest (negotiates : f.state.negotiates = true) (off : f.timer = false)
    (calls : Alternating false (upDowns f.log))
    (said : f.state = .ackSent → (talk f.log).said = true) :
    Meaning (retryRequest pcb around f) := by
  unfold retryRequest
  dsimp only
  by_cases last : f.retransmits = 0
  · rw [if_pos last]
    split_ifs
    · exact meaning_resting rfl off calls
    · refine meaning_resting rfl off ?_
      simpa [Fsm.call, FsmNote.upDown] using calls
  · rw [if_neg last, fsmSconfreq_state]
    dsimp only
    by_cases rcvd : f.state = .ackRcvd
    · rw [if_pos rcvd]
      exact meaning_reqSent true calls off
    · rw [if_neg rcvd]
      refine meaning_request true calls off ?_
      cases state : f.state <;> simp [state, FsmState.negotiates] at negotiates rcvd said ⊢
      exact said

theorem Meaning.timeout (h : Meaning f) (on : f.timer = true) :
    Meaning (fsmTimeout pcb around f) := by
  obtain ⟨calls, rest⟩ := id h
  unfold fsmTimeout
  cases state : f.state with
  | closing | stopping =>
    rw [state] at calls
    exact meaning_retryTerminate (by simp) rfl calls
  | reqSent | ackRcvd =>
    rw [state] at calls
    exact meaning_retryRequest rfl rfl calls (by simp)
  | ackSent =>
    rw [state] at calls rest
    exact meaning_retryRequest rfl rfl calls fun _ => rest.2.2
  | initial | starting | closed | stopped =>
    rw [state] at rest
    simp [on] at rest
  | opened =>
    rw [state] at rest
    simp [on] at rest

/-- The answer to a request leads on, or takes the last acknowledgement back. -/
theorem Meaning.answerRequest (h : Meaning f) (negotiates : f.state.negotiates = true)
    (id : UInt8) (inp : List UInt8) : Meaning (answerRequest pcb around id inp f) := by
  unfold Ppp.answerRequest
  generalize checkRequest pcb inp f = answer
  obtain ⟨options, reply, data⟩ := answer
  obtain ⟨calls, rest⟩ := h
  cases state : f.state with
  | reqSent =>
    rw [state] at calls rest
    cases reply <;>
      simp [afterReply, fsmSdata, Meaning, ReqReply.code, Talk.note, FsmNote.upDown] <;>
      exact ⟨calls, rest.1, rest.2⟩
  | ackSent =>
    rw [state] at calls rest
    cases reply <;>
      simp [afterReply, fsmSdata, Meaning, ReqReply.code, Talk.note, FsmNote.upDown] <;>
      exact ⟨calls, rest.1, rest.2.1⟩
  | ackRcvd =>
    rw [state] at calls rest
    obtain ⟨timer, request, seen, heard⟩ := rest
    cases reply with
    | ack =>
      simp [afterReply, fsmSdata, Fsm.call, Meaning, ReqReply.code, Talk.note, FsmNote.upDown]
      exact ⟨calls.up, request, seen, heard⟩
    | nak | rej =>
      simp [afterReply, fsmSdata, Meaning, ReqReply.code, Talk.note, FsmNote.upDown]
      exact ⟨calls, timer, request, seen, heard⟩
  | initial | starting | closed | stopped | closing | stopping | opened =>
    simp [state, FsmState.negotiates] at negotiates

theorem Meaning.sdata (h : Meaning f) (code : CpCode) (other : code = .termAck ∨ code = .codeRej)
    (id : UInt8) (data : List UInt8) : Meaning (fsmSdata around code id data f) := by
  obtain ⟨calls, rest⟩ := h
  have calls' : Alternating (f.state = .opened) (upDowns (fsmSdata around code id data f).log) := by
    simpa [fsmSdata, FsmNote.upDown] using calls
  have same : talk (fsmSdata around code id data f).log = talk f.log := by
    rcases other with rfl | rfl <;> simp [fsmSdata, Talk.note]
  refine And.intro calls' ?_
  rw [same]
  exact rest

/-- The layer goes down and negotiates again. -/
theorem Meaning.goDown (h : Meaning f) (state : f.state = .opened) :
    Meaning (startRequest pcb around (f.call .down pcb.callbacks.down)) := by
  obtain ⟨calls, rest⟩ := h
  rw [state] at calls rest
  refine meaning_startRequest ?_ rest.1
  simpa [Fsm.call, FsmNote.upDown] using calls.down

theorem Meaning.rconfreq (h : Meaning f) (id : UInt8) (inp : List UInt8)
    (up : f.state.lowerIsUp = true) : Meaning (fsmRconfreq pcb around id inp f) := by
  obtain ⟨calls, rest⟩ := And.intro h.1 h.2
  unfold fsmRconfreq
  cases state : f.state with
  | initial | starting => simp [state, FsmState.lowerIsUp] at up
  | closed => exact h.sdata .termAck (.inl rfl) id []
  | closing | stopping => exact h
  | opened => exact (h.goDown state).answerRequest rfl id inp
  | stopped =>
    rw [state] at calls rest
    exact (meaning_startRequest calls rest).answerRequest rfl id inp
  | reqSent | ackRcvd | ackSent =>
    exact h.answerRequest (by simp [state, FsmState.negotiates]) id inp

/-- An acknowledgement of the current request. -/
theorem Meaning.acceptAck (h : Meaning f) (first : f.seenAck = false) (options : O) (id : UInt8)
    (current : id = f.reqid) : Meaning (acceptAck pcb around id { f with
      options := options
      seenAck := true
      rnakloops := 0
      log := f.log ++ [.acked id] }) := by
  obtain ⟨calls, rest⟩ := h
  unfold Ppp.acceptAck
  cases state : f.state with
  | initial | starting | closed | stopped | closing | stopping =>
    rw [state] at calls rest
    simp [fsmSdata, Meaning, FsmNote.upDown]
    exact ⟨calls, rest⟩
  | reqSent =>
    rw [state] at calls rest
    simp [Meaning, FsmNote.upDown, Talk.note]
    exact ⟨calls, rest.1, rest.2, by rw [rest.2, current]⟩
  | ackSent =>
    rw [state] at calls rest
    obtain ⟨-, request, said⟩ := rest
    simp [Fsm.call, Meaning, FsmNote.upDown, Talk.note]
    exact ⟨calls.up, request, by rw [request, current], said⟩
  | ackRcvd | opened =>
    -- an acknowledgement has been seen already
    rw [state] at rest
    simp [first] at rest

/-- A Configure-Nak or Configure-Reject of the current request. -/
theorem Meaning.acceptNakrej (h : Meaning f) (first : f.seenAck = false) (options : O)
    (rnakloops id : UInt8) (stops : Bool) : Meaning (acceptNakrej pcb around id stops { f with
      options := options
      rnakloops := rnakloops
      seenAck := true }) := by
  obtain ⟨calls, rest⟩ := h
  unfold Ppp.acceptNakrej
  cases state : f.state with
  | initial | starting | closed | stopped | closing | stopping =>
    rw [state] at calls rest
    simp [fsmSdata, Meaning, FsmNote.upDown]
    exact ⟨calls, rest⟩
  | reqSent =>
    rw [state] at calls
    dsimp only
    split_ifs
    · exact meaning_resting rfl rfl calls
    · exact meaning_request false calls rfl (.inl rfl)
  | ackSent =>
    rw [state] at calls rest
    dsimp only
    split_ifs
    · exact meaning_resting rfl rfl calls
    · exact meaning_request false calls rfl (.inr ⟨rfl, rest.2.2⟩)
  | ackRcvd | opened =>
    rw [state] at rest
    simp [first] at rest

theorem Meaning.acceptTermreq (h : Meaning f) : Meaning (acceptTermreq pcb f) := by
  obtain ⟨calls, rest⟩ := And.intro h.1 h.2
  unfold Ppp.acceptTermreq
  cases state : f.state with
  | ackRcvd | ackSent =>
    rw [state] at calls rest
    exact And.intro calls ⟨rest.1, rest.2.1⟩
  | opened =>
    rw [state] at calls
    refine meaning_terminating (.inr rfl) rfl ?_
    simpa [Fsm.call, FsmNote.upDown] using calls.down
  | initial | starting | closed | stopped | closing | stopping | reqSent => exact h

theorem Meaning.rtermack (h : Meaning f) : Meaning (fsmRtermack pcb around f) := by
  obtain ⟨calls, rest⟩ := And.intro h.1 h.2
  unfold fsmRtermack
  cases state : f.state with
  | closing | stopping =>
    rw [state] at calls
    refine meaning_resting rfl rfl ?_
    simpa [Fsm.call, FsmNote.upDown] using calls
  | ackRcvd =>
    rw [state] at calls rest
    exact And.intro calls ⟨rest.1, rest.2.1⟩
  | opened => exact h.goDown state
  | initial | starting | closed | stopped | reqSent | ackSent => exact h

theorem Meaning.rcoderej (h : Meaning f) (inp : List UInt8) : Meaning (fsmRcoderej inp f) := by
  obtain ⟨calls, rest⟩ := And.intro h.1 h.2
  unfold fsmRcoderej
  split_ifs with _ state
  · exact h
  · rw [state] at calls rest
    exact And.intro calls ⟨rest.1, rest.2.1⟩
  · exact h

theorem Meaning.dispatch (h : Meaning f) (code id : UInt8) (inp packet : List UInt8)
    (up : f.state.lowerIsUp = true) :
    Meaning (fsmDispatch pcb around code id inp packet f) := by
  have nakrej (nak : Bool) : Meaning (fsmRconfnakrej pcb around nak id inp f) := by
    obtain ⟨_, _, eq⟩ | ⟨-, first, _, _, stops, eq⟩ := fsmRconfnakrej_cases pcb around nak id inp f
    · rw [eq]
      exact h
    · rw [eq]
      exact h.acceptNakrej first _ _ id stops
  unfold fsmDispatch
  split
  · exact h.rconfreq id inp up
  · obtain ⟨_, eq⟩ | ⟨current, first, _, eq⟩ := fsmRconfack_cases pcb around id inp f
    · rw [eq]
      exact h
    · rw [eq]
      exact h.acceptAck first _ id current
  · exact nakrej true
  · exact nakrej false
  · exact h.acceptTermreq.sdata .termAck (.inl rfl) id []
  · exact h.rtermack
  · exact h.rcoderej inp
  · obtain ⟨options, eq | eq⟩ := fsmExtcode_cases pcb around code id inp packet f
    · rw [eq]
      exact h
    · have same : Meaning { f with options := options, id := f.id + 1 } := h
      rw [eq]
      exact same.sdata .codeRej (.inr rfl) _ packet

theorem Meaning.protreject (h : Meaning f) : Meaning (fsmProtreject pcb around f) := by
  obtain ⟨calls, rest⟩ := And.intro h.1 h.2
  unfold fsmProtreject
  cases state : f.state with
  | closing | stopping | reqSent | ackRcvd | ackSent =>
    rw [state] at calls
    refine meaning_resting rfl rfl ?_
    simpa [Fsm.call, FsmNote.upDown] using calls
  | closed | stopped =>
    rw [state] at calls rest
    refine meaning_resting (by simp [state, FsmState.rests]) rest ?_
    simpa [Fsm.call, FsmNote.upDown] using calls
  | opened => exact h.terminateLayer false
  | initial | starting => exact h

/-- Every event keeps the meaning of the states. -/
theorem Meaning.step (h : Meaning f) (event : FsmEvent × FsmAround) :
    Meaning (fsmStep pcb f event) := by
  obtain ⟨event, around⟩ := event
  cases event with
  | lowerup => exact h.lowerup
  | lowerdown => exact h.lowerdown
  | «open» => exact h.open
  | close reason =>
    have same : Meaning { f with termReason := (reason.getD []).take 0xff } := h
    exact same.closeLayer
  | timeout =>
    show Meaning (if f.timer then fsmTimeout pcb around f else f)
    split_ifs with on
    · exact h.timeout on
    · exact h
  | input inpacket =>
    show Meaning (fsmInput pcb around inpacket f)
    unfold fsmInput
    split
    · exact h
    · split_ifs with down
      · exact h
      · refine h.dispatch _ _ _ _ ?_
        cases state : f.state <;> simp [state] at down ⊢ <;> rfl
  | protreject => exact h.protreject
  | setFlags _ _ _ => exact h

theorem meaning_run (pcb : Protocol O) (options : O) (events : List (FsmEvent × FsmAround)) :
    Meaning (fsmRun pcb options events) := by
  refine Avoids.foldl (fun f event h _ => h.step event) ?_ (avoids_false _ _)
  exact meaning_resting rfl rfl ⟨0, rfl⟩

/-! ### Whole runs -/

/-- `up` and `down` are called in turn, `up` first, and the layer is in `OPENED` exactly when the
last of these calls was `up`. -/
theorem up_and_down_alternate (pcb : Protocol O) (options : O)
    (events : List (FsmEvent × FsmAround)) :
    ∃ n, upDowns (fsmRun pcb options events).log = (List.replicate n [true, false]).flatten ++
      if (fsmRun pcb options events).state = .opened then [true] else [] := by
  obtain ⟨n, calls⟩ := (meaning_run pcb options events).1
  exact ⟨n, by simpa using calls⟩

/-- In `OPENED` the last request has been acknowledged by its id, and the last answer to a request
of the peer in this negotiation was an acknowledgement. -/
theorem opened_after_agreement (pcb : Protocol O) (options : O)
    (events : List (FsmEvent × FsmAround)) (opened : (fsmRun pcb options events).state = .opened) :
    (talk (fsmRun pcb options events).log).request = some (fsmRun pcb options events).reqid ∧
      (talk (fsmRun pcb options events).log).heard = true ∧
      (talk (fsmRun pcb options events).log).said = true := by
  obtain ⟨-, rest⟩ := meaning_run pcb options events
  rw [opened] at rest
  exact ⟨rest.2.1, rest.2.2.2⟩

/-- A protocol without options and without callbacks. -/
def plainProtocol : Protocol Unit where
  callbacks :=
    { resetci := id
      cilen := fun _ => 0
      addci := fun _ n => List.replicate n 0
      length_addci := fun _ _ => List.length_replicate
      ackci := none
      nakci := none
      rejci := none
      reqci := none
      up := id
      down := id
      starting := id
      finished := id
      retransmit := id
      extcode := none }
  settings := ⟨10, 2, 5⟩

/-- The link is opened and comes up, and the peer acknowledges the request and sends its own. -/
def openingEvents : List (FsmEvent × FsmAround) :=
  [.open, .lowerup, .input [2, 1, 0, 4], .input [1, 9, 0, 4]].map fun event =>
    (event, ⟨fun _ => true, 1500⟩)

theorem opened_after_agreement_plain :
    (fsmRun plainProtocol () openingEvents).state = .opened ∧
      (talk (fsmRun plainProtocol () openingEvents).log).request = some 1 ∧
      (talk (fsmRun plainProtocol () openingEvents).log).heard = true ∧
      (talk (fsmRun plainProtocol () openingEvents).log).said = true := by
  have opened : (fsmRun plainProtocol () openingEvents).state = .opened := by decide
  exact ⟨opened, opened_after_agreement plainProtocol () openingEvents opened⟩

/-- The timer is set while the layer terminates, and while it negotiates if there was a buffer for
the last request. A request that finds none leaves the negotiation without a timer. -/
theorem timer_iff (pcb : Protocol O) (options : O) (events : List (FsmEvent × FsmAround)) :
    (fsmRun pcb options events).timer = true ↔
      (fsmRun pcb options events).state = .closing ∨
      (fsmRun pcb options events).state = .stopping ∨
      (fsmRun pcb options events).state.negotiates = true ∧
        (talk (fsmRun pcb options events).log).sent = true := by
  obtain ⟨-, rest⟩ := meaning_run pcb options events
  cases state : (fsmRun pcb options events).state with
  | initial | starting | closed | stopped | closing | stopping =>
    rw [state] at rest
    simp [rest, FsmState.negotiates]
  | reqSent | ackRcvd | ackSent | opened =>
    rw [state] at rest
    simp [rest.1, FsmState.negotiates]

end Components.Ppp
