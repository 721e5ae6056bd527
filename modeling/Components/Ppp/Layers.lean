import Components.Ppp.Fsm

/-!
# The layer below and the administrator

The states of `fsm.c` form four groups, by whether the layer below is up and whether the protocol
has been opened. Packets of the peer and the timer move the automaton inside its group only.

## Main definitions

* `FsmState.lowerIsUp`, `FsmState.isOpen` — the group of a state
* `lowerAfter`, `openAfter` — what the layer below and the administrator last said

## Main results

* `state_quadrant` — the group of the state after any sequence of events
-/

namespace Components.Ppp

variable {O : Type} {pcb : Protocol O} {around : FsmAround} {f : Fsm O}

/-! ### What the functions do -/

/-- A Configure-Ack is tossed, or found bad, or accepted. -/
theorem fsmRconfack_cases (pcb : Protocol O) (around : FsmAround) (id : UInt8) (inp : List UInt8)
    (f : Fsm O) :
    (∃ options, fsmRconfack pcb around id inp f = { f with options := options }) ∨
    (id = f.reqid ∧ f.seenAck = false ∧ ∃ options, fsmRconfack pcb around id inp f =
      acceptAck pcb around id { f with
        options := options
        seenAck := true
        rnakloops := 0
        log := f.log ++ [.acked id] }) := by
  unfold fsmRconfack
  dsimp only
  split_ifs with tossed bad
  · exact .inl ⟨f.options, rfl⟩
  · exact .inl ⟨_, rfl⟩
  · simp only [Bool.or_eq_true, decide_eq_true_eq, not_or, not_not, Bool.not_eq_true] at tossed
    exact .inr ⟨tossed.1, tossed.2, _, rfl⟩

/-- And so is a Configure-Nak or a Configure-Reject. -/
theorem fsmRconfnakrej_cases (pcb : Protocol O) (around : FsmAround) (nak : Bool) (id : UInt8)
    (inp : List UInt8) (f : Fsm O) :
    (∃ options n, fsmRconfnakrej pcb around nak id inp f =
      { f with options := options, rnakloops := n }) ∨
    (id = f.reqid ∧ f.seenAck = false ∧ ∃ options n stops,
      fsmRconfnakrej pcb around nak id inp f = acceptNakrej pcb around id stops { f with
        options := options
        rnakloops := n
        seenAck := true }) := by
  unfold fsmRconfnakrej
  dsimp only
  generalize (if nak = true then f.rnakloops + 1 else 0) = n
  split_ifs with tossed bad
  · exact .inl ⟨f.options, f.rnakloops, rfl⟩
  · exact .inl ⟨_, n, rfl⟩
  · simp only [Bool.or_eq_true, decide_eq_true_eq, not_or, not_not, Bool.not_eq_true] at tossed
    exact .inr ⟨tossed.1, tossed.2, _, n, _, rfl⟩

/-- A packet with another code is known to the protocol or rejected. -/
theorem fsmExtcode_cases (pcb : Protocol O) (around : FsmAround) (code id : UInt8)
    (inp packet : List UInt8) (f : Fsm O) : ∃ options,
    fsmExtcode pcb around code id inp packet f = { f with options := options } ∨
    fsmExtcode pcb around code id inp packet f =
      fsmSdata around .codeRej (f.id + 1) packet { f with options := options, id := f.id + 1 } := by
  unfold fsmExtcode
  dsimp only
  split_ifs
  · exact ⟨_, .inl rfl⟩
  · exact ⟨_, .inr rfl⟩

/-! ### The layer below and the administrator -/

/-- The layer below is up. -/
def FsmState.lowerIsUp : FsmState → Bool
  | .initial | .starting => false
  | _ => true

/-- The protocol has been opened and not closed. -/
def FsmState.isOpen : FsmState → Bool
  | .initial | .closed | .closing => false
  | _ => true

@[simp] theorem Fsm.call_state (note : FsmNote) (callback : O → O) :
    (f.call note callback).state = f.state := rfl

@[simp] theorem fsmSdata_state (code : CpCode) (id : UInt8) (data : List UInt8) :
    (fsmSdata around code id data f).state = f.state := rfl

@[simp] theorem resetOptions_state : (resetOptions pcb f).state = f.state := by
  unfold resetOptions
  split_ifs <;> rfl

@[simp] theorem sendRequest_state : (sendRequest pcb around f).state = f.state := by
  unfold sendRequest
  dsimp only
  split_ifs <;> rfl

@[simp] theorem fsmSconfreq_state (retransmit : Bool) :
    (fsmSconfreq pcb around retransmit f).state = f.state := by
  unfold fsmSconfreq
  cases retransmit <;> simp [newRequest]

@[simp] theorem startRequest_state : (startRequest pcb around f).state = .reqSent := rfl

@[simp] theorem sendTerminate_state : (sendTerminate around f).state = f.state := rfl

theorem terminateLayer_state (closing : Bool) : (terminateLayer pcb around closing f).state =
    if pcb.settings.fsmMaxTermTransmits = 0 then if closing then .closed else .stopped
    else if closing then .closing else .stopping := by
  unfold terminateLayer
  dsimp only
  have kept : ∀ g : Fsm O, (sendTerminate around g).retransmits = g.retransmits := fun _ => rfl
  rw [kept]
  dsimp only
  split_ifs <;> rfl

/-- Two states with the same layer below and the same administrator. -/
def FsmState.Beside (s s' : FsmState) : Prop := s'.lowerIsUp = s.lowerIsUp ∧ s'.isOpen = s.isOpen

theorem FsmState.Beside.refl (s : FsmState) : s.Beside s := ⟨rfl, rfl⟩

theorem afterReply_beside (reply : ReqReply) (negotiates : f.state.negotiates = true) :
    f.state.Beside (afterReply pcb reply f).state := by
  unfold afterReply
  cases reply <;> cases state : f.state <;> simp [state, FsmState.negotiates] at negotiates ⊢ <;>
    exact ⟨rfl, rfl⟩

theorem answerRequest_beside (id : UInt8) (inp : List UInt8)
    (negotiates : f.state.negotiates = true) :
    f.state.Beside (answerRequest pcb around id inp f).state :=
  afterReply_beside _ negotiates

theorem fsmRconfreq_beside (id : UInt8) (inp : List UInt8) (up : f.state.lowerIsUp = true) :
    f.state.Beside (fsmRconfreq pcb around id inp f).state := by
  have restarted : ∀ g : Fsm O, FsmState.Beside .reqSent
      (answerRequest pcb around id inp (startRequest pcb around g)).state := fun g =>
    answerRequest_beside id inp rfl
  unfold fsmRconfreq
  cases state : f.state with
  | initial | starting => simp [state, FsmState.lowerIsUp] at up
  | closed | closing | stopping => simp [state, FsmState.Beside.refl]
  | stopped | opened => exact restarted _
  | reqSent | ackRcvd | ackSent =>
    have negotiates : f.state.negotiates = true := by rw [state]; rfl
    have kept : f.state.Beside (answerRequest pcb around id inp f).state :=
      answerRequest_beside id inp negotiates
    rwa [state] at kept

theorem acceptAck_beside (id : UInt8) : f.state.Beside (acceptAck pcb around id f).state := by
  unfold acceptAck
  cases state : f.state <;> simp only [fsmSdata_state, state] <;> exact ⟨rfl, rfl⟩

theorem acceptNakrej_beside (id : UInt8) (stops : Bool) :
    f.state.Beside (acceptNakrej pcb around id stops f).state := by
  unfold acceptNakrej
  cases stops <;> cases state : f.state <;>
    simp only [fsmSdata_state, fsmSconfreq_state, state, if_true, Bool.false_eq_true, if_false] <;>
    exact ⟨rfl, rfl⟩

theorem acceptTermreq_beside : f.state.Beside (acceptTermreq pcb f).state := by
  unfold acceptTermreq
  cases state : f.state <;> simp only [state] <;> exact ⟨rfl, rfl⟩

theorem fsmRtermack_beside : f.state.Beside (fsmRtermack pcb around f).state := by
  unfold fsmRtermack
  cases state : f.state <;> simp only [state] <;> exact ⟨rfl, rfl⟩

theorem fsmRcoderej_beside (inp : List UInt8) : f.state.Beside (fsmRcoderej inp f).state := by
  unfold fsmRcoderej
  split_ifs with _ rcvd
  · exact .refl _
  · rw [rcvd]
    exact ⟨rfl, rfl⟩
  · exact .refl _

/-- No packet of the peer changes the layer below or the administrator. -/
theorem fsmDispatch_beside (code id : UInt8) (inp packet : List UInt8)
    (up : f.state.lowerIsUp = true) :
    f.state.Beside (fsmDispatch pcb around code id inp packet f).state := by
  have nakrej (nak : Bool) : f.state.Beside (fsmRconfnakrej pcb around nak id inp f).state := by
    obtain ⟨_, _, eq⟩ | ⟨-, -, _, _, stops, eq⟩ := fsmRconfnakrej_cases pcb around nak id inp f
    · rw [eq]
      exact .refl _
    · rw [eq]
      exact acceptNakrej_beside id stops
  unfold fsmDispatch
  split
  · exact fsmRconfreq_beside id inp up
  · obtain ⟨_, eq⟩ | ⟨-, -, _, eq⟩ := fsmRconfack_cases pcb around id inp f
    · rw [eq]
      exact .refl _
    · rw [eq]
      exact acceptAck_beside id
  · exact nakrej true
  · exact nakrej false
  · exact acceptTermreq_beside
  · exact fsmRtermack_beside
  · exact fsmRcoderej_beside inp
  · obtain ⟨_, eq | eq⟩ := fsmExtcode_cases pcb around code id inp packet f
    · rw [eq]
      exact .refl _
    · rw [eq]
      exact .refl _

theorem retryTerminate_state (pcb : Protocol O) (around : FsmAround) (f : Fsm O) :
    (retryTerminate pcb around f).state =
      if f.retransmits = 0 then if f.state = .closing then .closed else .stopped else f.state := by
  unfold retryTerminate
  split_ifs <;> rfl

theorem retryRequest_state (pcb : Protocol O) (around : FsmAround) (f : Fsm O) :
    (retryRequest pcb around f).state = if f.retransmits = 0 then .stopped
      else if f.state = .ackRcvd then .reqSent else f.state := by
  unfold retryRequest
  simp only [fsmSconfreq_state]
  split_ifs <;> simp only [Fsm.call_state, fsmSconfreq_state]

/-- Nor does the timer. -/
theorem fsmTimeout_beside : f.state.Beside (fsmTimeout pcb around f).state := by
  unfold fsmTimeout
  cases state : f.state with
  | closing | stopping =>
    simp only [retryTerminate_state, if_true, reduceCtorEq, if_false]
    split_ifs <;> exact ⟨rfl, rfl⟩
  | reqSent | ackRcvd | ackSent =>
    simp only [retryRequest_state, if_true, reduceCtorEq, if_false]
    split_ifs <;> exact ⟨rfl, rfl⟩
  | initial | starting | closed | stopped | opened => simp [FsmState.Beside.refl]

theorem fsmProtreject_beside : f.state.Beside (fsmProtreject pcb around f).state := by
  unfold fsmProtreject
  cases state : f.state with
  | opened =>
    simp only [terminateLayer_state, Bool.false_eq_true, if_false]
    split_ifs <;> exact ⟨rfl, rfl⟩
  | initial | starting | closed | stopped | closing | stopping | reqSent | ackRcvd | ackSent =>
    simp only [Fsm.call_state, state]
    exact ⟨rfl, rfl⟩

theorem fsmInput_beside (inpacket : List UInt8) :
    f.state.Beside (fsmInput pcb around inpacket f).state := by
  unfold fsmInput
  split
  · exact .refl _
  · split_ifs with down
    · exact .refl _
    · refine fsmDispatch_beside _ _ _ _ ?_
      cases state : f.state <;> simp [state] at down ⊢ <;> rfl

/-- Is the layer below up after the event? -/
def lowerAfter (up : Bool) : FsmEvent → Bool
  | .lowerup => true
  | .lowerdown => false
  | _ => up

/-- Is the protocol open after the event? -/
def openAfter (isOpen : Bool) : FsmEvent → Bool
  | .open => true
  | .close _ => false
  | _ => isOpen

theorem fsmLowerup_state : (fsmLowerup pcb around f).state.lowerIsUp = true ∧
    (fsmLowerup pcb around f).state.isOpen = f.state.isOpen := by
  unfold fsmLowerup
  cases state : f.state with
  | starting =>
    dsimp only
    split_ifs <;> exact ⟨rfl, rfl⟩
  | initial | closed | stopped | closing | stopping | reqSent | ackRcvd | ackSent | opened =>
    simp [state, FsmState.lowerIsUp, FsmState.isOpen]

theorem fsmLowerdown_state : (fsmLowerdown pcb f).state.lowerIsUp = false ∧
    (fsmLowerdown pcb f).state.isOpen = f.state.isOpen := by
  unfold fsmLowerdown
  cases state : f.state <;> simp [state, FsmState.lowerIsUp, FsmState.isOpen]

theorem restartLayer_state (up : f.state.lowerIsUp = true) :
    f.state.Beside (restartLayer pcb around f).state := by
  unfold restartLayer
  split_ifs
  · exact ⟨fsmLowerup_state.1.trans up.symm, fsmLowerup_state.2.trans fsmLowerdown_state.2⟩
  · exact .refl _

theorem fsmOpen_state : (fsmOpen pcb around f).state.lowerIsUp = f.state.lowerIsUp ∧
    (fsmOpen pcb around f).state.isOpen = true := by
  have again (g : Fsm O) (up : g.state.lowerIsUp = true) (isOpen : g.state.isOpen = true) :
      (restartLayer pcb around g).state.lowerIsUp = true ∧
        (restartLayer pcb around g).state.isOpen = true :=
    ⟨(restartLayer_state up).1.trans up, (restartLayer_state up).2.trans isOpen⟩
  unfold fsmOpen
  cases state : f.state with
  | closed =>
    dsimp only
    split_ifs <;> exact ⟨rfl, rfl⟩
  | closing => exact again _ rfl rfl
  | stopped | opened => exact again f (by rw [state]; rfl) (by rw [state]; rfl)
  | initial | starting | stopping | reqSent | ackRcvd | ackSent =>
    simp [state, FsmState.lowerIsUp, FsmState.isOpen]

theorem closeLayer_state : (closeLayer pcb around f).state.lowerIsUp = f.state.lowerIsUp ∧
    (closeLayer pcb around f).state.isOpen = false := by
  unfold closeLayer
  cases state : f.state with
  | reqSent | ackRcvd | ackSent | opened =>
    simp only [terminateLayer_state, if_true]
    split_ifs <;> exact ⟨rfl, rfl⟩
  | initial | starting | closed | stopped | closing | stopping =>
    simp [state, FsmState.lowerIsUp, FsmState.isOpen]

/-- One event moves the automaton as it moves the layer below and the administrator. -/
theorem fsmStep_state (f : Fsm O) (event : FsmEvent × FsmAround) :
    (fsmStep pcb f event).state.lowerIsUp = lowerAfter f.state.lowerIsUp event.1 ∧
      (fsmStep pcb f event).state.isOpen = openAfter f.state.isOpen event.1 := by
  obtain ⟨event, around⟩ := event
  cases event with
  | lowerup => exact fsmLowerup_state
  | lowerdown => exact fsmLowerdown_state
  | «open» => exact fsmOpen_state
  | close reason => exact closeLayer_state
  | timeout =>
    show f.state.Beside (if f.timer then fsmTimeout pcb around f else f).state
    split_ifs
    · exact fsmTimeout_beside
    · exact .refl _
  | input inpacket => exact fsmInput_beside inpacket
  | protreject => exact fsmProtreject_beside
  | setFlags _ _ _ => exact ⟨rfl, rfl⟩

/-- After any sequence of events, the state tells whether the layer below is up and whether the
protocol has been opened: both are as the last event of their kind has left them. -/
theorem state_quadrant (pcb : Protocol O) (options : O) (events : List (FsmEvent × FsmAround)) :
    (fsmRun pcb options events).state.lowerIsUp =
        (events.map Prod.fst).foldl lowerAfter false ∧
      (fsmRun pcb options events).state.isOpen = (events.map Prod.fst).foldl openAfter false := by
  unfold fsmRun
  rw [List.foldl_map, List.foldl_map]
  constructor
  · exact (List.foldl_hom (fun f : Fsm O => f.state.lowerIsUp)
      (fun f event => (fsmStep_state f event).1.symm)).symm
  · exact (List.foldl_hom (fun f : Fsm O => f.state.isOpen)
      (fun f event => (fsmStep_state f event).2.symm)).symm

end Components.Ppp
