import Components.Modem.Output
import Components.Ppp.Handshake
import Components.Ppp.Link

/-!
# From `CONNECT` to the first request

When the module reports `CONNECT`, `m_state_change` calls `ppp_connect`, which opens the serial
link and starts LCP. LCP sends a request at once. The modem is not in data mode yet, so
`sio_write` refuses the bytes, and the request is lost. The automaton does not learn of this. Its
timer brings the request again, and then it goes out.

The options of LCP are a parameter. Of its other callbacks, `lcp_starting` does nothing, there is
none for a retransmission, and `lcp_finished` takes the link down.

## Main definitions

* `Lcp`, `PppPcb` — the protocol, and the control block with its link
* `pppConnect`, `lcpTimeout` — what `ppp_connect` and the timer of LCP do

## Main results

* `stack_lawful` — `ppp_connect` sends something on a dead link
* `request_lost_then_sent` — what becomes of the first request
-/

namespace Components.Modem.PppCall

variable {α β γ : Type} {Q : α → Prop} {Q' : β → Prop}

theorem bind_bind (call : PppCall α) (f : α → PppCall β) (g : β → PppCall γ) :
    call >>= f >>= g = call >>= fun a => f a >>= g := by
  induction call with
  | ret a => rfl
  | output data resume ih => exact congrArg (PppCall.output data) (funext ih)

/-- The call hands some byte to its output callback, or ends in a state with the property. -/
def SendsOr (Q : α → Prop) : PppCall α → Prop
  | .ret a => Q a
  | .output data resume => data ≠ [] ∨ ∀ n, (resume n).SendsOr Q

theorem SendsOr.bind {call : PppCall α} {f : α → PppCall β} (first : call.SendsOr Q)
    (rest : ∀ a, Q a → (f a).SendsOr Q') : (call >>= f).SendsOr Q' := by
  induction call with
  | ret a => exact rest a first
  | output data resume ih => exact Or.imp id (fun later n => ih n (later n)) first

theorem SendsOr.imp {Q₁ : α → Prop} {call : PppCall α} (h : call.SendsOr Q)
    (weaker : ∀ a, Q a → Q₁ a) : call.SendsOr Q₁ := by
  induction call with
  | ret a => exact weaker a h
  | output data resume ih => exact Or.imp id (fun later n => ih n (later n)) h

/-- What comes after a call that sends something does not matter. -/
theorem SendsOr.before {call : PppCall α} (h : call.SendsOr fun _ => False)
    (f : α → PppCall β) : (call >>= f).SendsOr fun _ => False :=
  h.bind fun _ ended => False.elim ended

theorem SendsOr.sends {call : PppCall α} (h : call.SendsOr fun _ => False) : call.Sends := by
  induction call with
  | ret a => exact h
  | output data resume ih => exact Or.imp id (fun later n => ih n (later n)) h

end Components.Modem.PppCall

namespace Components.Ppp

open Modem (Port PppCall)

/-! ### The control block -/

/-- `PPP_PHASE_DEAD` and the other phases. -/
inductive Phase
  | dead
  | master
  | holdoff
  | initializing
  | serialconn
  | dormant
  | establish
  | authenticate
  | callback
  | network
  | running
  | terminate
  | disconnect
  deriving DecidableEq, Repr

/-- LCP: its callbacks, and what it takes from `lcp_wantoptions` and `settings`. -/
structure Lcp (O : Type) extends Protocol O where
  passive : Bool
  silent : Bool
  laxRecv : Bool
  listenTime : ℕ
  /-- `lcp_starting` calls `link_required`, which does nothing. -/
  starting_eq : callbacks.starting = id
  /-- The entry of `lcp_callbacks` is `NULL`. -/
  retransmit_eq : callbacks.retransmit = id

/-- `ppp_pcb`, with its serial link and the automaton of LCP. -/
structure PppPcb (O : Type) where
  phase : Phase
  peerMru : ℕ
  pppos : Pppos
  lcp : Fsm O
  /-- `DELAYED_UP`. -/
  delayedUp : Bool

/-- What LCP finds when it sends: is there a buffer for a packet, and what the output calls find,
one after the other. -/
structure LcpAround where
  hasPbuf : CpCode → Bool
  moment : ℕ → Moment

/-- `PPP_LCP`. -/
def pppLcp : UInt16 := 0xc021

/-- `PPP_MRU`. -/
def pppMru : ℕ := 1500

section Functions

variable {O : Type}

/-- After `ppp_new` and `pppos_create`. -/
def pppNew (lcp : Lcp O) (options : O) : PppPcb O where
  phase := .dead
  peerMru := 0
  pppos := ppposCreate
  lcp := fsmInit lcp.settings options
  delayedUp := false

/-- `ppp_write` for packets that LCP has made up, with the header of `MAKEHEADER`. -/
def lcpWrite : List (List UInt8) → (ℕ → Moment) → Pppos → PppCall Pppos
  | [], _, p => .ret p
  | packet :: packets, moment, p => do
    let r ← ppposWrite (moment 0) (headerBytes false false pppLcp ++ packet) p
    lcpWrite packets (fun i => moment (i + 1)) r.2

/-- The automaton moves, and its packets are sent. -/
def PppPcb.move (around : LcpAround) (step : FsmAround → Fsm O → Fsm O) (p : PppPcb O) :
    PppCall (PppPcb O) := do
  let f := step ⟨around.hasPbuf, p.peerMru⟩ p.lcp
  let pppos ← lcpWrite (newPackets p.lcp f) around.moment p.pppos
  return { p with pppos := pppos, lcp := f }

/-- `lcp_open`. -/
def lcpOpen (lcp : Lcp O) (around : LcpAround) (p : PppPcb O) : PppCall (PppPcb O) :=
  p.move around fun around f =>
    fsmOpen lcp.toProtocol around { f with passive := lcp.passive, silent := lcp.silent }

/-- What `lcp_lowerup` sets up: all control characters are escaped, and nothing is compressed. -/
def configure (lcp : Lcp O) (p : PppPcb O) : PppPcb O :=
  { p with
    pppos := ppposRecvConfig (if lcp.laxRecv then 0 else 0xffffffff)
      (ppposSendConfig 0xffffffff false false p.pppos)
    peerMru := pppMru }

/-- `lcp_lowerup`. -/
def lcpLowerup (lcp : Lcp O) (around : LcpAround) (p : PppPcb O) : PppCall (PppPcb O) :=
  if lcp.listenTime ≠ 0 then .ret { configure lcp p with delayedUp := true }
  else (configure lcp p).move around (fsmLowerup lcp.toProtocol)

/-- `ppp_start`. -/
def pppStart (lcp : Lcp O) (opening lowering : LcpAround) (p : PppPcb O) : PppCall (PppPcb O) := do
  let p ← lcpOpen lcp opening { p with phase := .establish }
  lcpLowerup lcp lowering p

/-- `ppp_connect(ppp, 0)`, with `ppp_do_connect` and `pppos_connect`. -/
def pppConnect (lcp : Lcp O) (opening lowering : LcpAround) (p : PppPcb O) : PppCall (PppPcb O) :=
  if p.phase ≠ .dead then .ret p
  else pppStart lcp opening lowering { p with phase := .initializing, pppos := ppposConnect }

/-- `lcp_lowerdown`. -/
def lcpLowerdown (lcp : Lcp O) (p : PppPcb O) : PppPcb O :=
  if p.delayedUp then { p with delayedUp := false }
  else { p with lcp := fsmLowerdown lcp.toProtocol p.lcp }

/-- `link_terminated`, which `lcp_finished` calls, with `pppos_disconnect` and `ppp_link_end`. -/
def linkTerminated (lcp : Lcp O) (p : PppPcb O) : PppPcb O :=
  if p.phase = .dead then p
  else
    let p := lcpLowerdown lcp { p with phase := .disconnect }
    { p with pppos := ppposDisconnect p.pppos, phase := .dead }

/-- The timer of LCP goes off, if it is set. Calling `lcp_finished` is the last thing it does. -/
def lcpTimeout (lcp : Lcp O) (around : LcpAround) (p : PppPcb O) : PppCall (PppPcb O) := do
  let p' ← p.move around fun around f => if f.timer then fsmTimeout lcp.toProtocol around f else f
  return if FsmNote.finished ∈ p'.lcp.log.drop p.lcp.log.length then linkTerminated lcp p' else p'

end Functions

/-! ### Frames -/

variable {p : Pppos} {s : Out} {outAccm : ExtAccm}

/-- A character is in the buffer when nothing has been sent. -/
theorem sendsOr_append (ok : s.err = .ok) (c : UInt8) (accm fcs : Bool) :
    (ppposOutputAppend outAccm s c accm fcs).SendsOr fun s => s.err = .ok ∧ s.nb ≠ [] := by
  have room : (makeRoom s).SendsOr fun s => s.err = .ok := by
    unfold makeRoom
    split_ifs with full
    · -- only a buffer with something in it is full
      refine .inl fun empty => ?_
      rw [empty, pbufPoolBufsize_eq] at full
      simp at full
    · exact ok
  rw [ppposOutputAppend, if_neg (not_not.mpr ok)]
  refine room.bind fun s ok => ?_
  rw [if_neg (not_not.mpr ok)]
  show (copyChar outAccm c accm fcs s).err = .ok ∧ (copyChar outAccm c accm fcs s).nb ≠ []
  rw [copyChar_eq]
  refine ⟨ok, List.append_ne_nil_of_right_ne_nil _ ?_⟩
  unfold encoded
  split_ifs <;> simp

theorem sendsOr_appendAll (ok : s.err = .ok) (bytes : List UInt8) :
    (appendAll outAccm bytes s).SendsOr fun s => s.err = .ok := by
  induction bytes generalizing s with
  | nil => exact ok
  | cons c bytes ih => exact (sendsOr_append ok c true true).bind fun s h => ih h.1

/-- The flag at the end is sent at the latest. -/
theorem sendsOr_last (ok : s.err = .ok) (now : UInt32) :
    (ppposOutputLast p now s).SendsOr fun _ => False := by
  refine (sendsOr_append ok _ true false).bind fun s₁ h₁ => ?_
  refine (sendsOr_append h₁.1 _ true false).bind fun s₂ h₂ => ?_
  refine (sendsOr_append h₂.1 pppFlag false false).bind fun s₃ h₃ => ?_
  -- the buffer that is left holds the flag
  rw [sendRemaining, if_neg (not_not.mpr h₃.1), if_pos (List.length_pos_iff.mpr h₃.2)]
  exact .inl h₃.2

theorem sendsOr_write {m : Moment} (has : m.hasPbuf = true) (payload : List UInt8) :
    (ppposWrite m payload p).SendsOr fun _ => False := by
  have lead : (leadingFlag p m.before).SendsOr fun s => s.err = .ok := by
    unfold leadingFlag
    dsimp only
    split_ifs
    · exact (sendsOr_append (s := ⟨.ok, [], pppInitFcs⟩) rfl pppFlag false false).imp
        fun s h => h.1
    · rfl
  rw [ppposWrite, if_neg (by simp [has])]
  refine lead.bind fun s ok => ?_
  refine PppCall.SendsOr.bind (sendsOr_appendAll ?_ payload) fun s ok => sendsOr_last ok m.after
  exact ok

/-! ### A dead link -/

variable {O R : Type} {lcp : Lcp O} {opening lowering around : LcpAround} {q : PppPcb O}

/-- The link is dead, and LCP knows that the layer below is down. -/
structure Dead (q : PppPcb O) : Prop where
  phase : q.phase = .dead
  down : q.lcp.state.lowerIsUp = false

theorem dead_pppNew (lcp : Lcp O) (options : O) : Dead (pppNew lcp options) := ⟨rfl, rfl⟩

/-- The automaton moves and has nothing to send. -/
theorem PppPcb.move_of_quiet {step : FsmAround → Fsm O → Fsm O} {f : Fsm O}
    (stepped : step ⟨around.hasPbuf, q.peerMru⟩ q.lcp = f) (quiet : newPackets q.lcp f = []) :
    q.move around step = .ret { q with lcp := f } := by
  unfold move
  dsimp only
  rw [stepped, quiet]
  rfl

theorem fsmOpen_initial {pcb : Protocol O} {around : FsmAround} {f : Fsm O}
    (state : f.state = .initial) :
    fsmOpen pcb around f =
      Fsm.call .starting pcb.callbacks.starting { f with state := .starting } := by
  simp only [fsmOpen, state]

theorem fsmOpen_starting {pcb : Protocol O} {around : FsmAround} {f : Fsm O}
    (state : f.state = .starting) : fsmOpen pcb around f = f := by
  simp only [fsmOpen, state]

/-- Opening LCP on a dead link sends nothing. -/
theorem lcpOpen_of_down (down : q.lcp.state.lowerIsUp = false) :
    ∃ f, lcpOpen lcp around q = .ret { q with lcp := f } ∧ f.state = .starting ∧
      f.silent = lcp.silent ∧ f.id = q.lcp.id ∧ f.options = q.lcp.options := by
  cases state : q.lcp.state with
  | initial =>
    -- `lcp_starting` is called, and leaves the options as they are
    refine ⟨_, PppPcb.move_of_quiet (fsmOpen_initial state) ?_, rfl, rfl, rfl, ?_⟩
    · rw [newPackets]
      simp [Fsm.call]
    · show lcp.callbacks.starting q.lcp.options = _
      rw [lcp.starting_eq]
      rfl
  | starting =>
    -- a link that was taken down before LCP was closed
    refine ⟨_, PppPcb.move_of_quiet (fsmOpen_starting state) ?_, state, rfl, rfl, rfl⟩
    exact newPackets_of_log (List.append_nil q.lcp.log).symm
  | _ => simp [state, FsmState.lowerIsUp] at down

/-! ### The request -/

/-- The first request of an automaton that `ppp_connect` starts. -/
def lcpRequest (lcp : Lcp O) (f : Fsm O) : List UInt8 :=
  cpBytes .confReq (f.id + 1) (firstRequest lcp.toProtocol ⟨fun _ => true, pppMru⟩ f)

/-- The serial link when the first request is sent. -/
def connectedPppos (lcp : Lcp O) : Pppos :=
  ppposRecvConfig (if lcp.laxRecv then 0 else 0xffffffff)
    (ppposSendConfig 0xffffffff false false ppposConnect)

/-- LCP has made up its first request, and waits for an answer. -/
structure Asking (lcp : Lcp O) (before f : Fsm O) : Prop where
  state : f.state = .reqSent
  timer : f.timer = true
  reqid : f.reqid = before.id + 1
  retransmits : f.retransmits = lcp.settings.fsmMaxConfReqTransmits - 1
  options : f.options = lcp.callbacks.resetci before.options

theorem asking_startRequest {before f : Fsm O} {hasPbuf : CpCode → Bool}
    (state : f.state = .starting) (has : hasPbuf .confReq = true) (id : f.id = before.id)
    (options : f.options = before.options) :
    Asking lcp before (startRequest lcp.toProtocol ⟨hasPbuf, pppMru⟩ f) ∧
      newPackets f (startRequest lcp.toProtocol ⟨hasPbuf, pppMru⟩ f) = [lcpRequest lcp before] := by
  have rests : f.state.negotiates = false := by rw [state]; rfl
  have reqid : (startRequest lcp.toProtocol ⟨hasPbuf, pppMru⟩ f).reqid = before.id + 1 := by
    simp [startRequest, fsmSconfreq, sendRequest, resetOptions, rests, newRequest, Fsm.call, has,
      id]
  constructor
  · constructor
    · rfl
    · simp [startRequest, fsmSconfreq, sendRequest, has]
    · exact reqid
    · simp [startRequest, fsmSconfreq, sendRequest, newRequest, has]
    · simp [startRequest, fsmSconfreq, sendRequest, resetOptions, rests, newRequest, Fsm.call, has,
        options]
  · rw [(startRequest_spec rests has).2.2, reqid, lcpRequest, firstRequest, firstRequest, options]

/-- `ppp_connect` on a dead link sends the first request. -/
theorem pppConnect_of_dead (dead : Dead q) (loud : lcp.silent = false) (now : lcp.listenTime = 0)
    (has : lowering.hasPbuf .confReq = true) :
    ∃ f, Asking lcp q.lcp f ∧ pppConnect lcp opening lowering q = do
      let pppos ← lcpWrite [lcpRequest lcp q.lcp] lowering.moment (connectedPppos lcp)
      return { q with phase := .establish, peerMru := pppMru, pppos := pppos, lcp := f } := by
  obtain ⟨f, opened, state, silent, id, options⟩ := @lcpOpen_of_down O lcp opening
    { q with phase := .establish, pppos := ppposConnect } dead.down
  obtain ⟨asking, packets⟩ := @asking_startRequest O lcp q.lcp f _ state has id options
  refine ⟨_, asking, ?_⟩
  rw [pppConnect, if_neg (not_not.mpr dead.phase), pppStart]
  dsimp only
  rw [opened]
  show lcpLowerup lcp lowering _ = _
  have lowerup : fsmLowerup lcp.toProtocol ⟨lowering.hasPbuf, pppMru⟩ f =
      startRequest lcp.toProtocol ⟨lowering.hasPbuf, pppMru⟩ f := by
    simp only [fsmLowerup, state, silent, loud, Bool.false_eq_true, if_false]
  rw [lcpLowerup, if_neg (not_not.mpr now), PppPcb.move]
  dsimp only [configure]
  rw [lowerup, packets]
  rfl

/-- The timer makes LCP send its request again. -/
theorem lcpTimeout_of_asking {before : Fsm O} (asking : Asking lcp before q.lcp)
    (mru : q.peerMru = pppMru) (more : lcp.settings.fsmMaxConfReqTransmits ≠ 1)
    (has : around.hasPbuf .confReq = true) :
    ∃ f, f.state = .reqSent ∧ lcpTimeout lcp around q = do
      let pppos ← lcpWrite [lcpRequest lcp before] around.moment q.pppos
      return { q with pppos := pppos, lcp := f } := by
  -- with a single transmission LCP would give up here
  have left : q.lcp.retransmits ≠ 0 := by
    rw [asking.retransmits]
    grind
  let data := firstRequest lcp.toProtocol ⟨fun _ => true, pppMru⟩ before
  -- the options are not reset while LCP negotiates, so the request is the same
  have retried : ∃ f : Fsm O, fsmTimeout lcp.toProtocol ⟨around.hasPbuf, q.peerMru⟩ q.lcp = f ∧
      f.state = .reqSent ∧
      f.log = q.lcp.log ++ [.output .confReq (before.id + 1) data true] := by
    refine ⟨_, rfl, ?_, ?_⟩
    · simp [fsmTimeout, retryRequest, asking.state, left]
    · simp [fsmTimeout, retryRequest, fsmSconfreq, resetOptions, sendRequest, asking.state, left,
        FsmState.negotiates, lcp.retransmit_eq, has, asking.reqid, asking.options, mru, data,
        firstRequest]
  obtain ⟨f, stepped, state, log⟩ := retried
  have packets : newPackets q.lcp f = [lcpRequest lcp before] := by
    rw [newPackets_of_log log]
    rfl
  have calm : FsmNote.finished ∉ f.log.drop q.lcp.log.length := by
    rw [log, List.drop_left]
    simp
  refine ⟨f, state, ?_⟩
  unfold lcpTimeout PppPcb.move
  simp only [asking.timer, if_true, stepped, packets]
  rw [PppCall.bind_bind]
  refine congrArg (lcpWrite _ _ _ >>= ·) (funext fun pppos => ?_)
  exact congrArg PppCall.ret (if_neg calm)

/-! ### Through the port -/

/-- A packet of LCP through the port. -/
theorem run_lcpWrite {P : Type} {moment : ℕ → Moment} (has : (moment 0).hasPbuf = true)
    (packet : List UInt8) (p : Pppos) (after : Pppos → P) (port : Port P) :
    let call : PppCall P := do
      let pppos ← lcpWrite [packet] moment p
      return after pppos
    if port.rnsm = .enterPpp then
      ∃ pieces, (call.run port).uart = port.uart ++ pieces.map .frame ∧ Fits pieces ∧
        pieces.flatten = line (idleFlag p (moment 0).before) p.outAccm
          (headerBytes false false pppLcp ++ packet) ∧
        (call.run port).ppp = after { p with lastXmit := (moment 0).after }
    else (call.run port).uart = port.uart ∧
      (call.run port).ppp = after { p with lastXmit := 0 } := by
  intro call
  have one : call = do
      let r ← ppposWrite (moment 0) (headerBytes false false pppLcp ++ packet) p
      return after r.2 := PppCall.bind_bind ..
  rw [one]
  exact run_of_sent (fun reply => ppposWrite_answer reply _ _ p has) after port

/-- The embedded stack is lawful, whatever else it does on a dead link that leaves it dead. -/
theorem stack_lawful {ppp : Modem.Ppp (PppPcb O) R} {options : O}
    (init : ppp.init = pppNew lcp options) (connect : ppp.connect = pppConnect lcp opening lowering)
    (wake : ∀ reason q, Dead q → (ppp.wake reason q).Ends Dead) (loud : lcp.silent = false)
    (now : lcp.listenTime = 0) (has : lowering.hasPbuf .confReq = true)
    (has' : (lowering.moment 0).hasPbuf = true) : Modem.Lawful ppp Dead where
  init := by
    rw [init]
    exact dead_pppNew lcp options
  wake := wake
  connect := by
    intro q dead
    obtain ⟨f, -, eq⟩ := @pppConnect_of_dead O lcp opening lowering q dead loud now has
    rw [connect, eq]
    have sends := sendsOr_write has' (headerBytes false false pppLcp ++ lcpRequest lcp q.lcp)
      (p := connectedPppos lcp)
    exact ((sends.before _).before _).sends

/-- On a dead link the timer has nothing to do. -/
theorem lcpTimeout_dead (dead : Dead q) : (lcpTimeout lcp around q).Ends Dead := by
  have kept : ∃ timer, (if q.lcp.timer then
      fsmTimeout lcp.toProtocol ⟨around.hasPbuf, q.peerMru⟩ q.lcp else q.lcp) =
      { q.lcp with timer := timer } := by
    split_ifs
    · refine ⟨false, ?_⟩
      have down := dead.down
      unfold fsmTimeout
      cases state : q.lcp.state <;> simp_all [FsmState.lowerIsUp]
    · exact ⟨q.lcp.timer, rfl⟩
  obtain ⟨timer, moved⟩ := kept
  have quiet : newPackets q.lcp { q.lcp with timer := timer } = [] :=
    newPackets_of_log (List.append_nil q.lcp.log).symm
  rw [lcpTimeout, PppPcb.move_of_quiet moved quiet]
  have calm : FsmNote.finished ∉ q.lcp.log.drop q.lcp.log.length := by simp
  show Dead (if _ then _ else _)
  rw [if_neg calm]
  exact ⟨dead.phase, dead.down⟩

/-- The stack with LCP alone, which is woken by its timer. -/
def lcpStack (lcp : Lcp O) (options : O) (opening lowering : LcpAround) :
    Modem.Ppp (PppPcb O) LcpAround where
  init := pppNew lcp options
  connect := pppConnect lcp opening lowering
  wake := lcpTimeout lcp

/-- LCP with requests that ask for a size of packets. -/
def sizeLcp : Lcp Unit :=
  { sizeProtocol with
    passive := false
    silent := false
    laxRecv := false
    listenTime := 0
    starting_eq := rfl
    retransmit_eq := rfl }

/-- There are buffers, at these times. -/
def roomyAt (before after : UInt32) : LcpAround := ⟨fun _ => true, fun _ => ⟨true, before, after⟩⟩

def sizeStack : Modem.Ppp (PppPcb Unit) LcpAround :=
  lcpStack sizeLcp () (roomyAt 5 5) (roomyAt 5 7)

theorem stack_lawful_size : Modem.Lawful sizeStack Dead :=
  stack_lawful rfl rfl (fun _ _ => lcpTimeout_dead) rfl rfl rfl rfl

/-- The byte that completes `CONNECT` starts LCP, but the first request does not go out: the modem
is in data mode only afterwards. When the timer of LCP goes off, the same request goes out. -/
theorem request_lost_then_sent (ppp : Modem.Ppp (PppPcb O) R)
    (connect : ppp.connect = pppConnect lcp opening lowering) (loud : lcp.silent = false)
    (now : lcp.listenTime = 0) (more : lcp.settings.fsmMaxConfReqTransmits ≠ 1)
    (has : lowering.hasPbuf .confReq = true) (has' : (lowering.moment 0).hasPbuf = true)
    (s : Port (PppPcb O)) (dead : Dead s.ppp) {c : UInt8} {fresh : Modem.Locals}
    (connects : Modem.Connects s (.receive c fresh : Modem.PortEvent R)) (again : LcpAround)
    (hasAgain : again.hasPbuf .confReq = true) (hasAgain' : (again.moment 0).hasPbuf = true) :
    let t := s.step ppp (.receive c fresh)
    let u := (lcpTimeout lcp again t.ppp).run t
    t.uart = s.uart ∧ t.rnsm = .enterPpp ∧ t.ppp.lcp.state = .reqSent ∧
      t.ppp.lcp.timer = true ∧ t.ppp.pppos = { connectedPppos lcp with lastXmit := 0 } ∧
      ∃ pieces, u.uart = s.uart ++ pieces.map .frame ∧ Fits pieces ∧
        pieces.flatten = line (idleFlag t.ppp.pppos (again.moment 0).before) t.ppp.pppos.outAccm
          (headerBytes false false pppLcp ++ lcpRequest lcp s.ppp.lcp) ∧
        u.ppp.lcp.state = .reqSent := by
  intro t u
  obtain ⟨f, asking, eq⟩ := @pppConnect_of_dead O lcp opening lowering s.ppp dead loud now has
  -- the request is sent in the state in which the line ended
  have command : s.connecting.rnsm ≠ .enterPpp := by
    rw [Modem.Port.connecting_rnsm, connects.1]
    decide
  have lost := run_lcpWrite has' (lcpRequest lcp s.ppp.lcp) (connectedPppos lcp)
    (fun pppos => { s.ppp with
      phase := .establish, peerMru := pppMru, pppos := pppos, lcp := f }) s.connecting
  rw [if_neg command, ← eq, ← connect] at lost
  have step : t = { (ppp.connect s.ppp).run s.connecting with
      rnsm := .enterPpp, arrRxCharNb := 0 } := by
    rw [← Modem.Port.connecting_ppp]
    exact connects.step_eq
  have uart : t.uart = s.uart := by
    rw [step]
    exact lost.1.trans Modem.Port.connecting_uart
  have stack : t.ppp = { s.ppp with
      phase := .establish
      peerMru := pppMru
      pppos := { connectedPppos lcp with lastXmit := 0 }
      lcp := f } := by
    rw [step]
    exact lost.2
  have data : t.rnsm = .enterPpp := by rw [step]
  -- the timer finds the port in data mode
  have waiting : Asking lcp s.ppp.lcp t.ppp.lcp := by rw [stack]; exact asking
  obtain ⟨f', state, retry⟩ :=
    lcpTimeout_of_asking waiting (by rw [stack]) more hasAgain
  have sent := run_lcpWrite hasAgain' (lcpRequest lcp s.ppp.lcp) t.ppp.pppos
    (fun pppos => { t.ppp with pppos := pppos, lcp := f' }) t
  rw [if_pos data, ← retry] at sent
  obtain ⟨pieces, out, fits, frame, result⟩ := sent
  refine ⟨uart, data, waiting.state, waiting.timer, by rw [stack], pieces, ?_, fits, frame, ?_⟩
  · rw [← uart]
    exact out
  · show ((lcpTimeout lcp again t.ppp).run t).ppp.lcp.state = .reqSent
    rw [result]
    exact state

/-- The module has been dialled, and all of `CONNECT` but the line feed has come. -/
def dialled : Port (PppPcb Unit) :=
  (Modem.ascii "CONNECT\r").foldl
    (fun s c => s.step sizeStack (.receive c ⟨0, 0, fun _ => 0⟩))
    { Port.start sizeStack ⟨0, 0, fun _ => 0⟩ with rnsm := .atd }

theorem request_lost_then_sent_size :
    let t := dialled.step sizeStack (.receive Modem.lf ⟨0, 0, fun _ => 0⟩)
    let u := t.step sizeStack (.wake (roomyAt 6000 6002))
    t.uart = [] ∧ ∃ pieces : List (List UInt8), u.uart = pieces.map .frame ∧
      pieces.flatten = line true (connectedPppos sizeLcp).outAccm
        (headerBytes false false pppLcp ++ [1, 1, 0, 8, 1, 4, 5, 220]) := by
  obtain ⟨lost, -, -, -, link, pieces, sent, -, frame, -⟩ :=
    request_lost_then_sent sizeStack rfl rfl rfl (by decide) rfl rfl dialled ⟨rfl, rfl⟩
      ⟨by decide +kernel, by decide +kernel, rfl, by decide +kernel⟩
      (roomyAt 6000 6002) rfl rfl
  rw [link] at frame
  exact ⟨lost, pieces, sent, frame⟩

end Components.Ppp
