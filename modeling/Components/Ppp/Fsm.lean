import Mathlib.Data.List.Basic

/-!
# The automaton of the control protocols: `fsm.c`

Every control protocol of PPP (LCP, IPCP and so on) runs the same automaton. It is driven by
the layer below, by the administrator, by packets of the peer and by one timer, and calls the
protocol back: for the options of a request, and to say that the layer is up or down.

The callbacks of a protocol are a parameter. Its options have a type of their own, which the
callbacks may change. They are not given the automaton. Those that call it again do so as the
last thing that an event does (`ipcp_up` closes a link without an address, `ipcp_finished` may
take down the layer below), so such a call is the next event.

A packet is lost when there is no buffer for it. The automaton does not learn of it.

## Main definitions

* `FsmCallbacks`, `FsmSettings` — the protocol and its settings
* `Fsm` — the record `fsm`, with its timer and a log of what it has done
* `fsmLowerup`, `fsmLowerdown`, `fsmOpen`, `fsmClose`, `fsmTimeout`, `fsmInput`,
  `fsmProtreject` — the functions
* `FsmEvent`, `fsmStep` — the automaton under any sequence of events
-/

namespace Components.Ppp

/-- `PPP_FSM_INITIAL` and the other link states. -/
inductive FsmState
  | initial
  | starting
  | closed
  | stopped
  | closing
  | stopping
  | reqSent
  | ackRcvd
  | ackSent
  | opened
  deriving DecidableEq, Repr

/-- The codes of the packets that the automaton sends. -/
inductive CpCode
  | confReq
  | confAck
  | confNak
  | confRej
  | termReq
  | termAck
  | codeRej
  deriving DecidableEq, Repr

/-- `CONFREQ` and the others. -/
def CpCode.ofByte : UInt8 → Option CpCode
  | 1 => some .confReq
  | 2 => some .confAck
  | 3 => some .confNak
  | 4 => some .confRej
  | 5 => some .termReq
  | 6 => some .termAck
  | 7 => some .codeRej
  | _ => none

/-- `HEADERLEN`. -/
def headerlen : ℕ := 4

/-! ### The protocol -/

/-- What `reqci` says of a request of the peer. -/
inductive ReqReply
  | ack
  | nak
  | rej
  deriving DecidableEq, Repr

def ReqReply.code : ReqReply → CpCode
  | .ack => .confAck
  | .nak => .confNak
  | .rej => .confRej

/-- `struct fsm_callbacks`, for a protocol with options in `O`. A callback that changes nothing
stands for one that is not there, except where the automaton treats `NULL` in another way. -/
structure FsmCallbacks (O : Type) where
  /-- Reset our configuration information. -/
  resetci : O → O
  /-- The length of our configuration information. -/
  cilen : O → ℕ
  /-- Our configuration information, in so many bytes. -/
  addci : O → ℕ → List UInt8
  /-- The assertion after the call of `addci`. -/
  length_addci : ∀ options n, (addci options n).length = n
  /-- Is this an acknowledgement of our request? -/
  ackci : Option (O → List UInt8 → O × Bool)
  /-- The peer asks for other values, which may be treated as a rejection. -/
  nakci : Option (O → List UInt8 → Bool → O × Int)
  /-- The peer rejects some options. -/
  rejci : Option (O → List UInt8 → O × Int)
  /-- What to answer to a request, and whether to reject what one does not agree with. -/
  reqci : Option (O → List UInt8 → Bool → O × ReqReply × List UInt8)
  up : O → O
  down : O → O
  starting : O → O
  finished : O → O
  retransmit : O → O
  /-- A packet with another code, and whether the protocol knows it. -/
  extcode : Option (O → UInt8 → UInt8 → List UInt8 → O × Bool)

/-- The settings of the control block that the automaton uses. -/
structure FsmSettings where
  fsmMaxConfReqTransmits : UInt8
  fsmMaxTermTransmits : UInt8
  fsmMaxNakLoops : UInt8
  deriving DecidableEq, Repr

/-- A protocol with its settings. -/
structure Protocol (O : Type) where
  callbacks : FsmCallbacks O
  settings : FsmSettings

/-! ### The automaton -/

/-- What the automaton has done. -/
inductive FsmNote
  /-- A packet was made up, and sent if there was a buffer for it. -/
  | output (code : CpCode) (id : UInt8) (data : List UInt8) (sent : Bool)
  /-- A Configure-Ack of the current request was accepted. -/
  | acked (id : UInt8)
  | resetci
  | up
  | down
  | starting
  | finished
  deriving DecidableEq, Repr

/-- The record `fsm`. -/
structure Fsm (O : Type) where
  state : FsmState
  /-- `OPT_PASSIVE`. -/
  passive : Bool
  /-- `OPT_RESTART`. -/
  restart : Bool
  /-- `OPT_SILENT`. -/
  silent : Bool
  id : UInt8
  reqid : UInt8
  seenAck : Bool
  retransmits : UInt8
  nakloops : UInt8
  rnakloops : UInt8
  maxnakloops : UInt8
  /-- The first `term_reason_len` bytes of `term_reason`. -/
  termReason : List UInt8
  /-- Is a call of `fsm_timeout` pending? There is never a second one, since `TIMEOUT` cancels
  what is pending first. -/
  timer : Bool
  options : O
  log : List FsmNote

/-- What an event finds around the automaton: is there a buffer for a packet, and the size of
the packets that the peer takes. -/
structure FsmAround where
  hasPbuf : CpCode → Bool
  peerMru : ℕ

section Functions

variable {O : Type}

/-- `fsm_init`, for a control block that is all zeros. -/
def fsmInit (settings : FsmSettings) (options : O) : Fsm O where
  state := .initial
  passive := false
  restart := false
  silent := false
  id := 0
  reqid := 0
  seenAck := false
  retransmits := 0
  nakloops := 0
  rnakloops := 0
  maxnakloops := settings.fsmMaxNakLoops
  termReason := []
  timer := false
  options := options
  log := []

/-- A callback is called. -/
def Fsm.call (note : FsmNote) (callback : O → O) (f : Fsm O) : Fsm O :=
  { f with options := callback f.options, log := f.log ++ [note] }

/-- `fsm_sdata`. -/
def fsmSdata (around : FsmAround) (code : CpCode) (id : UInt8) (data : List UInt8) (f : Fsm O) :
    Fsm O :=
  { f with log := f.log ++
    [.output code id (data.take (around.peerMru - headerlen)) (around.hasPbuf code)] }

/-- The states in which requests are exchanged. -/
def FsmState.negotiates : FsmState → Bool
  | .reqSent | .ackRcvd | .ackSent => true
  | _ => false

/-- Not currently negotiating: reset options. -/
def resetOptions (pcb : Protocol O) (f : Fsm O) : Fsm O :=
  if f.state.negotiates then f
  else { f.call .resetci pcb.callbacks.resetci with nakloops := 0, rnakloops := 0 }

/-- New request: reset retransmission counter, use new id. -/
def newRequest (pcb : Protocol O) (f : Fsm O) : Fsm O :=
  { f with
    retransmits := pcb.settings.fsmMaxConfReqTransmits
    id := f.id + 1
    reqid := f.id + 1 }

/-- Make up the request packet, send it and start the retransmit timer. Without a buffer the
timer is not started. -/
def sendRequest (pcb : Protocol O) (around : FsmAround) (f : Fsm O) : Fsm O :=
  let cilen := min (pcb.callbacks.cilen f.options) (around.peerMru - headerlen)
  let data := if cilen ≠ 0 then pcb.callbacks.addci f.options cilen else []
  let f := { f with
    seenAck := false
    log := f.log ++ [.output .confReq f.reqid data (around.hasPbuf .confReq)] }
  if around.hasPbuf .confReq then { f with retransmits := f.retransmits - 1, timer := true } else f

/-- `fsm_sconfreq`. -/
def fsmSconfreq (pcb : Protocol O) (around : FsmAround) (retransmit : Bool) (f : Fsm O) : Fsm O :=
  let f := resetOptions pcb f
  sendRequest pcb around (if retransmit then f else newRequest pcb f)

/-- `fsm_sconfreq(f, 0)` and `REQSENT`. -/
def startRequest (pcb : Protocol O) (around : FsmAround) (f : Fsm O) : Fsm O :=
  { fsmSconfreq pcb around false f with state := .reqSent }

/-! ### The layer below and the administrator -/

/-- `fsm_lowerup`. -/
def fsmLowerup (pcb : Protocol O) (around : FsmAround) (f : Fsm O) : Fsm O :=
  match f.state with
  | .initial => { f with state := .closed }
  | .starting => if f.silent then { f with state := .stopped } else startRequest pcb around f
  | _ => f

/-- `fsm_lowerdown`. -/
def fsmLowerdown (pcb : Protocol O) (f : Fsm O) : Fsm O :=
  match f.state with
  | .closed => { f with state := .initial }
  | .stopped => Fsm.call .starting pcb.callbacks.starting { f with state := .starting }
  | .closing => { f with state := .initial, timer := false }
  | .stopping | .reqSent | .ackRcvd | .ackSent => { f with state := .starting, timer := false }
  | .opened => { f.call .down pcb.callbacks.down with state := .starting }
  | .initial | .starting => f

/-- `OPT_RESTART` treats a second open as down and up. -/
def restartLayer (pcb : Protocol O) (around : FsmAround) (f : Fsm O) : Fsm O :=
  if f.restart then fsmLowerup pcb around (fsmLowerdown pcb f) else f

/-- `fsm_open`. -/
def fsmOpen (pcb : Protocol O) (around : FsmAround) (f : Fsm O) : Fsm O :=
  match f.state with
  | .initial => Fsm.call .starting pcb.callbacks.starting { f with state := .starting }
  | .closed => if f.silent then { f with state := .stopped } else startRequest pcb around f
  | .closing => restartLayer pcb around { f with state := .stopping }
  | .stopped | .opened => restartLayer pcb around f
  | _ => f

/-- Send a Terminate-Request with a new id. -/
def sendTerminate (around : FsmAround) (f : Fsm O) : Fsm O :=
  fsmSdata around .termReq (f.id + 1) f.termReason { f with id := f.id + 1, reqid := f.id + 1 }

/-- Cancel any timeout running, or notify upper layers. -/
def leaveLayer (pcb : Protocol O) (f : Fsm O) : Fsm O :=
  if f.state ≠ .opened then { f with timer := false } else f.call .down pcb.callbacks.down

/-- `terminate_layer`, to `CLOSING` or to `STOPPING`. -/
def terminateLayer (pcb : Protocol O) (around : FsmAround) (closing : Bool) (f : Fsm O) : Fsm O :=
  let f := leaveLayer pcb f
  let f := sendTerminate around { f with retransmits := pcb.settings.fsmMaxTermTransmits }
  if f.retransmits = 0 then
    Fsm.call .finished pcb.callbacks.finished
      { f with state := if closing then .closed else .stopped }
  else
    { f with
      timer := true
      retransmits := f.retransmits - 1
      state := if closing then .closing else .stopping }

/-- The switch of `fsm_close`. -/
def closeLayer (pcb : Protocol O) (around : FsmAround) (f : Fsm O) : Fsm O :=
  match f.state with
  | .starting => { f with state := .initial }
  | .stopped => { f with state := .closed }
  | .stopping => { f with state := .closing }
  | .reqSent | .ackRcvd | .ackSent | .opened => terminateLayer pcb around true f
  | _ => f

/-- `fsm_close`. -/
def fsmClose (pcb : Protocol O) (around : FsmAround) (reason : Option (List UInt8)) (f : Fsm O) :
    Fsm O :=
  closeLayer pcb around { f with termReason := (reason.getD []).take 0xff }

/-! ### The timer -/

/-- The timer goes off while the layer is terminating. -/
def retryTerminate (pcb : Protocol O) (around : FsmAround) (f : Fsm O) : Fsm O :=
  if f.retransmits = 0 then
    -- we've waited for an ack long enough
    Fsm.call .finished pcb.callbacks.finished
      { f with state := if f.state = .closing then .closed else .stopped }
  else { sendTerminate around f with timer := true, retransmits := f.retransmits - 1 }

/-- The timer goes off while the layer is negotiating. -/
def retryRequest (pcb : Protocol O) (around : FsmAround) (f : Fsm O) : Fsm O :=
  if f.retransmits = 0 then
    if f.passive then { f with state := .stopped }
    else Fsm.call .finished pcb.callbacks.finished { f with state := .stopped }
  else
    let f := fsmSconfreq pcb around true { f with options := pcb.callbacks.retransmit f.options }
    if f.state = .ackRcvd then { f with state := .reqSent } else f

/-- `fsm_timeout`. The timer has gone off. -/
def fsmTimeout (pcb : Protocol O) (around : FsmAround) (f : Fsm O) : Fsm O :=
  match f.state with
  | .closing | .stopping => retryTerminate pcb around { f with timer := false }
  | .reqSent | .ackRcvd | .ackSent => retryRequest pcb around { f with timer := false }
  | _ => { f with timer := false }

/-! ### Packets -/

/-- What `reqci` answers to a request. Without it, all options are rejected. -/
def checkRequest (pcb : Protocol O) (inp : List UInt8) (f : Fsm O) : O × ReqReply × List UInt8 :=
  match pcb.callbacks.reqci with
  | some reqci => reqci f.options inp (f.nakloops ≥ f.maxnakloops)
  | none => (f.options, if inp ≠ [] then .rej else .ack, inp)

/-- The end of `fsm_rconfreq`: where the answer leads. -/
def afterReply (pcb : Protocol O) (reply : ReqReply) (f : Fsm O) : Fsm O :=
  match reply with
  | .ack =>
    if f.state = .ackRcvd then
      { Fsm.call .up pcb.callbacks.up { f with timer := false, state := .opened } with
        nakloops := 0 }
    else { f with state := .ackSent, nakloops := 0 }
  | .nak =>
    { f with
      state := if f.state ≠ .ackRcvd then .reqSent else f.state
      nakloops := f.nakloops + 1 }
  | .rej => { f with state := if f.state ≠ .ackRcvd then .reqSent else f.state }

/-- The second half of `fsm_rconfreq`: check the options and answer. -/
def answerRequest (pcb : Protocol O) (around : FsmAround) (id : UInt8) (inp : List UInt8)
    (f : Fsm O) : Fsm O :=
  let answer := checkRequest pcb inp f
  afterReply pcb answer.2.1
    (fsmSdata around answer.2.1.code id answer.2.2 { f with options := answer.1 })

/-- `fsm_rconfreq`. -/
def fsmRconfreq (pcb : Protocol O) (around : FsmAround) (id : UInt8) (inp : List UInt8)
    (f : Fsm O) : Fsm O :=
  match f.state with
  | .closed => fsmSdata around .termAck id [] f
  | .closing | .stopping => f
  | .opened =>
    answerRequest pcb around id inp (startRequest pcb around (f.call .down pcb.callbacks.down))
  | .stopped => answerRequest pcb around id inp (startRequest pcb around f)
  | _ => answerRequest pcb around id inp f

/-- What `ackci` says of an acknowledgement. -/
def checkAck (pcb : Protocol O) (inp : List UInt8) (f : Fsm O) : O × Bool :=
  match pcb.callbacks.ackci with
  | some ackci => ackci f.options inp
  | none => (f.options, decide (inp.length = 0))

/-- The switch of `fsm_rconfack`, for a good acknowledgement. -/
def acceptAck (pcb : Protocol O) (around : FsmAround) (id : UInt8) (f : Fsm O) : Fsm O :=
  match f.state with
  | .closed | .stopped => fsmSdata around .termAck id [] f
  | .reqSent => { f with state := .ackRcvd, retransmits := pcb.settings.fsmMaxConfReqTransmits }
  | .ackRcvd => startRequest pcb around { f with timer := false }
  | .ackSent =>
    Fsm.call .up pcb.callbacks.up { f with
      timer := false
      state := .opened
      retransmits := pcb.settings.fsmMaxConfReqTransmits }
  | .opened => startRequest pcb around (f.call .down pcb.callbacks.down)
  | _ => f

/-- `fsm_rconfack`. -/
def fsmRconfack (pcb : Protocol O) (around : FsmAround) (id : UInt8) (inp : List UInt8)
    (f : Fsm O) : Fsm O :=
  if id ≠ f.reqid || f.seenAck then f
  else
    let answer := checkAck pcb inp f
    let f := { f with options := answer.1 }
    if !answer.2 then f
    else acceptAck pcb around id
      { f with seenAck := true, rnakloops := 0, log := f.log ++ [FsmNote.acked id] }

/-- What `nakci` or `rejci` says of the packet, `0` when there is no such callback. -/
def checkNakrej (pcb : Protocol O) (nak : Bool) (inp : List UInt8) (f : Fsm O) : O × Int :=
  if nak then
    match pcb.callbacks.nakci with
    | some nakci => nakci f.options inp (f.rnakloops ≥ f.maxnakloops)
    | none => (f.options, 0)
  else
    match pcb.callbacks.rejci with
    | some rejci => rejci f.options inp
    | none => (f.options, 0)

/-- The switch of `fsm_rconfnakrej`. A negative answer stops the protocol. -/
def acceptNakrej (pcb : Protocol O) (around : FsmAround) (id : UInt8) (stops : Bool) (f : Fsm O) :
    Fsm O :=
  match f.state with
  | .closed | .stopped => fsmSdata around .termAck id [] f
  | .reqSent | .ackSent =>
    -- kludge for stopping CCP
    if stops then { f with timer := false, state := .stopped }
    else fsmSconfreq pcb around false { f with timer := false }
  | .ackRcvd => startRequest pcb around { f with timer := false }
  | .opened => startRequest pcb around (f.call .down pcb.callbacks.down)
  | _ => f

/-- `fsm_rconfnakrej`. -/
def fsmRconfnakrej (pcb : Protocol O) (around : FsmAround) (nak : Bool) (id : UInt8)
    (inp : List UInt8) (f : Fsm O) : Fsm O :=
  if id ≠ f.reqid || f.seenAck then f
  else
    let f := { f with rnakloops := if nak then f.rnakloops + 1 else 0 }
    let answer := checkNakrej pcb nak inp f
    let f := { f with options := answer.1 }
    if answer.2 = 0 then f
    else acceptNakrej pcb around id (answer.2 < 0) { f with seenAck := true }

/-- The switch of `fsm_rtermreq`. -/
def acceptTermreq (pcb : Protocol O) (f : Fsm O) : Fsm O :=
  match f.state with
  | .ackRcvd | .ackSent => { f with state := .reqSent }
  | .opened =>
    { Fsm.call .down pcb.callbacks.down { f with retransmits := 0, state := .stopping } with
      timer := true }
  | _ => f

/-- `fsm_rtermreq`. -/
def fsmRtermreq (pcb : Protocol O) (around : FsmAround) (id : UInt8) (f : Fsm O) : Fsm O :=
  fsmSdata around .termAck id [] (acceptTermreq pcb f)

/-- `fsm_rtermack`. -/
def fsmRtermack (pcb : Protocol O) (around : FsmAround) (f : Fsm O) : Fsm O :=
  match f.state with
  | .closing =>
    Fsm.call .finished pcb.callbacks.finished { f with timer := false, state := .closed }
  | .stopping =>
    Fsm.call .finished pcb.callbacks.finished { f with timer := false, state := .stopped }
  | .ackRcvd => { f with state := .reqSent }
  | .opened => startRequest pcb around (f.call .down pcb.callbacks.down)
  | _ => f

/-- `fsm_rcoderej`. -/
def fsmRcoderej (inp : List UInt8) (f : Fsm O) : Fsm O :=
  if inp.length < headerlen then f
  else if f.state = .ackRcvd then { f with state := .reqSent }
  else f

/-- What `extcode` says of a packet with another code. -/
def checkExtcode (pcb : Protocol O) (code id : UInt8) (inp : List UInt8) (f : Fsm O) : O × Bool :=
  match pcb.callbacks.extcode with
  | some extcode => extcode f.options code id inp
  | none => (f.options, false)

/-- The packets with another code. -/
def fsmExtcode (pcb : Protocol O) (around : FsmAround) (code id : UInt8)
    (inp packet : List UInt8) (f : Fsm O) : Fsm O :=
  let answer := checkExtcode pcb code id inp f
  let f := { f with options := answer.1 }
  if answer.2 then f else fsmSdata around .codeRej (f.id + 1) packet { f with id := f.id + 1 }

/-- The action depends on the code. -/
def fsmDispatch (pcb : Protocol O) (around : FsmAround) (code id : UInt8)
    (inp packet : List UInt8) (f : Fsm O) : Fsm O :=
  match CpCode.ofByte code with
  | some .confReq => fsmRconfreq pcb around id inp f
  | some .confAck => fsmRconfack pcb around id inp f
  | some .confNak => fsmRconfnakrej pcb around true id inp f
  | some .confRej => fsmRconfnakrej pcb around false id inp f
  | some .termReq => fsmRtermreq pcb around id f
  | some .termAck => fsmRtermack pcb around f
  | some .codeRej => fsmRcoderej inp f
  | none => fsmExtcode pcb around code id inp packet f

/-- The header of a packet, and its data without what follows them. -/
def cpPacket : List UInt8 → Option (UInt8 × UInt8 × List UInt8)
  | code :: id :: high :: low :: inp =>
    let len := high.toNat * 256 + low.toNat
    if len < headerlen then none
    else if len > inp.length + headerlen then none
    else some (code, id, inp.take (len - headerlen))
  | _ => none

/-- `fsm_input`. -/
def fsmInput (pcb : Protocol O) (around : FsmAround) (inpacket : List UInt8) (f : Fsm O) : Fsm O :=
  match cpPacket inpacket with
  | none => f
  | some (code, id, inp) =>
    if f.state = .initial || f.state = .starting then f
    else fsmDispatch pcb around code id inp (inpacket.take (inp.length + headerlen)) f

/-- `fsm_protreject`. -/
def fsmProtreject (pcb : Protocol O) (around : FsmAround) (f : Fsm O) : Fsm O :=
  match f.state with
  | .closing =>
    Fsm.call .finished pcb.callbacks.finished { f with timer := false, state := .closed }
  | .closed => f.call .finished pcb.callbacks.finished
  | .stopping | .reqSent | .ackRcvd | .ackSent =>
    Fsm.call .finished pcb.callbacks.finished { f with timer := false, state := .stopped }
  | .stopped => f.call .finished pcb.callbacks.finished
  | .opened => terminateLayer pcb around false f
  | .initial | .starting => f

/-! ### Events -/

/-- What happens to the automaton. -/
inductive FsmEvent
  | lowerup
  | lowerdown
  | «open»
  | close (reason : Option (List UInt8))
  | timeout
  | input (inpacket : List UInt8)
  | protreject
  /-- The protocol sets the option bits, as `lcp_open` does. -/
  | setFlags (passive restart silent : Bool)

/-- One event. The timer goes off only when it is set. -/
def fsmStep (pcb : Protocol O) (f : Fsm O) : FsmEvent × FsmAround → Fsm O
  | (.lowerup, around) => fsmLowerup pcb around f
  | (.lowerdown, _) => fsmLowerdown pcb f
  | (.open, around) => fsmOpen pcb around f
  | (.close reason, around) => fsmClose pcb around reason f
  | (.timeout, around) => if f.timer then fsmTimeout pcb around f else f
  | (.input inpacket, around) => fsmInput pcb around inpacket f
  | (.protreject, around) => fsmProtreject pcb around f
  | (.setFlags passive restart silent, _) =>
    { f with passive := passive, restart := restart, silent := silent }

/-- A run from `fsm_init`. -/
def fsmRun (pcb : Protocol O) (options : O) (events : List (FsmEvent × FsmAround)) : Fsm O :=
  events.foldl (fsmStep pcb) (fsmInit pcb.settings options)

end Functions

end Components.Ppp
