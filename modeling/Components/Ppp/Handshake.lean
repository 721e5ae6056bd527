import Components.Ppp.Negotiation
import Mathlib.Data.Bool.Basic

/-!
# Two ends negotiate

Two automata are joined by a line that loses nothing. Each sends a request when the link comes up,
and each finds the request of the other acceptable. The packets of the two directions arrive in
any order relative to each other.

## Main definitions

* `Ends`, `Ends.deliver` — the two automata, the packets on their way, and the arrival of one
* `Suited` — each end accepts the request of the other and recognises its own

## Main results

* `both_open_iff_line_empty` — as long as not both ends are open, some packet is on its way
* `both_ends_open` — two rounds of arrivals open both ends
-/

namespace Components.Ppp

variable {O : Type} {pcb : Protocol O} {around : FsmAround} {f : Fsm O}

/-! ### Packets -/

/-- The code as a byte. -/
def CpCode.byte : CpCode → UInt8
  | .confReq => 1
  | .confAck => 2
  | .confNak => 3
  | .confRej => 4
  | .termReq => 5
  | .termAck => 6
  | .codeRej => 7

theorem CpCode.ofByte_byte (code : CpCode) : CpCode.ofByte code.byte = some code := by
  cases code <;> rfl

/-- The bytes of a packet after the PPP header. -/
def cpBytes (code : CpCode) (id : UInt8) (data : List UInt8) : List UInt8 :=
  code.byte :: id :: UInt8.ofNat ((data.length + headerlen) / 256) ::
    UInt8.ofNat (data.length + headerlen) :: data

theorem cpPacket_cpBytes (code : CpCode) (id : UInt8) {data : List UInt8}
    (short : data.length + headerlen < 65536) :
    cpPacket (cpBytes code id data) = some (code.byte, id, data) := by
  have length : (UInt8.ofNat ((data.length + headerlen) / 256)).toNat * 256 +
      (UInt8.ofNat (data.length + headerlen)).toNat = data.length + headerlen := by
    rw [UInt8.toNat_ofNat', UInt8.toNat_ofNat']
    omega
  simp only [cpBytes, cpPacket, length]
  rw [if_neg (by omega), if_neg (by omega), Nat.add_sub_cancel, List.take_length]

/-- The packets that an automaton has sent since it was in another state. -/
def newPackets (f f' : Fsm O) : List (List UInt8) :=
  (f'.log.drop f.log.length).flatMap fun note =>
    match note with
    | .output code id data true => [cpBytes code id data]
    | _ => []

theorem newPackets_of_log {f' : Fsm O} {notes : List FsmNote} (log : f'.log = f.log ++ notes) :
    newPackets f f' = notes.flatMap fun note =>
      match note with
      | .output code id data true => [cpBytes code id data]
      | _ => [] := by
  rw [newPackets, log, List.drop_left]

/-! ### The first request -/

/-- The data of the request that starts a negotiation. -/
def firstRequest (pcb : Protocol O) (around : FsmAround) (f : Fsm O) : List UInt8 :=
  let options := pcb.callbacks.resetci f.options
  let cilen := min (pcb.callbacks.cilen options) (around.peerMru - headerlen)
  if cilen ≠ 0 then pcb.callbacks.addci options cilen else []

theorem startRequest_spec (rests : f.state.negotiates = false)
    (has : around.hasPbuf .confReq = true) :
    (startRequest pcb around f).state = .reqSent ∧
      (startRequest pcb around f).seenAck = false ∧
      newPackets f (startRequest pcb around f) =
        [cpBytes .confReq (startRequest pcb around f).reqid (firstRequest pcb around f)] := by
  refine ⟨rfl, ?_, ?_⟩
  · simp [startRequest, fsmSconfreq, sendRequest, has]
  · have log : (startRequest pcb around f).log = f.log ++ [.resetci, .output .confReq
        (startRequest pcb around f).reqid (firstRequest pcb around f) true] := by
      simp [startRequest, fsmSconfreq, sendRequest, has, resetOptions, rests, newRequest, Fsm.call,
        firstRequest]
    rw [newPackets_of_log log]
    simp

/-! ### Arrivals -/

/-- A packet arrives at an automaton that negotiates. -/
theorem fsmInput_cpBytes (up : f.state.negotiates = true) (code : CpCode) (id : UInt8)
    {data : List UInt8} (short : data.length + headerlen < 65536) :
    ∃ packet, fsmInput pcb around (cpBytes code id data) f =
      fsmDispatch pcb around code.byte id data packet f := by
  have notDown : ¬ (f.state = .initial || f.state = .starting) = true := by
    cases state : f.state <;> simp [state, FsmState.negotiates] at up ⊢
  rw [fsmInput, cpPacket_cpBytes code id short]
  simp only [if_neg notDown]
  exact ⟨_, rfl⟩

/-- An acceptable request is acknowledged. -/
theorem request_arrives (state : f.state = .reqSent) (first : f.seenAck = false)
    {id : UInt8} {data : List UInt8} (short : data.length + headerlen < 65536)
    (accepts : (checkRequest pcb data f).2 = (.ack, data))
    (has : around.hasPbuf .confAck = true) (room : data.length ≤ around.peerMru - headerlen)
    {f' : Fsm O} (taken : fsmInput pcb around (cpBytes .confReq id data) f = f') :
    f'.state = .ackSent ∧ f'.seenAck = false ∧ f'.reqid = f.reqid ∧
      newPackets f f' = [cpBytes .confAck id data] := by
  have up : f.state.negotiates = true := by rw [state]; rfl
  obtain ⟨packet, input⟩ := @fsmInput_cpBytes O pcb around f up .confReq id data short
  have result : f' =
      { fsmSdata around .confAck id data { f with options := (checkRequest pcb data f).1 } with
        state := .ackSent
        nakloops := 0 } := by
    rw [← taken, input]
    simp only [fsmDispatch, CpCode.ofByte_byte, fsmRconfreq, state, answerRequest, accepts,
      ReqReply.code, afterReply, fsmSdata_state, reduceCtorEq, if_false]
  have log : f'.log = f.log ++ [.output .confAck id data true] := by
    simp [result, fsmSdata, has, List.take_of_length_le room]
  refine ⟨by rw [result], by rw [result]; exact first, by rw [result]; rfl, ?_⟩
  rw [newPackets_of_log log]
  simp

/-- The acknowledgement opens the link. -/
theorem ack_arrives (state : f.state = .ackSent) (first : f.seenAck = false)
    {data : List UInt8} (short : data.length + headerlen < 65536)
    (recognises : (checkAck pcb data f).2 = true) {f' : Fsm O}
    (taken : fsmInput pcb around (cpBytes .confAck f.reqid data) f = f') :
    f'.state = .opened ∧ f'.reqid = f.reqid ∧ newPackets f f' = [] := by
  have up : f.state.negotiates = true := by rw [state]; rfl
  obtain ⟨packet, input⟩ := @fsmInput_cpBytes O pcb around f up .confAck f.reqid data short
  have result : f' = fsmRconfack pcb around f.reqid data f := by
    rw [← taken, input]
    simp only [fsmDispatch, CpCode.ofByte_byte]
  have opened : f'.state = .opened ∧ f'.reqid = f.reqid ∧
      f'.log = f.log ++ [.acked f.reqid, .up] := by
    rw [result]
    simp [fsmRconfack, first, recognises, acceptAck, state, Fsm.call]
  refine ⟨opened.1, opened.2.1, ?_⟩
  rw [newPackets_of_log opened.2.2]
  simp

/-! ### Two ends -/

/-- Two automata, and the packets on their way to each of them. -/
structure Ends (O : Type) where
  fsm : Bool → Fsm O
  queue : Bool → List (List UInt8)

/-- The next packet arrives at one of the ends. -/
def Ends.deliver (pcb : Bool → Protocol O) (e : Ends O) (arrival : Bool × FsmAround) : Ends O :=
  match e.queue arrival.1 with
  | [] => e
  | packet :: rest =>
    let f := fsmInput (pcb arrival.1) arrival.2 packet (e.fsm arrival.1)
    { fsm := Function.update e.fsm arrival.1 f
      queue := fun b =>
        if b = arrival.1 then rest else e.queue b ++ newPackets (e.fsm arrival.1) f }

/-- The link comes up at both ends, and nothing has arrived yet. -/
def Ends.start (pcb : Bool → Protocol O) (around : Bool → FsmAround) (f : Bool → Fsm O) :
    Ends O where
  fsm b := fsmLowerup (pcb b) (around b) (f b)
  queue b := newPackets (f !b) (fsmLowerup (pcb !b) (around !b) (f !b))

/-- Each end acknowledges the request of the other and recognises an acknowledgement of its own. -/
structure Suited (pcb : Bool → Protocol O) (request : Bool → List UInt8) : Prop where
  accepts : ∀ b f, (checkRequest (pcb b) (request !b) f).2 = (.ack, request !b)
  recognises : ∀ b f, (checkAck (pcb b) (request b) f).2 = true
  short : ∀ b, (request b).length + headerlen < 65536

/-- What an end has done after it has taken in so many packets. -/
structure Stage (reqid : UInt8) (taken : ℕ) (f : Fsm O) : Prop where
  reqid : f.reqid = reqid
  state : f.state = if taken = 0 then .reqSent else if taken = 1 then .ackSent else .opened
  first : taken < 2 → f.seenAck = false

/-- The packets for an end: the request of the other, and the acknowledgement, once the other has
taken in the request. -/
def incoming (request : Bool → List UInt8) (reqid : Bool → UInt8) (taken : Bool → ℕ) (b : Bool) :
    List (List UInt8) :=
  (cpBytes .confReq (reqid !b) (request !b) ::
    if 1 ≤ taken !b then [cpBytes .confAck (reqid b) (request b)] else []).drop (taken b)

/-- How far the two ends have come. -/
structure Progress (request : Bool → List UInt8) (reqid : Bool → UInt8) (taken : Bool → ℕ)
    (e : Ends O) : Prop where
  stage : ∀ b, Stage (reqid b) (taken b) (e.fsm b)
  queue : ∀ b, e.queue b = incoming request reqid taken b
  bound : ∀ b, taken b ≤ if 1 ≤ taken !b then 2 else 1

variable {pcbs : Bool → Protocol O} {request : Bool → List UInt8} {reqid : Bool → UInt8}
  {taken : Bool → ℕ} {e : Ends O}

theorem fsmLowerup_starting (state : f.state = .starting) (loud : f.silent = false) :
    fsmLowerup pcb around f = startRequest pcb around f := by
  simp [fsmLowerup, state, loud]

/-- Both requests are on their way. -/
theorem progress_start {arounds : Bool → FsmAround} {fs : Bool → Fsm O}
    (state : ∀ b, (fs b).state = .starting) (loud : ∀ b, (fs b).silent = false)
    (has : ∀ b, (arounds b).hasPbuf .confReq = true) :
    Progress (fun b => firstRequest (pcbs b) (arounds b) (fs b))
      (fun b => (startRequest (pcbs b) (arounds b) (fs b)).reqid) (fun _ => 0)
      (Ends.start pcbs arounds fs) := by
  have spec (b : Bool) := @startRequest_spec O (pcbs b) (arounds b) (fs b) (by rw [state]; rfl)
    (has b)
  refine ⟨fun b => ?_, fun b => ?_, fun b => Nat.zero_le _⟩
  · have up : (Ends.start pcbs arounds fs).fsm b = startRequest (pcbs b) (arounds b) (fs b) :=
      fsmLowerup_starting (state b) (loud b)
    rw [up]
    exact ⟨rfl, rfl, fun _ => (spec b).2.1⟩
  · show newPackets (fs !b) (fsmLowerup (pcbs !b) (arounds !b) (fs !b)) = _
    rw [fsmLowerup_starting (state !b) (loud !b), (spec !b).2.2]
    rfl

/-- An end has something to take in until it has taken in all there will be so far. -/
theorem incoming_eq_nil_iff (b : Bool) : incoming request reqid taken b = [] ↔
    (if 1 ≤ taken !b then 2 else 1) ≤ taken b := by
  rw [incoming, List.drop_eq_nil_iff]
  split_ifs <;> rfl

/-- One end goes on by one packet. -/
theorem Progress.advance (progress : Progress request reqid taken e) (b : Bool) {f' : Fsm O}
    {rest new : List (List UInt8)} (stage' : Stage (reqid b) (taken b + 1) f')
    (here : rest = incoming request reqid (Function.update taken b (taken b + 1)) b)
    (there : e.queue (!b) ++ new =
      incoming request reqid (Function.update taken b (taken b + 1)) !b)
    (bound' : taken b + 1 ≤ if 1 ≤ taken !b then 2 else 1) :
    Progress request reqid (Function.update taken b (taken b + 1))
      ⟨Function.update e.fsm b f', fun c => if c = b then rest else e.queue c ++ new⟩ := by
  have ne : (!b) ≠ b := Bool.not_ne_self b
  refine ⟨fun c => ?_, fun c => ?_, fun c => ?_⟩
  · rcases Bool.eq_or_eq_not c b with rfl | rfl
    · simpa using stage'
    · simpa [Function.update_of_ne ne] using progress.stage !b
  · rcases Bool.eq_or_eq_not c b with rfl | rfl
    · simpa using here
    · simpa using there
  · rcases Bool.eq_or_eq_not c b with rfl | rfl
    · simpa [Function.update_of_ne ne] using bound'
    · have old := progress.bound !b
      rw [Bool.not_not] at old
      rw [Function.update_of_ne ne, Bool.not_not, Function.update_self, if_pos (by omega)]
      split_ifs at old <;> omega

/-- The request of the other end arrives. -/
theorem Progress.deliver_request (progress : Progress request reqid taken e)
    (suited : Suited pcbs request) (b : Bool) (zero : taken b = 0) {around : FsmAround}
    (has : around.hasPbuf .confAck = true)
    (room : (request !b).length ≤ around.peerMru - headerlen) :
    Progress request reqid (Function.update taken b (taken b + 1))
      (e.deliver pcbs (b, around)) := by
  have stage := progress.stage b
  have queue := progress.queue b
  have there := progress.queue !b
  have bound := progress.bound !b
  have ne : (!b) ≠ b := Bool.not_ne_self b
  have state : (e.fsm b).state = .reqSent := by rw [stage.state, if_pos zero]
  have first : (e.fsm b).seenAck = false := stage.first (by omega)
  obtain ⟨state', first', reqid', sent⟩ := @request_arrives O (pcbs b) around (e.fsm b) state first
    (reqid !b) (request !b) (suited.short !b) (suited.accepts b _) has room _ rfl
  rw [incoming, zero, List.drop_zero] at queue
  rw [Bool.not_not] at bound
  unfold Ends.deliver
  rw [queue]
  refine progress.advance b ⟨reqid'.trans stage.reqid, ?_, fun _ => first'⟩ ?_ ?_ ?_
  · rw [state', if_neg (by omega), if_pos (by omega)]
  · rw [incoming, Function.update_self, Function.update_of_ne ne, zero]
    rfl
  · have atMostOne : taken (!b) ≤ 1 := by simpa [zero] using bound
    rw [there, sent, incoming, incoming, Bool.not_not, Function.update_self,
      Function.update_of_ne ne, zero, if_neg (by omega), if_pos (by omega)]
    exact (List.drop_append_of_le_length atMostOne).symm
  · rw [zero]
    split_ifs <;> omega

/-- The acknowledgement of the other end arrives. -/
theorem Progress.deliver_ack (progress : Progress request reqid taken e)
    (suited : Suited pcbs request) (b : Bool) (one : taken b = 1) (other : 1 ≤ taken !b)
    (around : FsmAround) :
    Progress request reqid (Function.update taken b (taken b + 1))
      (e.deliver pcbs (b, around)) := by
  have stage := progress.stage b
  have queue := progress.queue b
  have there := progress.queue !b
  have ne : (!b) ≠ b := Bool.not_ne_self b
  have state : (e.fsm b).state = .ackSent := by
    rw [stage.state, if_neg (by omega), if_pos one]
  have first : (e.fsm b).seenAck = false := stage.first (by omega)
  obtain ⟨state', reqid', sent⟩ := @ack_arrives O (pcbs b) around (e.fsm b) state first (request b)
    (suited.short b) (suited.recognises b _) _ rfl
  rw [incoming, one, if_pos other] at queue
  rw [stage.reqid] at state' reqid' sent
  unfold Ends.deliver
  rw [queue]
  refine progress.advance b ⟨reqid', ?_, fun lt => absurd lt (by omega)⟩ ?_ ?_ ?_
  · rw [if_neg (by omega), if_neg (by omega)]
    exact state'
  · rw [incoming, Function.update_self, Function.update_of_ne ne, one, if_pos other]
    rfl
  · rw [there, incoming, incoming, Bool.not_not, Function.update_self, Function.update_of_ne ne,
      if_pos (by omega : 1 ≤ taken b), if_pos (by omega)]
    exact (congrArg _ sent).trans (List.append_nil _)
  · rw [one]
    split_ifs
    omega

/-- The packets taken in, once something has arrived at an end. -/
def takenAfter (request : Bool → List UInt8) (reqid : Bool → UInt8) (taken : Bool → ℕ) (b : Bool) :
    Bool → ℕ :=
  if incoming request reqid taken b = [] then taken else Function.update taken b (taken b + 1)

theorem le_takenAfter (b c : Bool) : taken c ≤ takenAfter request reqid taken b c := by
  unfold takenAfter
  split_ifs
  · exact Nat.le_refl _
  · rw [Function.update_apply]
    split_ifs with here
    · rw [here]
      exact Nat.le_succ _
    · exact Nat.le_refl _

theorem takenAfter_of_ne {b c : Bool} (ne : c ≠ b) :
    takenAfter request reqid taken b c = taken c := by
  unfold takenAfter
  split_ifs
  · rfl
  · exact Function.update_of_ne ne _ _

/-- Another packet arrives. -/
theorem Progress.deliver (progress : Progress request reqid taken e) (suited : Suited pcbs request)
    {arrival : Bool × FsmAround} (has : arrival.2.hasPbuf .confAck = true)
    (room : (request !arrival.1).length ≤ arrival.2.peerMru - headerlen) :
    Progress request reqid (takenAfter request reqid taken arrival.1) (e.deliver pcbs arrival) := by
  obtain ⟨b, around⟩ := arrival
  have bound := progress.bound b
  dsimp only at has room ⊢
  unfold takenAfter
  split_ifs with empty
  · unfold Ends.deliver
    rw [progress.queue b, empty]
    exact progress
  · rw [incoming_eq_nil_iff, Nat.not_le] at empty
    by_cases zero : taken b = 0
    · exact progress.deliver_request suited b zero has room
    · have other : 1 ≤ taken !b := by
        by_contra not
        rw [if_neg not] at empty
        omega
      rw [if_pos other] at empty
      exact progress.deliver_ack suited b (by omega) other around

/-! ### Every order of arrival -/

/-- Every arrival finds the buffers for an acknowledgement. -/
def Served (request : Bool → List UInt8) (arrivals : List (Bool × FsmAround)) : Prop :=
  ∀ arrival ∈ arrivals, arrival.2.hasPbuf .confAck = true ∧
    ∀ b, (request b).length ≤ arrival.2.peerMru - headerlen

/-- What was on its way to an end at which something arrives has been taken in. -/
theorem Progress.run (suited : Suited pcbs request) (arrivals : List (Bool × FsmAround)) :
    ∀ {taken e}, Served request arrivals → Progress request reqid taken e →
      ∃ taken', Progress request reqid taken' (arrivals.foldl (Ends.deliver pcbs) e) ∧
        (∀ b, taken b ≤ taken' b) ∧
        ∀ b ∈ arrivals.map Prod.fst, incoming request reqid taken b ≠ [] → taken b < taken' b := by
  induction arrivals with
  | nil =>
    intro taken e _ progress
    exact ⟨taken, progress, fun _ => Nat.le_refl _, by simp⟩
  | cons arrival arrivals ih =>
    intro taken e served progress
    obtain ⟨has, room⟩ := served arrival List.mem_cons_self
    have next := progress.deliver suited has (room _)
    obtain ⟨taken', progress', ge, more⟩ :=
      ih (fun other mem => served other (List.mem_cons_of_mem _ mem)) next
    refine ⟨taken', progress', fun b => Nat.le_trans (le_takenAfter _ b) (ge b), ?_⟩
    intro b mem some
    by_cases here : arrival.1 = b
    · -- The packet arrives now.
      subst here
      have reached := ge arrival.1
      rw [takenAfter, if_neg some, Function.update_self] at reached
      exact reached
    · -- Something arrives at the other end, and no packet for this one goes away.
      have later : b ∈ arrivals.map Prod.fst := by
        rcases List.mem_cons.1 mem with eq | later
        · exact absurd eq.symm here
        · exact later
      have same : takenAfter request reqid taken arrival.1 b = taken b :=
        takenAfter_of_ne (Ne.symm here)
      have other : taken (!b) ≤ takenAfter request reqid taken arrival.1 !b := le_takenAfter _ _
      rw [← same]
      apply more b later
      rw [Ne, incoming_eq_nil_iff, Nat.not_le] at some ⊢
      rw [same]
      split_ifs at some ⊢ <;> omega

theorem Progress.opened_iff (progress : Progress request reqid taken e) (b : Bool) :
    (e.fsm b).state = .opened ↔ 2 ≤ taken b := by
  rw [(progress.stage b).state]
  split_ifs with zero one
  · simp [zero]
  · simp [one]
  · simp
    omega

/-- As long as not both ends are open, some packet is on its way. -/
theorem Progress.both_opened_iff (progress : Progress request reqid taken e) :
    (∀ b, (e.fsm b).state = .opened) ↔ ∀ b, e.queue b = [] := by
  simp only [progress.opened_iff, progress.queue, incoming_eq_nil_iff]
  constructor
  · intro both b
    have := both b
    split_ifs <;> omega
  · intro empty b
    have this := empty b
    have other := empty !b
    rw [Bool.not_not] at other
    split_ifs at this other <;> omega

/-- Two rounds, in each of which something arrives at each end, open both ends. -/
theorem Progress.two_rounds (suited : Suited pcbs request)
    (progress : Progress request reqid (fun _ => 0) e) {first second : List (Bool × FsmAround)}
    (served : Served request (first ++ second)) (everyFirst : ∀ b, b ∈ first.map Prod.fst)
    (everySecond : ∀ b, b ∈ second.map Prod.fst) (b : Bool) :
    (((first ++ second).foldl (Ends.deliver pcbs) e).fsm b).state = .opened := by
  obtain ⟨taken₁, progress₁, -, more₁⟩ := Progress.run suited first
    (fun arrival mem => served arrival (List.mem_append_left _ mem)) progress
  obtain ⟨taken₂, progress₂, ge, more₂⟩ := Progress.run suited second
    (fun arrival mem => served arrival (List.mem_append_right _ mem)) progress₁
  have requested (c : Bool) : 1 ≤ taken₁ c := by
    apply more₁ c (everyFirst c)
    rw [Ne, incoming_eq_nil_iff]
    simp
  rw [List.foldl_append, progress₂.opened_iff]
  by_cases empty : incoming request reqid taken₁ b = []
  · rw [incoming_eq_nil_iff, if_pos (requested _)] at empty
    exact Nat.le_trans empty (ge b)
  · exact Nat.lt_of_le_of_lt (requested b) (more₂ b (everySecond b) empty)

variable {arounds : Bool → FsmAround} {fs : Bool → Fsm O}

/-- A protocol whose requests ask for a size of packets and which takes every size. -/
def sizeProtocol : Protocol Unit where
  callbacks :=
    { plainProtocol.callbacks with
      cilen := fun _ => 4
      addci := fun _ n => List.take n ([1, 4, 5, 220] ++ List.replicate n 0)
      length_addci := fun _ n => by
        rw [List.length_take, List.length_append, List.length_replicate]
        omega
      ackci := some fun options inp => (options, inp == [1, 4, 5, 220])
      reqci := some fun options inp _ => (options, .ack, inp) }
  settings := plainProtocol.settings

/-- There are buffers, for packets of the usual size. -/
def roomy : FsmAround := ⟨fun _ => true, 1500⟩

/-- Each end has been opened and waits for the layer below. -/
def waitingEnd : Fsm Unit := fsmRun sizeProtocol () [(.open, roomy)]

theorem firstRequest_sizeProtocol :
    firstRequest sizeProtocol roomy waitingEnd = [1, 4, 5, 220] := by
  decide

theorem suited_sizeProtocol :
    Suited (fun _ => sizeProtocol) fun _ => firstRequest sizeProtocol roomy waitingEnd := by
  rw [firstRequest_sizeProtocol]
  exact ⟨fun _ _ => rfl, fun _ _ => rfl, fun _ => by decide⟩

theorem served_sizeProtocol (ends : List Bool) :
    Served (fun _ => firstRequest sizeProtocol roomy waitingEnd)
      (ends.map fun b => (b, roomy)) := by
  rw [firstRequest_sizeProtocol]
  intro arrival mem
  obtain ⟨b, -, rfl⟩ := List.mem_map.1 mem
  refine ⟨rfl, fun _ => ?_⟩
  show 4 ≤ 1500 - headerlen
  decide

/-- Both links of two ends that suit each other are open exactly when no packet is on its way, in
whatever order the packets of the two directions arrive. -/
theorem both_open_iff_line_empty (state : ∀ b, (fs b).state = .starting)
    (loud : ∀ b, (fs b).silent = false) (has : ∀ b, (arounds b).hasPbuf .confReq = true)
    (suited : Suited pcbs fun b => firstRequest (pcbs b) (arounds b) (fs b))
    (arrivals : List (Bool × FsmAround))
    (served : Served (fun b => firstRequest (pcbs b) (arounds b) (fs b)) arrivals) :
    (∀ b, ((arrivals.foldl (Ends.deliver pcbs) (Ends.start pcbs arounds fs)).fsm b).state =
        .opened) ↔
      ∀ b, (arrivals.foldl (Ends.deliver pcbs) (Ends.start pcbs arounds fs)).queue b = [] := by
  obtain ⟨taken, progress, -, -⟩ :=
    Progress.run suited arrivals served (progress_start state loud has)
  exact progress.both_opened_iff

theorem both_open_iff_line_empty_size :
    ¬ ∀ b, ((([false, true, false].map fun b => (b, roomy)).foldl
      (Ends.deliver fun _ => sizeProtocol)
      (Ends.start (fun _ => sizeProtocol) (fun _ => roomy) fun _ => waitingEnd)).queue b = []) := by
  have iff := @both_open_iff_line_empty Unit (fun _ => sizeProtocol) (fun _ => roomy)
    (fun _ => waitingEnd) (fun _ => rfl) (fun _ => rfl) (fun _ => rfl) suited_sizeProtocol
    ([false, true, false].map fun b => (b, roomy)) (served_sizeProtocol _)
  rw [← iff]
  intro opened
  exact absurd (opened true) (by decide)

/-- After two rounds of arrivals at each end, in whatever order, both ends that suit each other are
open. -/
theorem both_ends_open (state : ∀ b, (fs b).state = .starting)
    (loud : ∀ b, (fs b).silent = false) (has : ∀ b, (arounds b).hasPbuf .confReq = true)
    (suited : Suited pcbs fun b => firstRequest (pcbs b) (arounds b) (fs b))
    {first second : List (Bool × FsmAround)}
    (served : Served (fun b => firstRequest (pcbs b) (arounds b) (fs b)) (first ++ second))
    (everyFirst : ∀ b, b ∈ first.map Prod.fst) (everySecond : ∀ b, b ∈ second.map Prod.fst)
    (b : Bool) :
    (((first ++ second).foldl (Ends.deliver pcbs) (Ends.start pcbs arounds fs)).fsm b).state =
      .opened :=
  Progress.two_rounds suited (progress_start state loud has) served everyFirst everySecond b

theorem both_ends_open_size :
    ((([false, true, true, false].map fun b => (b, roomy)).foldl
      (Ends.deliver fun _ => sizeProtocol)
      (Ends.start (fun _ => sizeProtocol) (fun _ => roomy) fun _ => waitingEnd)).fsm true).state =
      .opened :=
  @both_ends_open Unit (fun _ => sizeProtocol) (fun _ => roomy) (fun _ => waitingEnd)
    (fun _ => rfl) (fun _ => rfl) (fun _ => rfl) suited_sizeProtocol
    [(false, roomy), (true, roomy)] [(true, roomy), (false, roomy)]
    (served_sizeProtocol [false, true, true, false]) (by decide) (by decide) true

end Components.Ppp
