import Components.Ppp.Basic
import Components.Semantics.Machine
import Components.Semantics.While

/-!
# Receiving frames: `pppos_input`

One character of `pppos_input` is one step. The characters come from the serial line in any
number of calls. What else goes on is given with each character: how many buffers of the pool
are held elsewhere, and what the PPP core does to the control block when a packet is passed
to it.

The fall-throughs of the switch are a chain of functions, one for each label.

## Main definitions

* `ppposInputChar` — one round of the loop of `pppos_input`
* `ppposInput` — the loop
* `Event`, `receiver` — the control block as a machine
-/

namespace Components.Ppp

/-- What else goes on when a character is processed. -/
structure Around where
  /-- How many buffers of the pool are held elsewhere. -/
  others : ℕ
  /-- What `ppp_input` does to the control block, if the character completes a packet. -/
  calls : List LinkCall

/-- `pppos_input_drop`. -/
def ppposInputDrop (p : Pppos) : Pppos := ppposInputFreeCurrentPacket p

/-! ### A character of a packet -/

/-- `case PDPROTOCOL1`. -/
def pdProtocol1 (c : UInt8) (p : Pppos) : Pppos :=
  if c &&& 1 ≠ 0 then { p with inProtocol := c.toUInt16, inState := .data }
  else { p with inProtocol := c.toUInt16 <<< 8, inState := .protocol2 }

/-- `case PDCONTROL`. -/
def pdControl (c : UInt8) (p : Pppos) : Pppos :=
  if c = pppUi then { p with inState := .protocol1 } else pdProtocol1 c p

/-- `case PDADDRESS`. -/
def pdAddress (c : UInt8) (p : Pppos) : Pppos :=
  if c = pppAllstations then { p with inState := .control } else pdControl c p

/-- `case PDSTART`. -/
def pdStart (c : UInt8) (p : Pppos) : Pppos := pdAddress c { p with inFcs := pppInitFcs }

/-- `case PDIDLE`. -/
def pdIdle (c : UInt8) (p : Pppos) : Pppos := if c ≠ pppAllstations then p else pdStart c p

/-- Is there no room for a character at `in_tail`? -/
def tailFull (p : Pppos) : Bool :=
  match p.inTail with
  | .null => true
  | .head => (p.inHead.head?.map fun q => q.payload.length) == some pbufPoolBufsize
  | .next t => t.payload.length == pbufPoolBufsize

/-- `in_tail` is full: it joins the chain of `in_head`. -/
def closeTail (p : Pppos) : Except Fault Pppos :=
  match p.inTail, p.inHead with
  | .null, _ => .ok p
  | .head, [] => .error .nullDereference
  | .head, q :: qs => .ok { p with inHead := { q with totLen := q.payload.length } :: qs }
  | .next t, h => do
    let chain ← pbufCat h { t with totLen := t.payload.length }
    return { p with inHead := chain, inTail := .null }

/-- `pbuf_alloc(PBUF_RAW, 0, PBUF_POOL)` has a buffer left. -/
def poolHasRoom (others : ℕ) (p : Pppos) : Bool := p.inHead.length + others < pbufPoolSize

/-- The new buffer becomes `in_tail`. The first one of a packet starts with the protocol. -/
def openTail (p : Pppos) : Pppos :=
  if p.inHead = [] then
    { p with
      inHead := [⟨[(p.inProtocol >>> 8).toUInt8, p.inProtocol.toUInt8], 0⟩]
      inTail := .head }
  else { p with inTail := .next ⟨[], 0⟩ }

/-- `((u8_t*)in_tail->payload)[in_tail->len++] = cur_char`. -/
def loadChar (c : UInt8) (p : Pppos) : Except Fault Pppos :=
  match p.inTail, p.inHead with
  | .null, _ => .error .nullDereference
  | .head, [] => .error .nullDereference
  | .head, q :: qs =>
    if q.payload.length < pbufPoolBufsize then
      .ok { p with inHead := { q with payload := q.payload ++ [c] } :: qs }
    else .error .overrun
  | .next t, _ =>
    if t.payload.length < pbufPoolBufsize then
      .ok { p with inTail := .next { t with payload := t.payload ++ [c] } }
    else .error .overrun

/-- `case PDDATA`. -/
def pdData (c : UInt8) (others : ℕ) (p : Pppos) : Except Fault Pppos :=
  if tailFull p then do
    let p ← closeTail p
    if poolHasRoom others p then loadChar c (openTail p)
    else return { ppposInputDrop p with inState := .start }
  else loadChar c p

/-- The switch over `in_state`. -/
def processChar (c : UInt8) (others : ℕ) (p : Pppos) : Except Fault Pppos :=
  match p.inState with
  | .idle => .ok (pdIdle c p)
  | .start => .ok (pdStart c p)
  | .address => .ok (pdAddress c p)
  | .control => .ok (pdControl c p)
  | .protocol1 => .ok (pdProtocol1 c p)
  | .protocol2 => .ok { p with inProtocol := p.inProtocol ||| c.toUInt16, inState := .data }
  | .data => pdData c others p

/-! ### The flag character -/

/-- Trim off the checksum. -/
def trimChecksum (p : Pppos) : Except Fault (List Pbuf) :=
  match p.inTail, p.inHead with
  | .null, _ => .error .nullDereference
  | .head, [] => .error .nullDereference
  | .head, q :: qs =>
    let len := q.payload.length
    if len > 2 then .ok (⟨q.payload.take (len - 2), len - 2⟩ :: qs)
    else
      pbufRealloc ({ q with totLen := len } :: qs) ((len + 2 ^ 16 - 2) % 2 ^ 16)
  | .next t, h =>
    let len := t.payload.length
    if len > 2 then pbufCat h ⟨t.payload.take (len - 2), len - 2⟩
    else do
      let chain ← pbufCat h { t with totLen := len }
      pbufRealloc chain (((chain.head?.map Pbuf.totLen).getD 0 + 2 ^ 16 - 2) % 2 ^ 16)

/-- `Prepare for a new packet`. -/
def newPacket (p : Pppos) : Pppos :=
  { p with inFcs := pppInitFcs, inState := .address, inEscaped := false }

/-- The flag character ends a packet, which is passed on when it is good. -/
def flagChar (calls : List LinkCall) (p : Pppos) : Except Fault (Pppos × Option (List Pbuf)) :=
  match p.inState with
  | .idle | .start | .address => .ok (newPacket p, none)
  | .control | .protocol1 | .protocol2 => .ok (newPacket (ppposInputDrop p), none)
  | .data =>
    if p.inFcs ≠ pppGoodFcs then .ok (newPacket (ppposInputDrop p), none)
    else do
      let inp ← trimChecksum p
      let p := { p with inHead := [], inTail := .null }
      return (newPacket (calls.foldl (fun p call => call.apply p) p), some inp)

/-! ### The loop -/

/-- One character, with the packet passed to `ppp_input`, if any. -/
def ppposInputChar (c : UInt8) (around : Around) (p : Pppos) :
    Except Fault (Pppos × Option (List Pbuf)) :=
  if !p.opened then .ok (p, none)
  else if escapeP p.inAccm c then
    if c = pppEscape then .ok ({ p with inEscaped := true }, none)
    else if c = pppFlag then flagChar around.calls p
    else .ok (p, none)
  else do
    let curChar := if p.inEscaped then c ^^^ pppTrans else c
    let p ← processChar curChar around.others { p with inEscaped := false }
    return ({ p with inFcs := pppFcs p.inFcs curChar }, none)

/-- `pppos_input`: the loop is left when the interface has been closed. -/
def ppposInput : List (UInt8 × Around) → Pppos → Except Fault (Pppos × List (List Pbuf))
  | [], p => .ok (p, [])
  | (c, around) :: s, p =>
    if !p.opened then .ok (p, [])
    else do
      let (p, inp) ← ppposInputChar c around p
      let (p, inps) ← ppposInput s p
      return (p, inp.toList ++ inps)

/-- What happens to the control block. -/
inductive Event
  /-- A character arrives. -/
  | receive (c : UInt8) (around : Around)
  /-- The PPP core calls. -/
  | link (call : LinkCall)

/-- The control block as a machine; the results are the packets passed to `ppp_input`. -/
def receiver : Machine Pppos Event (Option (List UInt8)) Fault where
  step p
    | .receive c around => (ppposInputChar c around p).map fun r => (r.1, r.2.map chainBytes)
    | .link call => .ok (call.apply p, none)
  Allowed _ _ := True

end Components.Ppp
