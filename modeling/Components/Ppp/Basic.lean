import Components.Ppp.Fcs
import Mathlib.Algebra.Ring.Nat

/-!
# The PPPoS control block of `pppos.c`

The record `pppos_pcb`, the calls with which the PPP core sets it up, and the packet
buffers of `pbuf.c` that an incoming packet is collected in.

A chain of packet buffers is the list of its members, and `NULL` is the empty list. The
pointer `in_tail` is `NULL`, the same as `in_head`, or a buffer that does not belong to the
chain of `in_head` yet.

## Main definitions

* `ExtAccm`, `escapeP` — the map of the characters to escape
* `Pbuf`, `pbufCat`, `pbufRealloc` — packet buffers
* `Pppos` — the control block
* `LinkCall` — what the PPP core does to it

## Main results

* `escapeP_connectAccm`, `escapeP_loadAccm_of_lt`, `escapeP_loadAccm_of_le` — the characters
  that are escaped after a connect and after the map has been negotiated
* `Regular.trans` — what stands for an escaped character is not special
-/

namespace Components.Ppp

/-! ### Characters -/

/-- `PPP_ALLSTATIONS`. -/
def pppAllstations : UInt8 := 0xff

/-- `PPP_UI`. -/
def pppUi : UInt8 := 0x03

/-- `PPP_FLAG`. -/
def pppFlag : UInt8 := 0x7e

/-- `PPP_ESCAPE`. -/
def pppEscape : UInt8 := 0x7d

/-- `PPP_TRANS`. -/
def pppTrans : UInt8 := 0x20

/-- `ext_accm`: one bit for each character. -/
abbrev ExtAccm := Fin 32 → UInt8

/-- `ESCAPE_P(accm, c)`. -/
def escapeP (accm : ExtAccm) (c : UInt8) : Bool :=
  accm ⟨(c >>> 3).toNat, by
    have := c.toNat_lt
    simp [Nat.shiftRight_eq_div_pow]
    omega⟩ &&& ((1 : UInt8) <<< (c &&& 0x07)) ≠ 0

/-- The map after `pppos_connect`. -/
def connectAccm : ExtAccm := fun i => if i = 15 then 0x60 else 0

/-- The loop of `pppos_send_config` and `pppos_recv_config` that loads the bits for the 32
control codes. -/
def loadAccm (accm : UInt32) (map : ExtAccm) : ExtAccm :=
  fun i => if i.val < 4 then (accm >>> (8 * i.val).toUInt32).toUInt8 else map i

/-! ### Packet buffers -/

/-- What goes wrong inside `pppos_input`. -/
inductive Fault
  /-- A member of `*in_tail` is used while `in_tail` is `NULL`. -/
  | nullDereference
  /-- A character is stored behind the end of a packet buffer. -/
  | overrun
  /-- `LWIP_ASSERT` fails in `pbuf.c`. -/
  | assertion
  deriving DecidableEq, Repr

/-- `struct pbuf` from the pool. Its `len` is the length of the payload. -/
structure Pbuf where
  payload : List UInt8
  /-- `tot_len`. -/
  totLen : ℕ
  deriving DecidableEq, Repr

/-- `PBUF_POOL_BUFSIZE`, with `TCP_MSS` 536, `PBUF_LINK_HLEN` 14 and alignment to 4. -/
def pbufPoolBufsize : ℕ := (536 + 40 + 0 + 14 + 3) / 4 * 4

/-- `PBUF_POOL_SIZE`. -/
def pbufPoolSize : ℕ := 16

theorem pbufPoolBufsize_eq : pbufPoolBufsize = 592 := rfl

theorem pbufPoolSize_eq : pbufPoolSize = 16 := rfl

/-- The bytes of a chain. -/
def chainBytes (chain : List Pbuf) : List UInt8 := chain.flatMap Pbuf.payload

/-- `pbuf_cat` of a chain and a single buffer. -/
def pbufCat (h : List Pbuf) (t : Pbuf) : Except Fault (List Pbuf) :=
  match h.getLast? with
  | none => .ok h
  | some p =>
    if p.totLen = p.payload.length then
      .ok (h.map (fun p => { p with totLen := (p.totLen + t.totLen) % 2 ^ 16 }) ++ [t])
    else .error .assertion

/-- The loop of `pbuf_realloc` with the buffer that it ends at. -/
def pbufReallocLoop (shrink : ℕ) : ℕ → List Pbuf → Except Fault (List Pbuf)
  | _, [] => .error .assertion
  | remLen, q :: qs =>
    if remLen > q.payload.length then do
      let rest ← pbufReallocLoop shrink (remLen - q.payload.length) qs
      return { q with totLen := (q.totLen + 2 ^ 16 - shrink) % 2 ^ 16 } :: rest
    else .ok [⟨q.payload.take remLen, remLen⟩]

/-- `pbuf_realloc`. -/
def pbufRealloc (p : List Pbuf) (newLen : ℕ) : Except Fault (List Pbuf) :=
  match p with
  | [] => .error .assertion
  | q :: _ =>
    if newLen ≥ q.totLen then .ok p
    else pbufReallocLoop (q.totLen - newLen) newLen p

/-! ### The control block -/

/-- The states of the packet parser. -/
inductive InState
  | idle
  | start
  | address
  | control
  | protocol1
  | protocol2
  | data
  deriving DecidableEq, Repr

/-- The pointer `in_tail`. -/
inductive InTail
  | null
  /-- `in_tail == in_head`. -/
  | head
  | next (p : Pbuf)
  deriving DecidableEq, Repr

/-- `pppos_pcb`. -/
structure Pppos where
  lastXmit : UInt32
  outAccm : ExtAccm
  opened : Bool
  pcomp : Bool
  accomp : Bool
  inAccm : ExtAccm
  inHead : List Pbuf
  inTail : InTail
  inProtocol : UInt16
  inFcs : UInt16
  inState : InState
  inEscaped : Bool

/-- After `pppos_create`. -/
def ppposCreate : Pppos where
  lastXmit := 0
  outAccm := fun _ => 0
  opened := false
  pcomp := false
  accomp := false
  inAccm := fun _ => 0
  inHead := []
  inTail := .null
  inProtocol := 0
  inFcs := 0
  inState := .idle
  inEscaped := false

/-- `pppos_connect`. -/
def ppposConnect : Pppos :=
  { ppposCreate with
    inAccm := connectAccm
    outAccm := connectAccm
    opened := true }

/-- `pppos_input_free_current_packet`. -/
def ppposInputFreeCurrentPacket (p : Pppos) : Pppos := { p with inHead := [], inTail := .null }

/-- `pppos_disconnect`. -/
def ppposDisconnect (p : Pppos) : Pppos := ppposInputFreeCurrentPacket { p with opened := false }

/-- `pppos_send_config`. -/
def ppposSendConfig (accm : UInt32) (pcomp accomp : Bool) (p : Pppos) : Pppos :=
  { p with pcomp := pcomp, accomp := accomp, outAccm := loadAccm accm p.outAccm }

/-- `pppos_recv_config`. -/
def ppposRecvConfig (accm : UInt32) (p : Pppos) : Pppos :=
  { p with inAccm := loadAccm accm p.inAccm }

/-- What the PPP core does to the control block. -/
inductive LinkCall
  | connect
  | disconnect
  | sendConfig (accm : UInt32) (pcomp accomp : Bool)
  | recvConfig (accm : UInt32)
  /-- A packet was sent, or failed to be. -/
  | output (lastXmit : UInt32)

/-- The control block after a call. -/
def LinkCall.apply : LinkCall → Pppos → Pppos
  | .connect, _ => ppposConnect
  | .disconnect, p => ppposDisconnect p
  | .sendConfig accm pcomp accomp, p => ppposSendConfig accm pcomp accomp p
  | .recvConfig accm, p => ppposRecvConfig accm p
  | .output lastXmit, p => { p with lastXmit := lastXmit }

/-! ### The characters that are escaped -/

variable {accm map : ExtAccm} {c : UInt8}

theorem toNat_div_lt (c : UInt8) : c.toNat / 8 < 32 := by
  have := c.toNat_lt
  omega

/-- A character is escaped when its bit in the map is set. -/
theorem escapeP_eq (accm : ExtAccm) (c : UInt8) : escapeP accm c =
    (accm ⟨c.toNat / 8, toNat_div_lt c⟩).toBitVec.getLsbD (c.toNat % 8) := by
  have index : ∀ c : UInt8, (c >>> 3).toNat = c.toNat / 8 := forall_byte (by decide +kernel)
  have low : ∀ c : UInt8, c &&& 0x07 = UInt8.ofNat (c.toNat % 8) :=
    forall_byte (by decide +kernel)
  have bit (k : Fin 8) : ∀ x : UInt8,
      decide (x &&& ((1 : UInt8) <<< UInt8.ofNat k) ≠ 0) = x.toBitVec.getLsbD k := by
    refine forall_byte ?_
    revert k
    decide +kernel
  have same := bit ⟨c.toNat % 8, Nat.mod_lt _ (by decide)⟩
    (accm ⟨c.toNat / 8, toNat_div_lt c⟩)
  rw [← same]
  simp only [escapeP, index, low]

theorem escapeP_connectAccm (c : UInt8) :
    escapeP connectAccm c = decide (c = pppEscape ∨ c = pppFlag) := by
  revert c
  exact forall_byte (by decide +kernel)

/-- The control codes are escaped as negotiated. -/
theorem escapeP_loadAccm_of_lt (negotiated : UInt32) (map : ExtAccm) (control : c.toNat < 32) :
    escapeP (loadAccm negotiated map) c = negotiated.toBitVec.getLsbD c.toNat := by
  have index : c.toNat / 8 < 4 := by omega
  have sum : 8 * (c.toNat / 8) + c.toNat % 8 = c.toNat := by omega
  have short : c.toNat % 8 < 8 := Nat.mod_lt _ (by decide)
  have shift : 8 * (c.toNat / 8) % 4294967296 % 32 = 8 * (c.toNat / 8) := by omega
  rw [escapeP_eq, loadAccm, if_pos index]
  simp [UInt32.toBitVec_shiftRight, BitVec.getLsbD_ushiftRight, short,
    BitVec.ushiftRight_eq', BitVec.toNat_umod, shift, sum]

/-- The other characters are escaped as before. -/
theorem escapeP_loadAccm_of_le (negotiated : UInt32) (map : ExtAccm) (plain : 32 ≤ c.toNat) :
    escapeP (loadAccm negotiated map) c = escapeP map c := by
  have index : ¬ c.toNat / 8 < 4 := by omega
  rw [escapeP_eq, escapeP_eq, loadAccm, if_neg index]

/-- Above the control codes, the escape and flag characters are escaped and no others. -/
def Regular (accm : ExtAccm) : Prop :=
  ∀ c : UInt8, 32 ≤ c.toNat → escapeP accm c = decide (c = pppEscape ∨ c = pppFlag)

theorem regular_connectAccm : Regular connectAccm := fun c _ => escapeP_connectAccm c

theorem Regular.loadAccm (regular : Regular map) (negotiated : UInt32) :
    Regular (loadAccm negotiated map) := fun c plain => by
  rw [escapeP_loadAccm_of_le _ _ plain, regular c plain]

theorem Regular.flag (regular : Regular accm) : escapeP accm pppFlag = true := by
  rw [regular pppFlag (by decide)]
  decide

theorem Regular.escape (regular : Regular accm) : escapeP accm pppEscape = true := by
  rw [regular pppEscape (by decide)]
  decide

/-- What stands for an escaped character after the escape character is not special. -/
theorem Regular.trans (regular : Regular accm) (regular' : Regular map)
    (special : escapeP accm c = true) : escapeP map (c ^^^ pppTrans) = false := by
  have moved : ∀ c : UInt8, (c.toNat < 32 ∨ c = pppEscape ∨ c = pppFlag) →
      32 ≤ (c ^^^ pppTrans).toNat ∧ ¬ (c ^^^ pppTrans = pppEscape ∨ c ^^^ pppTrans = pppFlag) :=
    forall_byte (by decide +kernel)
  have kind : c.toNat < 32 ∨ c = pppEscape ∨ c = pppFlag := by
    by_cases control : c.toNat < 32
    · exact .inl control
    · rw [regular c (by omega)] at special
      exact .inr (of_decide_eq_true special)
  obtain ⟨plain, other⟩ := moved c kind
  rw [regular' _ plain]
  exact decide_eq_false other

end Components.Ppp
