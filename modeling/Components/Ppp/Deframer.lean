import Components.Ppp.Input

/-!
# What the receiver is for

The bytes between two flags are a frame. A frame is a header, which may be compressed, some
bytes, and the check sequence of all that. The *deframer* keeps the bytes of the unfinished
frame as they are. When the flag comes, it decodes the frame at once, and delivers the
protocol and the bytes in front of the check sequence. It knows no parser states, no running
check sequence, and no packet buffers.

`pppos_input` follows it for every sequence of characters and of calls of the PPP core, in
any mixture, whatever happens to the pool of buffers.

## Main definitions

* `Header`, `header` — how far the header of a frame has been read
* `closeFrame` — what a frame is worth
* `Deframer`, `deframer` — the abstract receiver

## Main results

* `receiver_refines_deframer` — same packets and same faults
-/

namespace Components.Ppp

/-! ### Frames -/

/-- How far the header of a frame has been read. -/
inductive Header
  | address
  | control
  | protocol1
  | protocol2 (high : UInt8)
  | data (protocol : UInt16) (payload : List UInt8)
  deriving DecidableEq, Repr

namespace Header

/-- The first byte of the protocol. An odd one is the last one. -/
def stepProtocol (c : UInt8) : Header :=
  if c &&& 1 ≠ 0 then .data c.toUInt16 [] else .protocol2 c

/-- The control field or, when it has been left out, the protocol. -/
def stepControl (c : UInt8) : Header := if c = pppUi then .protocol1 else stepProtocol c

/-- The next byte of a frame. -/
def step : Header → UInt8 → Header
  | .address, c => if c = pppAllstations then .control else stepControl c
  | .control, c => stepControl c
  | .protocol1, c => stepProtocol c
  | .protocol2 high, c => .data (high.toUInt16 <<< 8 ||| c.toUInt16) []
  | .data protocol payload, c => .data protocol (payload ++ [c])

end Header

/-- The header of a frame. -/
def header (frame : List UInt8) : Header := frame.foldl Header.step .address

/-- The protocol in two bytes, as it stands in front of a packet passed to `ppp_input`. -/
def protocolBytes (protocol : UInt16) : List UInt8 := [(protocol >>> 8).toUInt8, protocol.toUInt8]

/-- What a frame is worth when its flag comes. -/
def closeFrame (frame : List UInt8) : Except Fault (Option (List UInt8)) :=
  match header frame with
  | .data protocol payload =>
    if fcsOf frame ≠ pppGoodFcs then .ok none
    else if payload = [] then .error .nullDereference
    else
      let packet := protocolBytes protocol ++ payload
      .ok (some (packet.take (packet.length - 2)))
  | _ => .ok none

/-- A buffer is needed for the next byte and there is none. -/
def starves (frame : List UInt8) (others : ℕ) : Bool :=
  match header frame with
  | .data _ payload =>
    (payload = [] ∨ (2 + payload.length) % pbufPoolBufsize = 0) ∧
      pbufPoolSize ≤ (2 + payload.length) / pbufPoolBufsize + others
  | _ => false

/-! ### The abstract receiver -/

/-- The deframer. Before the first flag there is no frame. -/
structure Deframer where
  opened : Bool
  accm : ExtAccm
  escaped : Bool
  frame : Option (List UInt8)

namespace Deframer

/-- After `pppos_create`. -/
def create : Deframer := ⟨false, fun _ => 0, false, none⟩

/-- A call of the PPP core. -/
def call (d : Deframer) : LinkCall → Deframer
  | .connect => ⟨true, connectAccm, false, none⟩
  | .disconnect => { d with opened := false }
  | .recvConfig accm => { d with accm := loadAccm accm d.accm }
  | .sendConfig _ _ _ | .output _ => d

/-- A byte of the frame, with the escape undone. Without a buffer for it, the frame is lost
and what follows is taken for a new one. -/
def byte (d : Deframer) (c : UInt8) (others : ℕ) : Deframer :=
  match d.frame with
  | none => { d with frame := if c = pppAllstations then some [c] else none }
  | some frame => { d with frame := some (if starves frame others then [] else frame ++ [c]) }

/-- The flag. -/
def flag (d : Deframer) (calls : List LinkCall) : Except Fault (Deframer × Option (List UInt8)) :=
  match closeFrame (d.frame.getD []) with
  | .error e => .error e
  | .ok none => .ok ({ d with escaped := false, frame := some [] }, none)
  | .ok (some packet) =>
    .ok ({ calls.foldl call d with escaped := false, frame := some [] }, some packet)

/-- A character of the line. -/
def receive (d : Deframer) (c : UInt8) (around : Around) :
    Except Fault (Deframer × Option (List UInt8)) :=
  if !d.opened then .ok (d, none)
  else if escapeP d.accm c then
    if c = pppEscape then .ok ({ d with escaped := true }, none)
    else if c = pppFlag then d.flag around.calls
    else .ok (d, none)
  else
    .ok (byte { d with escaped := false } (if d.escaped then c ^^^ pppTrans else c) around.others,
      none)

end Deframer

/-- The abstract receiver as a machine. -/
def deframer : Machine Deframer Event (Option (List UInt8)) Fault where
  step d
    | .receive c around => d.receive c around
    | .link call => .ok (d.call call, none)
  Allowed _ _ := True

/-! ### Packet buffers -/

/-- Every `tot_len` of a chain counts the bytes from there on. -/
def Totals : List Pbuf → Prop
  | [] => True
  | q :: qs => q.totLen = (chainBytes (q :: qs)).length ∧ Totals qs

variable {h : List Pbuf} {t q : Pbuf} {n : ℕ}

@[simp] theorem chainBytes_nil : chainBytes [] = [] := rfl

@[simp] theorem chainBytes_cons (q : Pbuf) (qs : List Pbuf) :
    chainBytes (q :: qs) = q.payload ++ chainBytes qs := rfl

/-- The chain that `pbuf_cat` builds. -/
def catChain (h : List Pbuf) (t : Pbuf) : List Pbuf :=
  h.map (fun p => { p with totLen := (p.totLen + t.totLen) % 2 ^ 16 }) ++ [t]

theorem chainBytes_catChain (h : List Pbuf) (t : Pbuf) :
    chainBytes (catChain h t) = chainBytes h ++ t.payload := by
  simp [catChain, chainBytes, List.flatMap_map]

theorem totals_catChain (totals : Totals h) (total : t.totLen = t.payload.length)
    (small : (chainBytes h).length + t.payload.length < 2 ^ 16) : Totals (catChain h t) := by
  induction h with
  | nil => exact ⟨by simpa [chainBytes] using total, trivial⟩
  | cons q qs ih =>
    have rest : (chainBytes qs).length + t.payload.length < 2 ^ 16 := by
      simp at small
      omega
    refine ⟨?_, ih totals.2 rest⟩
    have first := totals.1
    show (q.totLen + t.totLen) % 2 ^ 16 = (q.payload ++ chainBytes (catChain qs t)).length
    rw [chainBytes_catChain, first, total, Nat.mod_eq_of_lt small]
    simp [Nat.add_assoc]

theorem Totals.getLast (totals : Totals h) (last : h.getLast? = some q) :
    q.totLen = q.payload.length := by
  induction h with
  | nil => simp at last
  | cons p ps ih =>
    cases ps with
    | nil =>
      obtain rfl : p = q := by simpa using last
      simpa using totals.1
    | cons p' ps => exact ih totals.2 (by simpa using last)

/-- The assertion of `pbuf_cat` holds. -/
theorem pbufCat_eq (totals : Totals h) (ne : h ≠ []) : pbufCat h t = .ok (catChain h t) := by
  obtain ⟨q, last⟩ : ∃ q, h.getLast? = some q := ⟨_, List.getLast?_eq_some_getLast ne⟩
  simp [pbufCat, last, totals.getLast last, catChain]

theorem pbufReallocLoop_eq (shrink : ℕ) (enough : n ≤ (chainBytes h).length) (ne : h ≠ []) :
    ∃ chain, pbufReallocLoop shrink n h = .ok chain ∧ chainBytes chain = (chainBytes h).take n := by
  induction h generalizing n with
  | nil => exact absurd rfl ne
  | cons q qs ih =>
    by_cases more : n > q.payload.length
    · have rest : n - q.payload.length ≤ (chainBytes qs).length := by
        simp at enough
        omega
      have ne' : qs ≠ [] := by
        rintro rfl
        simp at rest
        omega
      obtain ⟨chain, done, bytes⟩ := ih rest ne'
      refine ⟨{ q with totLen := (q.totLen + 2 ^ 16 - shrink) % 2 ^ 16 } :: chain, ?_, ?_⟩
      · rw [pbufReallocLoop, if_pos more, done]
        rfl
      · rw [chainBytes_cons, chainBytes_cons, bytes, List.take_append,
          List.take_of_length_le more.le]
    · refine ⟨[⟨q.payload.take n, n⟩], ?_, ?_⟩
      · rw [pbufReallocLoop, if_neg more]
      · rw [chainBytes_cons, chainBytes_cons, List.take_append_of_le_length (not_lt.mp more)]
        simp

/-- `pbuf_realloc` cuts the bytes of a chain off. -/
theorem pbufRealloc_eq (totals : Totals h) (ne : h ≠ []) (n : ℕ) :
    ∃ chain, pbufRealloc h n = .ok chain ∧ chainBytes chain = (chainBytes h).take n := by
  cases h with
  | nil => exact absurd rfl ne
  | cons q qs =>
    have total : q.totLen = (chainBytes (q :: qs)).length := totals.1
    by_cases longer : n ≥ q.totLen
    · refine ⟨q :: qs, by simp [pbufRealloc, longer], ?_⟩
      rw [List.take_of_length_le (total ▸ longer)]
    · obtain ⟨chain, done, bytes⟩ :=
        pbufReallocLoop_eq (q.totLen - n) (total ▸ (not_le.mp longer).le) ne
      exact ⟨chain, by simp only [pbufRealloc, if_neg longer, done], bytes⟩

/-! ### The packet in the buffers -/

/-- The bytes of an unfinished packet, as `in_head` and `in_tail` hold them. -/
def Buffered (bytes : List UInt8) (head : List Pbuf) : InTail → Prop
  | .null => False
  | .head => (∃ total, head = [⟨bytes, total⟩]) ∧ 2 < bytes.length ∧
      bytes.length ≤ pbufPoolBufsize
  | .next t => head ≠ [] ∧ Totals head ∧ (∀ q ∈ head, q.payload.length = pbufPoolBufsize) ∧
      head.length < pbufPoolSize ∧ 0 < t.payload.length ∧ t.payload.length ≤ pbufPoolBufsize ∧
      chainBytes head ++ t.payload = bytes

/-- There is no packet in the buffers. -/
def NoBuffers (p : Pppos) : Prop := p.inHead = [] ∧ p.inTail = .null

/-- What is held of a packet after its header. The first buffer comes with the first byte. -/
def Holds (protocol : UInt16) (payload : List UInt8) (p : Pppos) : Prop :=
  p.inProtocol = protocol ∧
    if payload = [] then NoBuffers p
    else Buffered (protocolBytes protocol ++ payload) p.inHead p.inTail

theorem length_chainBytes {size : ℕ} (full : ∀ q ∈ h, q.payload.length = size) :
    (chainBytes h).length = h.length * size := by
  induction h with
  | nil => simp
  | cons q qs ih =>
    have rest := ih fun q' mem => full q' (List.mem_cons_of_mem _ mem)
    rw [chainBytes_cons, List.length_append, rest, full q List.mem_cons_self, List.length_cons,
      Nat.succ_mul, Nat.add_comm]

variable {protocol : UInt16} {payload bytes : List UInt8} {p : Pppos} {others : ℕ} {c : UInt8}

/-- The first byte after the header. -/
theorem pdData_first (empty : NoBuffers p) (c : UInt8) (others : ℕ) :
    pdData c others p = .ok (if others < pbufPoolSize then
      { p with inHead := [⟨protocolBytes p.inProtocol ++ [c], 0⟩], inTail := .head }
      else { p with inHead := [], inTail := .null, inState := .start }) := by
  obtain ⟨head, tail⟩ := empty
  have close : closeTail p = .ok p := by simp [closeTail, tail]
  by_cases room : others < pbufPoolSize
  · simp [pdData, tailFull, tail, close, poolHasRoom, head, room, openTail, loadChar,
      protocolBytes, pbufPoolBufsize_eq]
  · simp [pdData, tailFull, tail, close, poolHasRoom, head, room, ppposInputDrop,
      ppposInputFreeCurrentPacket]
    rfl

/-- Does the next byte need another buffer? -/
theorem Buffered.full_iff (held : Buffered bytes p.inHead p.inTail) :
    tailFull p = true ↔ bytes.length % pbufPoolBufsize = 0 := by
  cases tail : p.inTail with
  | null => simp [tail, Buffered] at held
  | head =>
    rw [tail] at held
    obtain ⟨⟨total, head⟩, long, short⟩ := held
    rw [pbufPoolBufsize_eq] at short ⊢
    simp only [tailFull, tail, head, List.head?_cons, Option.map_some, beq_iff_eq,
      Option.some.injEq, pbufPoolBufsize_eq]
    omega
  | next t =>
    rw [tail] at held
    obtain ⟨-, -, full, -, pos, short, rfl⟩ := held
    have length := length_chainBytes full
    rw [pbufPoolBufsize_eq] at short length ⊢
    simp only [tailFull, tail, beq_iff_eq, List.length_append, length, pbufPoolBufsize_eq]
    omega

/-- A byte for which there is room. -/
theorem Buffered.load (held : Buffered bytes p.inHead p.inTail) (room : tailFull p = false)
    (c : UInt8) : ∃ head tail, loadChar c p = .ok { p with inHead := head, inTail := tail } ∧
      Buffered (bytes ++ [c]) head tail := by
  cases tail : p.inTail with
  | null => simp [tail, Buffered] at held
  | head =>
    rw [tail] at held
    obtain ⟨⟨total, head⟩, long, short⟩ := held
    have lt : bytes.length < pbufPoolBufsize := by
      simp [tailFull, tail, head] at room
      omega
    refine ⟨[⟨bytes ++ [c], total⟩], .head, by simp [loadChar, tail, head, lt], ⟨total, rfl⟩, ?_,
      ?_⟩
    · rw [List.length_append]
      omega
    · rw [List.length_append]
      exact lt
  | next t =>
    rw [tail] at held
    obtain ⟨ne, totals, full, count, pos, short, rfl⟩ := held
    have lt : t.payload.length < pbufPoolBufsize := by
      simp [tailFull, tail] at room
      omega
    refine ⟨p.inHead, .next { t with payload := t.payload ++ [c] }, ?_, ne, totals, full, count,
      ?_, ?_, ?_⟩
    · simp [loadChar, tail, lt]
    · simp
    · rw [List.length_append]
      exact lt
    · simp

/-- The full buffers of a packet, closed for the next one. -/
structure Closed (bytes : List UInt8) (p : Pppos) (head : List Pbuf) (tail : InTail) : Prop where
  eq : closeTail p = .ok { p with inHead := head, inTail := tail }
  ne : head ≠ []
  totals : Totals head
  full : ∀ q ∈ head, q.payload.length = pbufPoolBufsize
  bytes : chainBytes head = bytes

theorem Buffered.close (held : Buffered bytes p.inHead p.inTail) (full : tailFull p = true) :
    ∃ head tail, Closed bytes p head tail := by
  cases tail : p.inTail with
  | null => simp [tail, Buffered] at held
  | head =>
    rw [tail] at held
    obtain ⟨⟨total, head⟩, -, -⟩ := held
    have size : bytes.length = pbufPoolBufsize := by
      simpa [tailFull, tail, head] using full
    refine ⟨[⟨bytes, bytes.length⟩], .head, ?_, by simp, by simp [Totals], by simpa using size,
      by simp⟩
    simp [closeTail, tail, head]
  | next t =>
    rw [tail] at held
    obtain ⟨ne, totals, whole, count, -, -, rfl⟩ := held
    have size : t.payload.length = pbufPoolBufsize := by
      simpa [tailFull, tail] using full
    have length := length_chainBytes whole
    have small : (chainBytes p.inHead).length + t.payload.length < 2 ^ 16 := by
      rw [pbufPoolBufsize_eq] at size length
      rw [pbufPoolSize_eq] at count
      omega
    refine ⟨catChain p.inHead { t with totLen := t.payload.length }, .null, ?_, by simp [catChain],
      totals_catChain totals rfl small, ?_, chainBytes_catChain _ _⟩
    · simp [closeTail, tail, pbufCat_eq totals ne]
    · intro q mem
      simp only [catChain, List.mem_append, List.mem_map, List.mem_singleton] at mem
      rcases mem with ⟨q', mem, rfl⟩ | rfl
      · exact whole q' mem
      · exact size

/-- A byte that needs another buffer. -/
theorem Closed.pdData {head : List Pbuf} {tail : InTail} (closed : Closed bytes p head tail)
    (full : tailFull p = true) (c : UInt8) (others : ℕ) :
    if head.length + others < pbufPoolSize then
      ∃ tail', pdData c others p = .ok { p with inHead := head, inTail := tail' } ∧
        Buffered (bytes ++ [c]) head tail'
    else pdData c others p = .ok { p with inHead := [], inTail := .null, inState := .start } := by
  obtain ⟨eq, ne, totals, whole, content⟩ := closed
  split
  · rename_i room
    refine ⟨.next ⟨[c], 0⟩, ?_, ne, totals, whole, by omega, by simp, by simp [pbufPoolBufsize_eq],
      by simp [content]⟩
    simp [Ppp.pdData, full, eq, poolHasRoom, room, openTail, ne, loadChar, pbufPoolBufsize_eq]
  · rename_i none
    simp [Ppp.pdData, full, eq, poolHasRoom, none, ppposInputDrop, ppposInputFreeCurrentPacket]
    rfl

/-- The data state takes one more byte, or drops the packet for want of a buffer. -/
theorem Holds.pdData (held : Holds protocol payload p) (c : UInt8) (others : ℕ)
    {frame : List UInt8} (read : header frame = .data protocol payload) :
    if starves frame others then
      Ppp.pdData c others p = .ok { p with inHead := [], inTail := .null, inState := .start }
    else
      ∃ head tail, Ppp.pdData c others p = .ok { p with inHead := head, inTail := tail } ∧
        Holds protocol (payload ++ [c]) { p with inHead := head, inTail := tail } := by
  obtain ⟨sameProtocol, inBuffers⟩ := held
  by_cases first : payload = []
  · subst first
    rw [if_pos rfl] at inBuffers
    have short : 2 / pbufPoolBufsize = 0 := rfl
    rw [pdData_first inBuffers]
    by_cases room : others < pbufPoolSize
    · have fed : starves frame others = false := by
        simp [starves, read, short, room]
      rw [if_neg (by simp [fed]), if_pos room]
      refine ⟨_, _, rfl, sameProtocol, ?_⟩
      rw [if_neg (by simp), sameProtocol]
      exact ⟨⟨0, rfl⟩, by simp [protocolBytes], by simp [protocolBytes, pbufPoolBufsize_eq]⟩
    · have starving : starves frame others = true := by
        simp [starves, read, short, not_lt.mp room]
      rw [if_pos starving, if_neg room]
  · rw [if_neg first] at inBuffers
    have length : (protocolBytes protocol ++ payload).length = 2 + payload.length := by
      simp [protocolBytes]
      omega
    have next : ∀ head tail, Buffered (protocolBytes protocol ++ payload ++ [c]) head tail →
        Holds protocol (payload ++ [c]) { p with inHead := head, inTail := tail } := by
      intro head tail held
      refine ⟨sameProtocol, ?_⟩
      rw [if_neg (by simp), ← List.append_assoc]
      exact held
    by_cases full : tailFull p = true
    · obtain ⟨head, tail, closed⟩ := inBuffers.close full
      have multiple := inBuffers.full_iff.mp full
      have count : (2 + payload.length) / pbufPoolBufsize = head.length := by
        rw [← length, ← closed.bytes, length_chainBytes closed.full,
          Nat.mul_div_cancel _ (by rw [pbufPoolBufsize_eq]; decide)]
      rw [length] at multiple
      have taken := closed.pdData full c others
      by_cases room : head.length + others < pbufPoolSize
      · have fed : starves frame others = false := by
          simp [starves, read, count, room]
        rw [if_pos room] at taken
        rw [if_neg (by simp [fed])]
        obtain ⟨tail', done, held⟩ := taken
        exact ⟨head, tail', done, next _ _ held⟩
      · have starving : starves frame others = true := by
          simp [starves, read, count, not_lt.mp room, multiple]
        rw [if_neg room] at taken
        rw [if_pos starving]
        exact taken
    · have part : (2 + payload.length) % pbufPoolBufsize ≠ 0 := by
        rw [← length]
        exact fun multiple => full (inBuffers.full_iff.mpr multiple)
      have fed : starves frame others = false := by
        simp [starves, read, first, part]
      obtain ⟨head, tail, done, held⟩ := inBuffers.load (by simpa using full) c
      rw [if_neg (by simp [fed])]
      exact ⟨head, tail, by simp [Ppp.pdData, full, done], next _ _ held⟩

/-- The packet that is passed on is what the buffers hold without the check sequence. -/
theorem Buffered.trimChecksum (held : Buffered bytes p.inHead p.inTail) :
    ∃ chain, trimChecksum p = .ok chain ∧ chainBytes chain = bytes.take (bytes.length - 2) := by
  cases tail : p.inTail with
  | null => simp [tail, Buffered] at held
  | head =>
    rw [tail] at held
    obtain ⟨⟨total, head⟩, long, -⟩ := held
    refine ⟨[⟨bytes.take (bytes.length - 2), bytes.length - 2⟩], ?_, by simp⟩
    simp [Ppp.trimChecksum, tail, head, long]
  | next t =>
    rw [tail] at held
    obtain ⟨ne, totals, full, count, pos, short, rfl⟩ := held
    have length := length_chainBytes full
    have small : (chainBytes p.inHead).length + t.payload.length < 2 ^ 16 := by
      rw [pbufPoolBufsize_eq] at short length
      rw [pbufPoolSize_eq] at count
      omega
    by_cases long : t.payload.length > 2
    · -- the check sequence is in the last buffer
      refine ⟨catChain p.inHead ⟨t.payload.take (t.payload.length - 2), t.payload.length - 2⟩,
        ?_, ?_⟩
      · simp [Ppp.trimChecksum, tail, long, pbufCat_eq totals ne]
      · rw [chainBytes_catChain, List.length_append, Nat.add_sub_assoc long.le,
          List.take_length_add_append]
    · -- it may begin in the one before
      have joined := totals_catChain (t := { t with totLen := t.payload.length }) totals rfl small
      obtain ⟨q, qs, chain⟩ : ∃ q qs, catChain p.inHead { t with totLen := t.payload.length } =
          q :: qs := List.exists_cons_of_ne_nil (by simp [catChain])
      have all : chainBytes (q :: qs) = chainBytes p.inHead ++ t.payload := by
        rw [← chain, chainBytes_catChain]
      have total : q.totLen = (chainBytes p.inHead ++ t.payload).length := by
        rw [← all]
        exact (chain ▸ joined).1
      have cut : (q.totLen + 2 ^ 16 - 2) % 2 ^ 16 =
          (chainBytes p.inHead ++ t.payload).length - 2 := by
        have first : 0 < (chainBytes p.inHead).length := by
          rw [length, pbufPoolBufsize_eq]
          exact Nat.mul_pos (List.length_pos_of_ne_nil ne) (by decide)
        rw [← total]
        rw [List.length_append] at total
        omega
      obtain ⟨chain', done, content⟩ := pbufRealloc_eq (chain ▸ joined) (List.cons_ne_nil q qs)
        ((q.totLen + 2 ^ 16 - 2) % 2 ^ 16)
      refine ⟨chain', ?_, by rw [content, all, cut]⟩
      simp only [Ppp.trimChecksum, tail, if_neg long, pbufCat_eq totals ne, chain, ok_bind,
        List.head?_cons, Option.map_some, Option.getD_some]
      exact done

/-! ### The refinement -/

/-- Where the parser stands in a frame. -/
def Parsing (frame : List UInt8) (p : Pppos) : Prop :=
  match header frame with
  | .address => NoBuffers p ∧ (p.inState = .start ∨ p.inState = .address ∧ p.inFcs = fcsOf frame)
  | .control => NoBuffers p ∧ p.inState = .control ∧ p.inFcs = fcsOf frame
  | .protocol1 => NoBuffers p ∧ p.inState = .protocol1 ∧ p.inFcs = fcsOf frame
  | .protocol2 high => NoBuffers p ∧ p.inState = .protocol2 ∧ p.inFcs = fcsOf frame ∧
      p.inProtocol = high.toUInt16 <<< 8
  | .data protocol payload => Holds protocol payload p ∧ p.inState = .data ∧
      p.inFcs = fcsOf frame

/-- The control block stands where the deframer does. While the interface is closed, only the
map of the characters matters. -/
structure Tracks (p : Pppos) (d : Deframer) : Prop where
  opened : p.opened = d.opened
  accm : p.inAccm = d.accm
  escaped : d.opened = true → p.inEscaped = d.escaped
  idle : d.opened = true → d.frame = none → NoBuffers p ∧ p.inState = .idle
  parsing : d.opened = true → ∀ frame, d.frame = some frame → Parsing frame p

variable {frame : List UInt8} {d : Deframer}

theorem fcsOf_concat (frame : List UInt8) (c : UInt8) :
    fcsOf (frame ++ [c]) = pppFcs (fcsOf frame) c := by
  simp [fcsOf]

theorem header_concat (frame : List UInt8) (c : UInt8) :
    header (frame ++ [c]) = (header frame).step c := by
  simp [header]

theorem Header.step_ne_address (h : Header) (c : UInt8) : h.step c ≠ .address := by
  cases h with
  | address | control | protocol1 =>
    simp only [Header.step, Header.stepControl, Header.stepProtocol]
    split_ifs <;> simp
  | protocol2 | data => simp [Header.step]

/-- Only the empty frame has nothing of its header read. -/
theorem eq_nil_of_header (read : header frame = .address) : frame = [] := by
  rcases List.eq_nil_or_concat frame with rfl | ⟨front, c, rfl⟩
  · rfl
  · rw [List.concat_eq_append, header_concat] at read
    exact absurd read (Header.step_ne_address _ c)

/-- The control block after the check sequence has been updated. -/
def withFcs (c : UInt8) (p : Pppos) : Pppos := { p with inFcs := pppFcs p.inFcs c }

theorem parsing_pdProtocol1 (empty : NoBuffers p) (fcs : p.inFcs = fcsOf frame)
    (read : (header frame).step c = Header.stepProtocol c) :
    Parsing (frame ++ [c]) (withFcs c (pdProtocol1 c p)) := by
  have next : pppFcs p.inFcs c = fcsOf (frame ++ [c]) := by rw [fcsOf_concat, fcs]
  rw [Parsing, header_concat, read, Header.stepProtocol, pdProtocol1]
  split_ifs
  · exact ⟨⟨rfl, empty⟩, rfl, next⟩
  · exact ⟨empty, rfl, next, rfl⟩

theorem parsing_pdControl (empty : NoBuffers p) (fcs : p.inFcs = fcsOf frame)
    (read : (header frame).step c = Header.stepControl c) :
    Parsing (frame ++ [c]) (withFcs c (pdControl c p)) := by
  by_cases ui : c = pppUi
  · have next : pppFcs p.inFcs c = fcsOf (frame ++ [c]) := by rw [fcsOf_concat, fcs]
    rw [Parsing, header_concat, read, Header.stepControl, pdControl, if_pos ui, if_pos ui]
    exact ⟨empty, rfl, next⟩
  · rw [pdControl, if_neg ui]
    exact parsing_pdProtocol1 empty fcs (by rw [read, Header.stepControl, if_neg ui])

theorem parsing_pdAddress (empty : NoBuffers p) (fcs : p.inFcs = pppInitFcs) :
    Parsing [c] (withFcs c (pdAddress c p)) := by
  by_cases all : c = pppAllstations
  · have next : pppFcs p.inFcs c = fcsOf [c] := by rw [fcs]; rfl
    have read : header [c] = .control := by
      simp [header, Header.step, all]
    rw [Parsing, read, pdAddress, if_pos all]
    exact ⟨empty, rfl, next⟩
  · rw [pdAddress, if_neg all]
    have fcs' : p.inFcs = fcsOf [] := fcs
    exact parsing_pdControl empty fcs' (by simp [header, Header.step, all])

/-- What the processing of a byte leaves alone. -/
structure SameLink (p p' : Pppos) : Prop where
  opened : p'.opened = p.opened
  inAccm : p'.inAccm = p.inAccm
  inEscaped : p'.inEscaped = p.inEscaped

theorem SameLink.refl (p : Pppos) : SameLink p p := ⟨rfl, rfl, rfl⟩

theorem sameLink_pdProtocol1 : SameLink p (pdProtocol1 c p) := by
  unfold pdProtocol1
  split_ifs <;> exact ⟨rfl, rfl, rfl⟩

theorem sameLink_pdControl : SameLink p (pdControl c p) := by
  unfold pdControl
  split_ifs
  · exact ⟨rfl, rfl, rfl⟩
  · exact sameLink_pdProtocol1

theorem sameLink_pdAddress : SameLink p (pdAddress c p) := by
  unfold pdAddress
  split_ifs
  · exact ⟨rfl, rfl, rfl⟩
  · exact sameLink_pdControl

theorem sameLink_pdStart : SameLink p (pdStart c p) := by
  obtain ⟨opened, inAccm, inEscaped⟩ :=
    sameLink_pdAddress (c := c) (p := { p with inFcs := pppInitFcs })
  exact ⟨opened, inAccm, inEscaped⟩

theorem starves_of_not_data (read : ∀ protocol payload, header frame ≠ .data protocol payload) :
    starves frame others = false := by
  unfold starves
  split
  · rename_i protocol payload data
    exact absurd data (read protocol payload)
  · rfl

/-- One byte of a frame. -/
theorem Parsing.processChar (within : Parsing frame p) (c : UInt8) (others : ℕ) :
    ∃ p', processChar c others p = .ok p' ∧
      Parsing (if starves frame others then [] else frame ++ [c]) (withFcs c p') ∧
      SameLink p p' := by
  cases read : header frame with
  | address =>
    obtain rfl := eq_nil_of_header read
    rw [Parsing, read] at within
    rw [starves_of_not_data (by simp [read])]
    obtain ⟨empty, start | ⟨address, fcs⟩⟩ := within
    · exact ⟨pdStart c p, by simp [Ppp.processChar, start], parsing_pdAddress empty rfl,
        sameLink_pdStart⟩
    · exact ⟨pdAddress c p, by simp [Ppp.processChar, address], parsing_pdAddress empty fcs,
        sameLink_pdAddress⟩
  | control =>
    rw [Parsing, read] at within
    obtain ⟨empty, state, fcs⟩ := within
    rw [starves_of_not_data (by simp [read])]
    exact ⟨pdControl c p, by simp [Ppp.processChar, state],
      parsing_pdControl empty fcs (by rw [read]; rfl), sameLink_pdControl⟩
  | protocol1 =>
    rw [Parsing, read] at within
    obtain ⟨empty, state, fcs⟩ := within
    rw [starves_of_not_data (by simp [read])]
    exact ⟨pdProtocol1 c p, by simp [Ppp.processChar, state],
      parsing_pdProtocol1 empty fcs (by rw [read]; rfl), sameLink_pdProtocol1⟩
  | protocol2 high =>
    rw [Parsing, read] at within
    obtain ⟨empty, state, fcs, protocol⟩ := within
    have next : pppFcs p.inFcs c = fcsOf (frame ++ [c]) := by rw [fcsOf_concat, fcs]
    rw [starves_of_not_data (by simp [read])]
    refine ⟨{ p with inProtocol := p.inProtocol ||| c.toUInt16, inState := .data },
      by simp [Ppp.processChar, state], ?_, ⟨rfl, rfl, rfl⟩⟩
    rw [if_neg (by simp), Parsing, header_concat, read]
    exact ⟨⟨by rw [← protocol]; rfl, empty⟩, rfl, next⟩
  | data protocol payload =>
    rw [Parsing, read] at within
    obtain ⟨held, state, fcs⟩ := within
    have next : pppFcs p.inFcs c = fcsOf (frame ++ [c]) := by rw [fcsOf_concat, fcs]
    have taken := held.pdData c others read
    have here : Ppp.processChar c others p = Ppp.pdData c others p := by
      simp [Ppp.processChar, state]
    rw [here]
    by_cases starving : starves frame others = true
    · rw [if_pos starving] at taken ⊢
      exact ⟨_, taken, ⟨⟨rfl, rfl⟩, .inl rfl⟩, ⟨rfl, rfl, rfl⟩⟩
    · rw [if_neg starving] at taken ⊢
      obtain ⟨head, tail, done, held'⟩ := taken
      refine ⟨_, done, ?_, ⟨rfl, rfl, rfl⟩⟩
      rw [Parsing, header_concat, read]
      exact ⟨held', state, next⟩

/-- A frame with a whole header. -/
theorem closeFrame_of_data (read : header frame = .data protocol payload) : closeFrame frame =
    if fcsOf frame ≠ pppGoodFcs then .ok none
    else if payload = [] then .error .nullDereference
    else .ok (some ((protocolBytes protocol ++ payload).take
      ((protocolBytes protocol ++ payload).length - 2))) := by
  simp only [closeFrame, read]

/-- Only a good frame with a whole header is passed on or does harm. -/
theorem data_of_closeFrame (ne : closeFrame frame ≠ .ok none) :
    fcsOf frame = pppGoodFcs ∧ ∃ protocol payload, header frame = .data protocol payload := by
  cases read : header frame with
  | address | control | protocol1 => simp [closeFrame, read] at ne
  | protocol2 high => simp [closeFrame, read] at ne
  | data protocol payload =>
    rw [closeFrame_of_data read] at ne
    refine ⟨?_, protocol, payload, rfl⟩
    by_contra bad
    exact ne (if_pos bad)

/-- A frame that is not passed on leaves nothing behind. -/
theorem Parsing.flagChar_of_none (within : Parsing frame p)
    (worthless : closeFrame frame = .ok none) (calls : List LinkCall) :
    ∃ p', flagChar calls p = .ok (newPacket p', none) ∧ NoBuffers p' ∧ SameLink p p' := by
  rw [Parsing] at within
  cases read : header frame with
  | address =>
    rw [read] at within
    obtain ⟨empty, start | ⟨address, -⟩⟩ := within
    · exact ⟨p, by simp [flagChar, start], empty, .refl p⟩
    · exact ⟨p, by simp [flagChar, address], empty, .refl p⟩
  | control | protocol1 =>
    rw [read] at within
    obtain ⟨-, state, -⟩ := within
    exact ⟨ppposInputDrop p, by simp [flagChar, state], ⟨rfl, rfl⟩, ⟨rfl, rfl, rfl⟩⟩
  | protocol2 high =>
    rw [read] at within
    obtain ⟨-, state, -⟩ := within
    exact ⟨ppposInputDrop p, by simp [flagChar, state], ⟨rfl, rfl⟩, ⟨rfl, rfl, rfl⟩⟩
  | data protocol payload =>
    rw [read] at within
    obtain ⟨-, state, fcs⟩ := within
    have bad : fcsOf frame ≠ pppGoodFcs := by
      intro good
      rw [closeFrame_of_data read, if_neg (by simp [good])] at worthless
      split_ifs at worthless
      simp at worthless
    exact ⟨ppposInputDrop p, by simp [flagChar, state, fcs, bad], ⟨rfl, rfl⟩, ⟨rfl, rfl, rfl⟩⟩

/-- A good frame that ends with its header. -/
theorem Parsing.flagChar_of_error {e : Fault} (within : Parsing frame p)
    (wrong : closeFrame frame = .error e) (calls : List LinkCall) :
    flagChar calls p = .error e := by
  have ne : closeFrame frame ≠ .ok none := by simp [wrong]
  obtain ⟨good, protocol, payload, read⟩ := data_of_closeFrame ne
  rw [Parsing, read] at within
  obtain ⟨⟨-, held⟩, state, fcs⟩ := within
  rw [closeFrame_of_data read, if_neg (by simp [good])] at wrong
  by_cases empty : payload = []
  · rw [if_pos empty] at wrong held
    cases wrong
    simp [flagChar, state, fcs, good, trimChecksum, held.2]
  · simp [empty] at wrong

/-- A frame that is passed on. -/
theorem Parsing.flagChar_of_some {packet : List UInt8} (within : Parsing frame p)
    (worth : closeFrame frame = .ok (some packet)) (calls : List LinkCall) :
    ∃ chain, flagChar calls p = .ok (newPacket (calls.foldl (fun p call => call.apply p)
      { p with inHead := [], inTail := .null }), some chain) ∧ chainBytes chain = packet := by
  have ne : closeFrame frame ≠ .ok none := by simp [worth]
  obtain ⟨good, protocol, payload, read⟩ := data_of_closeFrame ne
  rw [Parsing, read] at within
  obtain ⟨⟨-, held⟩, state, fcs⟩ := within
  rw [closeFrame_of_data read, if_neg (by simp [good])] at worth
  by_cases empty : payload = []
  · simp [empty] at worth
  · rw [if_neg empty] at worth held
    cases worth
    obtain ⟨chain, trimmed, content⟩ := held.trimChecksum
    refine ⟨chain, ?_, content⟩
    simp [flagChar, state, fcs, good, trimmed]

/-- Between two packets. -/
structure Between (p : Pppos) (d : Deframer) : Prop where
  opened : p.opened = d.opened
  accm : p.inAccm = d.accm
  empty : NoBuffers p

theorem Between.newPacket (between : Between p d) :
    Tracks (newPacket p) { d with escaped := false, frame := some [] } where
  opened := between.opened
  accm := between.accm
  escaped _ := rfl
  idle _ none := by cases none
  parsing _ frame start := by
    cases start
    exact ⟨between.empty, .inr ⟨rfl, rfl⟩⟩

theorem Between.apply (between : Between p d) (call : LinkCall) :
    Between (call.apply p) (d.call call) := by
  obtain ⟨opened, accm, empty⟩ := between
  cases call with
  | connect => exact ⟨rfl, rfl, rfl, rfl⟩
  | disconnect => exact ⟨rfl, accm, rfl, rfl⟩
  | sendConfig _ _ _ => exact ⟨opened, accm, empty⟩
  | recvConfig negotiated => exact ⟨opened, congrArg (loadAccm negotiated) accm, empty⟩
  | output _ => exact ⟨opened, accm, empty⟩

theorem Between.applyAll (between : Between p d) (calls : List LinkCall) :
    Between (calls.foldl (fun p call => call.apply p) p) (calls.foldl Deframer.call d) := by
  induction calls generalizing p d with
  | nil => exact between
  | cons call calls ih => exact ih (between.apply call)

namespace Tracks

theorem connect (d : Deframer) : Tracks ppposConnect (d.call .connect) where
  opened := rfl
  accm := rfl
  escaped _ := rfl
  idle _ _ := ⟨⟨rfl, rfl⟩, rfl⟩
  parsing _ frame start := by cases start

theorem apply (tracks : Tracks p d) (call : LinkCall) : Tracks (call.apply p) (d.call call) := by
  cases call with
  | connect => exact connect d
  | disconnect => exact ⟨rfl, tracks.accm, nofun, nofun, nofun⟩
  | sendConfig _ _ _ =>
    exact ⟨tracks.opened, tracks.accm, tracks.escaped, tracks.idle, tracks.parsing⟩
  | recvConfig negotiated =>
    exact ⟨tracks.opened, congrArg (loadAccm negotiated) tracks.accm, tracks.escaped, tracks.idle,
      tracks.parsing⟩
  | output _ => exact ⟨tracks.opened, tracks.accm, tracks.escaped, tracks.idle, tracks.parsing⟩

theorem create : Tracks ppposCreate Deframer.create := ⟨rfl, rfl, nofun, nofun, nofun⟩

/-- A flag ends the frame of both. -/
theorem flag (tracks : Tracks p d) (on : d.opened = true) (calls : List LinkCall) :
    Machine.Lockstep Tracks ((flagChar calls p).map fun r => (r.1, r.2.map chainBytes))
      (d.flag calls) := by
  cases start : d.frame with
  | none =>
    obtain ⟨empty, idle⟩ := tracks.idle on start
    have left : flagChar calls p = .ok (newPacket p, none) := by simp [flagChar, idle]
    have right : closeFrame [] = .ok none := rfl
    rw [left, Deframer.flag, start, Option.getD_none, right]
    exact ⟨rfl, Between.newPacket ⟨tracks.opened, tracks.accm, empty⟩⟩
  | some frame =>
    have within := tracks.parsing on frame start
    rw [Deframer.flag, start, Option.getD_some]
    cases worth : closeFrame frame with
    | error e =>
      rw [within.flagChar_of_error worth]
      rfl
    | ok result =>
      cases result with
      | none =>
        obtain ⟨p', left, empty, same⟩ := within.flagChar_of_none worth calls
        rw [left]
        exact ⟨rfl, Between.newPacket
          ⟨same.opened.trans tracks.opened, same.inAccm.trans tracks.accm, empty⟩⟩
      | some packet =>
        obtain ⟨chain, left, content⟩ := within.flagChar_of_some worth calls
        have between : Between { p with inHead := [], inTail := .null } d :=
          ⟨tracks.opened, tracks.accm, rfl, rfl⟩
        rw [left]
        exact ⟨congrArg some content, (between.applyAll calls).newPacket⟩

/-- A byte of a frame, or one before the first flag. -/
theorem byte (tracks : Tracks p d) (on : d.opened = true) (c : UInt8) (others : ℕ) :
    ∃ p', processChar c others { p with inEscaped := false } = .ok p' ∧
      Tracks (withFcs c p') (Deframer.byte { d with escaped := false } c others) := by
  cases start : d.frame with
  | none =>
    obtain ⟨empty, idle⟩ := tracks.idle on start
    refine ⟨pdIdle c { p with inEscaped := false }, by simp [processChar, idle], ?_⟩
    simp only [Deframer.byte]
    by_cases all : c = pppAllstations
    · -- the address field starts a frame without a flag
      rw [pdIdle, if_neg (not_not.mpr all), if_pos all]
      have same : SameLink _ (pdStart c { p with inEscaped := false }) := sameLink_pdStart
      exact ⟨same.opened.trans tracks.opened, same.inAccm.trans tracks.accm,
        fun _ => same.inEscaped, nofun, fun _ frame eq => by
          cases eq
          exact parsing_pdAddress (p := { p with inEscaped := false, inFcs := pppInitFcs })
            empty rfl⟩
    · rw [pdIdle, if_pos all, if_neg all]
      exact ⟨tracks.opened, tracks.accm, fun _ => rfl, fun _ _ => ⟨empty, idle⟩, nofun⟩
  | some frame =>
    have within : Parsing frame { p with inEscaped := false } := tracks.parsing on frame start
    obtain ⟨p', left, next, same⟩ := within.processChar c others
    refine ⟨p', left, ?_⟩
    simp only [Deframer.byte]
    exact ⟨same.opened.trans tracks.opened, same.inAccm.trans tracks.accm,
      fun _ => same.inEscaped, nofun, fun _ frame' eq => by
        cases eq
        exact next⟩

/-- A character. -/
theorem receive (tracks : Tracks p d) (c : UInt8) (around : Around) :
    Machine.Lockstep Tracks
      ((ppposInputChar c around p).map fun r => (r.1, r.2.map chainBytes))
      (d.receive c around) := by
  by_cases on : d.opened = true
  · have on' : p.opened = true := tracks.opened.trans on
    rw [ppposInputChar, Deframer.receive, if_neg (show ¬ (!p.opened) = true by simp [on']),
      if_neg (show ¬ (!d.opened) = true by simp [on])]
    by_cases special : escapeP d.accm c = true
    · have special' : escapeP p.inAccm c = true := by rw [tracks.accm, special]
      rw [if_pos special', if_pos special]
      split_ifs with escape flag
      · exact ⟨rfl, tracks.opened, tracks.accm, fun _ => rfl, tracks.idle, tracks.parsing⟩
      · exact tracks.flag on around.calls
      · exact ⟨rfl, tracks⟩
    · have special' : ¬ escapeP p.inAccm c = true := by rwa [tracks.accm]
      rw [if_neg special', if_neg special, tracks.escaped on]
      -- a byte, with the escape undone where there was one
      obtain ⟨p', left, next⟩ :=
        tracks.byte on (if d.escaped then c ^^^ pppTrans else c) around.others
      simp only [left, ok_bind]
      exact ⟨rfl, next⟩
  · have off : ¬ p.opened = true := by rwa [tracks.opened]
    rw [ppposInputChar, Deframer.receive, if_pos (show (!p.opened) = true by simp [off]),
      if_pos (show (!d.opened) = true by simp [on])]
    exact ⟨rfl, tracks⟩

/-- One event keeps the two in step. -/
theorem step (tracks : Tracks p d) (event : Event) :
    Machine.Lockstep Tracks (receiver.step p event) (deframer.step d event) := by
  cases event with
  | link call => exact ⟨rfl, tracks.apply call⟩
  | receive c around => exact tracks.receive c around

end Tracks

/-- The receiver and the deframer stay in step. -/
theorem run_lockstep_create (events : List Event) :
    Machine.Lockstep Tracks (receiver.run ppposCreate events)
      (deframer.run Deframer.create events) :=
  Machine.run_lockstep (fun _ _ event tracks => Tracks.step tracks event) Tracks.create events

/-- `pppos_input` passes on the packets of the deframer, and faults where the deframer does:
for every sequence of characters and calls of the PPP core. -/
theorem receiver_refines_deframer (events : List Event) :
    (receiver.run ppposCreate events).map Prod.snd =
      (deframer.run Deframer.create events).map Prod.snd :=
  (run_lockstep_create events).map_snd

end Components.Ppp
