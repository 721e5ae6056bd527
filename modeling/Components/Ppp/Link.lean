import Components.Modem.Chunks
import Components.Ppp.Integrity

/-!
# The modem and the PPP stack

The port of `sio.c` hands what it receives to `pppos_input_tcpip` in chunks, and
`pppos_input_sys` passes each of them to `pppos_input`, in one piece or in several packet
buffers. A chunk is lost when there is no buffer or no message for it, or when the mailbox of the
TCPIP thread is full: `pppos_rx_thread` does not look at the result. What the PPP stack sends goes
to `sio_write`.

A chunk ends at a flag, but not at one that is its first byte. The flag at the end of a frame
comes first in its chunk when the one before has just been filled. It then stays in the
port until more bytes come, and with it the packet.

## Main definitions

* `Posting` — whether a chunk gets to the TCPIP thread
* `ppposInputTcpip`, `ppposInputSys`, `ppposRxThread` — the way of the chunks

## Main results

* `ppposRxThread_eq` — the cuts do not matter, only which chunks are posted
* `packets_through_port` — the packets of the bytes that are received in data mode
* `packet_waits_iff` — when a packet has to wait
* `output_through_port` — the bytes that are sent
-/

namespace Components.Ppp

open Modem (Port PppCall sioReads rxThreadLen)

variable {p p' : Pppos} {s s' : List (UInt8 × Around)}

/-! ### Chunks -/

/-- `pbuf_alloc(PBUF_RAW, l, PBUF_POOL)` and `pbuf_take`: the characters in packet buffers. -/
def pbufTake {α : Type} (s : List α) : List (List α) :=
  if s.length ≤ pbufPoolBufsize then [s]
  else s.take pbufPoolBufsize :: pbufTake (s.drop pbufPoolBufsize)
termination_by s.length
decreasing_by
  rw [List.length_drop, pbufPoolBufsize_eq]
  rename_i long
  rw [pbufPoolBufsize_eq] at long
  omega

/-- `pppos_input_sys`: one call of `pppos_input` after the other. -/
def ppposInputSys : List (List (UInt8 × Around)) → Pppos → Except Fault (Pppos × List (List Pbuf))
  | [], p => .ok (p, [])
  | s :: parts, p => do
    let (p, inps) ← ppposInput s p
    let (p, inps') ← ppposInputSys parts p
    return (p, inps ++ inps')

/-- What a chunk meets with: buffers in the pool, a message, and room in the mailbox. -/
structure Posting where
  hasPbuf : Bool
  hasMsg : Bool
  mboxHasRoom : Bool
  deriving DecidableEq, Repr

/-- The chunk gets to the TCPIP thread. -/
def Posting.accepts (posting : Posting) : Bool :=
  posting.hasPbuf && posting.hasMsg && posting.mboxHasRoom

/-- `tcpip_inpkt` with `pppos_input_sys`, which the TCPIP thread calls for a message. -/
def tcpipInpkt (posting : Posting) (parts : List (List (UInt8 × Around))) (p : Pppos) :
    Except Fault (Err × Pppos × List (List Pbuf)) :=
  if !posting.hasMsg then .ok (.mem, p, [])
  else if !posting.mboxHasRoom then .ok (.mem, p, [])
  else do
    let (p, inps) ← ppposInputSys parts p
    return (.ok, p, inps)

/-- `pppos_input_tcpip`. -/
def ppposInputTcpip (posting : Posting) (chunk : List (UInt8 × Around)) (p : Pppos) :
    Except Fault (Err × Pppos × List (List Pbuf)) :=
  if !posting.hasPbuf then .ok (.mem, p, []) else tcpipInpkt posting (pbufTake chunk) p

/-- `pppos_rx_thread`, for the chunks that `sio_read` returns. -/
def ppposRxThread : List (Posting × List (UInt8 × Around)) → Pppos →
    Except Fault (Pppos × List (List Pbuf))
  | [], p => .ok (p, [])
  | (posting, chunk) :: calls, p => do
    let (_, p, inps) ← ppposInputTcpip posting chunk p
    let (p, inps') ← ppposRxThread calls p
    return (p, inps ++ inps')

theorem flatten_pbufTake {α : Type} (s : List α) : (pbufTake s).flatten = s := by
  induction s using pbufTake.induct with
  | case1 s short => rw [pbufTake, if_pos short]; simp
  | case2 s long ih => rw [pbufTake, if_neg long, List.flatten_cons, ih, List.take_append_drop]

/-- On a closed interface the loop is left at once. -/
theorem ppposInput_closed (off : p.opened = false) (s : List (UInt8 × Around)) :
    ppposInput s p = .ok (p, []) := by
  cases s with
  | nil => rfl
  | cons entry s => simp [ppposInput, off]

/-- Two calls of `pppos_input` do what one does. -/
theorem ppposInput_append (s s' : List (UInt8 × Around)) (p : Pppos) : ppposInput (s ++ s') p = do
    let (p, inps) ← ppposInput s p
    let (p, inps') ← ppposInput s' p
    return (p, inps ++ inps') := by
  induction s generalizing p with
  | nil =>
    simp only [List.nil_append, ppposInput, ok_bind]
    exact (bind_pure _).symm
  | cons entry s ih =>
    by_cases on : p.opened = true
    · simp only [List.cons_append, ppposInput, on, Bool.not_true, Bool.false_eq_true, if_false]
      cases ppposInputChar entry.1 entry.2 p with
      | error e => rfl
      | ok r =>
        simp only [ok_bind, ih, bind_assoc, pure_bind, List.append_assoc]
    · have off : p.opened = false := by simpa using on
      simp [ppposInput_closed off, bind, Except.bind, pure, Except.pure]

/-- Nothing comes of what is received on a closed interface. -/
theorem receiver_closed (off : p.opened = false) (s : List (UInt8 × Around)) :
    receiver.run p (receives s) = .ok (p, List.replicate s.length none) := by
  induction s with
  | nil => rfl
  | cons entry s ih =>
    refine Machine.run_cons ?_ ih
    simp [receiver, ppposInputChar, off, Except.map]

/-- The loop is a run of the receiver. -/
theorem ppposInput_eq_run (s : List (UInt8 × Around)) (p : Pppos) :
    (ppposInput s p).map (fun r => (r.1, r.2.map chainBytes)) =
      (receiver.run p (receives s)).map fun r => (r.1, r.2.reduceOption) := by
  induction s generalizing p with
  | nil => rfl
  | cons entry s ih =>
    by_cases on : p.opened = true
    · have step : receiver.step p (.receive entry.1 entry.2) =
          (ppposInputChar entry.1 entry.2 p).map fun r => (r.1, r.2.map chainBytes) := rfl
      simp only [ppposInput, on, Bool.not_true, Bool.false_eq_true, if_false, receives,
        List.map_cons, Machine.run, step]
      cases ppposInputChar entry.1 entry.2 p with
      | error e => rfl
      | ok r =>
        have rest := ih r.1
        simp only [ok_bind, Except.map, receives] at rest ⊢
        cases left : ppposInput s r.1 with
        | error e =>
          cases right : receiver.run r.1 (receives s) with
          | error e' => simpa [left, right] using rest
          | ok y => simp [left, right] at rest
        | ok x =>
          cases right : receiver.run r.1 (receives s) with
          | error e' => simp [left, right] at rest
          | ok y =>
            simp [left, right] at rest
            obtain ⟨r₁, r₂⟩ := r
            cases r₂ <;> simp [ok_bind, rest, pure, Except.pure]
    · have off : p.opened = false := by simpa using on
      rw [ppposInput_closed off, receiver_closed off]
      simp [Except.map, List.reduceOption_replicate_none]

theorem ppposInput_of_run {rs : List (Option (List UInt8))}
    (run : receiver.run p (receives s) = .ok (p', rs)) :
    ∃ inps, ppposInput s p = .ok (p', inps) ∧ inps.map chainBytes = rs.reduceOption := by
  have same := ppposInput_eq_run s p
  rw [run] at same
  cases left : ppposInput s p with
  | error e => simp [left, Except.map] at same
  | ok out =>
    simp only [left, Except.map, Except.ok.injEq, Prod.mk.injEq] at same
    obtain ⟨rfl, packets⟩ := same
    exact ⟨out.2, rfl, packets⟩

theorem ppposInputSys_eq (parts : List (List (UInt8 × Around))) (p : Pppos) :
    ppposInputSys parts p = ppposInput parts.flatten p := by
  induction parts generalizing p with
  | nil => rfl
  | cons s parts ih =>
    rw [ppposInputSys, List.flatten_cons, ppposInput_append]
    simp only [ih]

/-- A chunk is processed as a whole or lost. -/
theorem ppposInputTcpip_eq (posting : Posting) (chunk : List (UInt8 × Around)) (p : Pppos) :
    ppposInputTcpip posting chunk p =
      if posting.accepts then do
        let (p, inps) ← ppposInput chunk p
        return (.ok, p, inps)
      else .ok (.mem, p, []) := by
  unfold ppposInputTcpip tcpipInpkt Posting.accepts
  rw [ppposInputSys_eq, flatten_pbufTake]
  cases posting.hasPbuf
  · rfl
  · cases posting.hasMsg
    · rfl
    · cases posting.mboxHasRoom <;> rfl

/-- The chunks of the port and the packet buffers in which they are kept do not matter: the
receiver sees the characters of the chunks that are posted. -/
theorem ppposRxThread_eq (calls : List (Posting × List (UInt8 × Around))) (p : Pppos) :
    ppposRxThread calls p =
      ppposInput ((calls.filter fun call => call.1.accepts).map Prod.snd).flatten p := by
  induction calls generalizing p with
  | nil => rfl
  | cons call calls ih =>
    obtain ⟨posting, chunk⟩ := call
    rw [ppposRxThread, ppposInputTcpip_eq, List.filter_cons]
    split_ifs
    · -- the chunk is processed before those that follow
      rw [List.map_cons, List.flatten_cons, ppposInput_append]
      simp only [ih, bind_assoc, pure_bind]
    · -- the chunk is lost, and nobody learns of it
      rw [← ih]
      simp only [ok_bind, List.nil_append]
      exact bind_pure _

/-- When no chunk is lost, the receiver sees all characters. -/
theorem ppposRxThread_of_accepted {calls : List (Posting × List (UInt8 × Around))}
    (accepted : ∀ call ∈ calls, call.1.accepts = true) :
    ppposRxThread calls p = ppposInput (calls.map Prod.snd).flatten p := by
  rw [ppposRxThread_eq, List.filter_eq_self.mpr accepted]

/-! ### Where the chunks end -/

variable {P R : Type} {len : ℕ} {port : Port P}

theorem exists_cut {α β : Type} {f : α → β} {l : List α} {chunks : List (List β)}
    {rest : List β} (same : l.map f = chunks.flatten ++ rest) :
    ∃ (cs : List (List α)) (l' : List α),
      l = cs.flatten ++ l' ∧ cs.map (List.map f) = chunks ∧ l'.map f = rest := by
  induction chunks generalizing l with
  | nil => exact ⟨[], l, rfl, rfl, same⟩
  | cons chunk chunks ih =>
    rw [List.flatten_cons, List.append_assoc] at same
    obtain ⟨l₁, l₂, rfl, rfl, more⟩ := List.map_eq_append_iff.mp same
    obtain ⟨cs, l', rfl, rfl, last⟩ := ih more
    exact ⟨l₁ :: cs, l', by simp, rfl, last⟩

/-- What the port hands on of the bytes that it receives in data mode. -/
theorem exists_chunks (ppp : Modem.Ppp P R) (pos : 1 ≤ len) (bound : len ≤ Modem.arrRxCharSize)
    (mode : port.rnsm = .enterPpp) (empty : port.arrRxCharNb = 0)
    {received : List (UInt8 × Modem.Locals)} (bytes : received.map Prod.fst = s.map Prod.fst)
    (data : ℕ → UInt8) :
    ∃ port' data' chunks rest, sioReads ppp len received port data = .ok (port', data') ∧
      port'.input = port.input ++ List.map (List.map Prod.fst) chunks ∧ s = chunks.flatten ++ rest ∧
      (∀ chunk ∈ chunks, Modem.Chunk len (chunk.map Prod.fst)) ∧
      Modem.Unfinished len (rest.map Prod.fst) := by
  have nothing : Modem.inBuffer port = [] := by
    rw [Modem.inBuffer, empty]
    rfl
  have unfinished : Modem.Unfinished len (Modem.inBuffer port) := by
    rw [nothing]
    exact ⟨pos, fun i _ => by simp⟩
  obtain ⟨port', data', chunks, pending, done, input, split, all, last, -⟩ :=
    Modem.sioReads_eq ppp bound received data mode unfinished
  rw [nothing, List.nil_append, bytes] at split
  obtain ⟨cs, rest, whole, rfl, rfl⟩ := exists_cut split
  exact ⟨port', data', cs, rest, done, input, whole,
    fun chunk mem => all _ (List.mem_map_of_mem mem), last⟩

/-- Only the last flag can be left over. -/
theorem rest_of_flag {last : Around} {front rest : List (UInt8 × Around)}
    (unfinished : Modem.Unfinished len (rest.map Prod.fst))
    (split : s ++ [(pppFlag, last)] = front ++ rest) :
    rest = [] ∧ front = s ++ [(pppFlag, last)] ∨ rest = [(pppFlag, last)] ∧ front = s := by
  rcases List.eq_nil_or_concat rest with rfl | ⟨init, entry, rfl⟩
  · exact .inl ⟨rfl, by simpa using split.symm⟩
  · rw [List.concat_eq_append, ← List.append_assoc] at split
    obtain ⟨rfl, rfl⟩ := List.append_singleton_inj.mp split
    have first : init = [] := by
      by_contra ne
      have pos : 1 ≤ init.length := List.length_pos_iff.mpr ne
      refine unfinished.noFlag init.length pos ?_
      simp [pppFlag]
    subst first
    exact .inr ⟨rfl, by simp⟩

/-! ### Packets through the port -/

variable {packets : List Packet} {inAccm outAccm : ExtAccm} {d : Deframer}

theorem Packet.map_fst_entries {k : Packet} (sound : k.Sound inAccm) :
    k.entries.map Prod.fst = k.wire := by
  rw [entries, List.map_fst_zip sound.length.ge]

theorem Packet.map_fst_flatMap (sound : AllSound inAccm packets) :
    (packets.flatMap entries).map Prod.fst = packets.flatMap wire := by
  induction packets generalizing inAccm with
  | nil => rfl
  | cons k packets ih =>
    rw [List.flatMap_cons, List.flatMap_cons, List.map_append, map_fst_entries sound.1, ih sound.2]

/-- Without its last flag, a sequence of packets lacks the last of them. -/
theorem Packet.lastFlag (inside : Inside inAccm [] d) (regular : Regular inAccm)
    (sound : AllSound inAccm packets) (ne : packets ≠ []) :
    ∃ s last d₁ d' arrivals, packets.flatMap entries = s ++ [(pppFlag, last)] ∧
      Delivers d s (packets.dropLast.map arrival) d₁ ∧
      Delivers d₁ [(pppFlag, last)] arrivals d' ∧
      packets.map arrival = packets.dropLast.map arrival ++ arrivals := by
  induction packets generalizing inAccm d with
  | nil => exact absurd rfl ne
  | cons k packets ih =>
    by_cases more : packets = []
    · subst more
      obtain ⟨s, last, d₁, d', split, first, second, -⟩ := arrives_at_flag inside regular sound.1
      exact ⟨s, last, d₁, d', _, by simp [split], first, second, rfl⟩
    · obtain ⟨d₀, first, inside₀⟩ := arrives inside regular sound.1
      obtain ⟨s, last, d₁, d', arrivals, split, second, third, all⟩ :=
        ih inside₀ (regular.accmAfter k.reaction) sound.2 more
      rw [List.dropLast_cons_of_ne_nil more]
      exact ⟨k.entries ++ s, last, d₁, d', arrivals, by simp [split], first.append second, third,
        by rw [List.map_cons, all, List.map_cons, List.cons_append]⟩

/-- The receiver before the last flag and after it. -/
theorem packets_around_flag (ready : Synced p ∨ Fresh p packets)
    (sound : Packet.AllSound p.inAccm packets) (ne : packets ≠ []) :
    ∃ s last p₁ rs₁ p₂ rs₂, packets.flatMap Packet.entries = s ++ [(pppFlag, last)] ∧
      receiver.run p (receives s) = .ok (p₁, rs₁) ∧
      rs₁.reduceOption = packets.dropLast.map Packet.arrival ∧
      receiver.run p (receives (s ++ [(pppFlag, last)])) = .ok (p₂, rs₂) ∧
      rs₂.reduceOption = packets.map Packet.arrival := by
  have regular : Regular p.inAccm := ready.elim Synced.regular Fresh.regular
  have between : Inside p.inAccm [] (.between p) := ⟨rfl, rfl, rfl, rfl⟩
  obtain ⟨s, last, d₁, d', arrivals, split, ⟨rs, run, results⟩, ⟨rs', run', results'⟩, all⟩ :=
    Packet.lastFlag between regular sound ne
  have whole : deframer.run (.between p) (receives (packets.flatMap Packet.entries)) =
      .ok (d', rs ++ rs') := by
    rw [split, receives, List.map_append]
    exact Machine.run_append run run'
  obtain ⟨d, tracks, whole'⟩ := exists_follows ready sound ne whole
  rw [split] at whole'
  obtain ⟨p₂, done', -⟩ := tracks.follows whole'
  rw [receives, List.map_append] at whole'
  obtain ⟨d₂, rs₁, rs₂, first, -, same⟩ := Machine.run_append_inv whole'
  -- the results of the first part are as many as its characters
  have lengths : rs.length = rs₁.length := by
    rw [Machine.length_run run, Machine.length_run first]
  obtain ⟨rfl, -⟩ := List.append_inj same lengths
  obtain ⟨p₁, done, -⟩ := tracks.follows first
  refine ⟨s, last, p₁, rs, p₂, rs ++ rs', split, done, results, done', ?_⟩
  rw [List.reduceOption_append, results, results', all]

/-- Packets that are received in data mode reach `ppp_input` once each and in order, however
`sio_read` cuts their bytes, if none of the chunks is lost. Only the last of them may have to wait,
and then its flag is the one byte that the port has kept. -/
theorem packets_through_port (ppp : Modem.Ppp P R) (len : ℕ) (pos : 1 ≤ len)
    (bound : len ≤ Modem.arrRxCharSize) (port : Port P) (mode : port.rnsm = .enterPpp)
    (empty : port.arrRxCharNb = 0) (p : Pppos) (packets : List Packet)
    (ready : Synced p ∨ Fresh p packets) (sound : Packet.AllSound p.inAccm packets)
    (received : List (UInt8 × Modem.Locals))
    (bytes : received.map Prod.fst = packets.flatMap Packet.wire) (data : ℕ → UInt8) :
    ∃ port' data' chunks rest arrived,
      sioReads ppp len received port data = .ok (port', data') ∧
      port'.input = port.input ++ List.map (List.map Prod.fst) chunks ∧
      packets.flatMap Packet.entries = chunks.flatten ++ rest ∧
      (rest = [] ∧ arrived = packets ∨
        (∃ last, rest = [(pppFlag, last)]) ∧ arrived = packets.dropLast) ∧
      ∀ calls : List (Posting × List (UInt8 × Around)), calls.map Prod.snd = chunks →
        (∀ call ∈ calls, call.1.accepts = true) →
        ∃ p' inps, ppposRxThread calls p = .ok (p', inps) ∧
          inps.map chainBytes = arrived.map Packet.arrival := by
  have same : received.map Prod.fst = (packets.flatMap Packet.entries).map Prod.fst := by
    rw [bytes, Packet.map_fst_flatMap sound]
  obtain ⟨port', data', chunks, rest, done, input, split, -, unfinished⟩ :=
    exists_chunks ppp pos bound mode empty same data
  by_cases ne : packets = []
  · subst ne
    obtain ⟨nothing, rfl⟩ := List.append_eq_nil_iff.mp split.symm
    refine ⟨port', data', chunks, [], [], done, input, split, .inl ⟨rfl, rfl⟩, ?_⟩
    rintro calls rfl accepted
    refine ⟨p, [], ?_, rfl⟩
    rw [ppposRxThread_of_accepted accepted, nothing]
    rfl
  · obtain ⟨s, last, p₁, rs, p', rs', whole, before, results, run, results'⟩ :=
      packets_around_flag ready sound ne
    rcases rest_of_flag unfinished (whole.symm.trans split) with ⟨rfl, all⟩ | ⟨rfl, part⟩
    · obtain ⟨inps, taken, passed⟩ := ppposInput_of_run run
      refine ⟨port', data', chunks, [], packets, done, input, split, .inl ⟨rfl, rfl⟩, ?_⟩
      rintro calls rfl accepted
      refine ⟨p', inps, ?_, passed.trans results'⟩
      rw [ppposRxThread_of_accepted accepted, all, taken]
    · obtain ⟨inps, taken, passed⟩ := ppposInput_of_run before
      refine ⟨port', data', chunks, _, _, done, input, split, .inr ⟨⟨last, rfl⟩, rfl⟩, ?_⟩
      rintro calls rfl accepted
      refine ⟨p₁, inps, ?_, passed.trans results⟩
      rw [ppposRxThread_of_accepted accepted, part, taken]

/-- A port in data mode, with an empty line buffer. -/
def dataMode {P : Type} (ppp : P) : Port P :=
  { Port.start (R := Unit) ⟨ppp, .ret, fun _ => .ret⟩ ⟨0, 0, fun _ => 0⟩ with rnsm := .enterPpp }

/-- The bytes come with local variables that are all zero. -/
def withLocals (bytes : List UInt8) : List (UInt8 × Modem.Locals) :=
  bytes.map fun c => (c, ⟨0, 0, fun _ => 0⟩)

theorem map_fst_withLocals (bytes : List UInt8) : (withLocals bytes).map Prod.fst = bytes := by
  simp [withLocals, Function.comp_def]

theorem packets_through_port_first :
    ∃ port' data' chunks rest arrived,
      sioReads Modem.silentPpp rxThreadLen (withLocals (firstPackets.flatMap Packet.wire))
        (dataMode ()) (fun _ => 0) = .ok (port', data') ∧
      port'.input = [] ++ List.map (List.map Prod.fst) chunks ∧
      firstPackets.flatMap Packet.entries = chunks.flatten ++ rest ∧
      (rest = [] ∧ arrived = firstPackets ∨
        (∃ last, rest = [(pppFlag, last)]) ∧ arrived = firstPackets.dropLast) ∧
      ∀ calls : List (Posting × List (UInt8 × Around)), calls.map Prod.snd = chunks →
        (∀ call ∈ calls, call.1.accepts = true) →
        ∃ p' inps, ppposRxThread calls ppposConnect = .ok (p', inps) ∧
          inps.map chainBytes = arrived.map Packet.arrival :=
  packets_through_port Modem.silentPpp rxThreadLen (by decide) (by decide) (dataMode ()) rfl rfl
    ppposConnect firstPackets (.inr fresh_firstPackets) sound_firstPackets _
    (map_fst_withLocals _) (fun _ => 0)

/-! ### When the last packet waits -/

/-- A frame has no flag inside. -/
theorem flag_not_mem_stuff (regular : Regular outAccm) (bytes : List UInt8) :
    pppFlag ∉ stuff outAccm bytes := by
  induction bytes with
  | nil => simp [stuff]
  | cons c bytes ih =>
    rw [stuff_cons, List.mem_append, not_or]
    refine ⟨?_, ih⟩
    have special : escapeP outAccm pppFlag = true := regular.flag
    by_cases escaped : escapeP outAccm c = true
    · -- the second character of the pair is not special, as the flag is
      have common := regular.trans regular escaped
      intro mem
      simp only [encoded, escaped, Bool.and_self, if_true, List.mem_cons, List.not_mem_nil,
        or_false] at mem
      rcases mem with escape | flag
      · exact absurd escape (by decide)
      · rw [← flag, special] at common
        cases common
    · intro mem
      simp only [encoded, escaped, Bool.and_false, Bool.false_eq_true, if_false,
        List.mem_singleton] at mem
      exact escaped (mem ▸ special)

/-- A chunk that ends before the flag is full. -/
theorem length_of_chunk {chunk body : List UInt8} (is : Modem.Chunk len chunk)
    (noFlag : pppFlag ∉ (chunk ++ body).tail) : chunk.length = len := by
  rcases is.ends with ⟨long, flag⟩ | full
  · obtain ⟨init, rfl⟩ := List.getLast?_eq_some_iff.mp flag
    obtain ⟨first, init', rfl⟩ := List.exists_cons_of_length_pos
      (show 0 < init.length by simpa using long)
    exact absurd (by simp [pppFlag]) noFlag
  · exact full

/-- Which of the bytes of a frame are left over when they are cut from an empty buffer on. -/
theorem pending_eq (two : 2 ≤ len) {chunks : List (List UInt8)} {body pending : List UInt8}
    (all : ∀ chunk ∈ chunks, Modem.Chunk len chunk) (unfinished : Modem.Unfinished len pending)
    (noFlag : pppFlag ∉ body.tail) (split : body ++ [pppFlag] = chunks.flatten ++ pending) :
    pending = if (body ++ [pppFlag]).length % len = 1 then [pppFlag] else [] := by
  induction chunks generalizing body with
  | nil =>
    rw [List.flatten_nil, List.nil_append] at split
    subst split
    have first : body = [] := by
      by_contra ne
      have pos : 1 ≤ body.length := List.length_pos_iff.mpr ne
      refine unfinished.noFlag body.length pos ?_
      simp [pppFlag]
    subst first
    have one : ([] ++ [pppFlag]).length % len = 1 := Nat.mod_eq_of_lt two
    rw [if_pos one]
    rfl
  | cons chunk chunks ih =>
    have is := all chunk List.mem_cons_self
    have le := is.le
    rw [List.flatten_cons, List.append_assoc] at split
    rcases List.eq_nil_or_concat (chunks.flatten ++ pending) with nothing | ⟨body', flag, more⟩
    · -- the flag is in this chunk
      obtain ⟨-, rfl⟩ := List.append_eq_nil_iff.mp nothing
      rw [nothing, List.append_nil] at split
      have more : 2 ≤ chunk.length := by
        rcases is.ends with ⟨long, -⟩ | full
        · exact long
        · omega
      rw [split, if_neg]
      rcases le.lt_or_eq with lt | eq
      · rw [Nat.mod_eq_of_lt lt]
        omega
      · rw [eq, Nat.mod_self]
        omega
    · rw [more, List.concat_eq_append, ← List.append_assoc] at split
      obtain ⟨rfl, rfl⟩ := List.append_singleton_inj.mp split
      have full := length_of_chunk is noFlag
      have inner : pppFlag ∉ body'.tail := by
        intro mem
        refine noFlag ?_
        rw [List.tail_append_of_ne_nil (List.ne_nil_of_length_pos is.pos)]
        exact List.mem_append_right _ (List.mem_of_mem_tail mem)
      have rest := ih (fun other mem => all other (List.mem_cons_of_mem _ mem)) inner
        (by rw [more, List.concat_eq_append])
      have length : (chunk ++ body' ++ [pppFlag]).length % len =
          (body' ++ [pppFlag]).length % len := by
        rw [List.append_assoc, List.length_append, full, Nat.add_mod_left]
      rw [rest, length]

/-- The bytes of a packet have flags at their ends only. -/
theorem Packet.exists_body {k : Packet} (sound : k.Sound inAccm) :
    ∃ body, k.wire = body ++ [pppFlag] ∧ pppFlag ∉ body.tail := by
  refine ⟨_, wire_eq sound.hasPbuf, ?_⟩
  have inner := flag_not_mem_stuff sound.regular (k.content ++ fcsBytes (fcsOf k.content))
  split_ifs
  · exact inner
  · rw [List.nil_append]
    exact fun mem => inner (List.mem_of_mem_tail mem)

/-- A packet that is received into an empty line buffer, and of which no chunk is lost, is held
back exactly when its bytes are one more than a multiple of the size of the buffer of the caller:
the flag at its end is then the first byte of a chunk, and does not end it. -/
theorem packet_waits_iff (ppp : Modem.Ppp P R) (len : ℕ) (two : 2 ≤ len)
    (bound : len ≤ Modem.arrRxCharSize) (port : Port P) (mode : port.rnsm = .enterPpp)
    (empty : port.arrRxCharNb = 0) (p : Pppos) (k : Packet) (ready : Synced p ∨ Fresh p [k])
    (sound : k.Sound p.inAccm) (received : List (UInt8 × Modem.Locals))
    (bytes : received.map Prod.fst = k.wire) (data : ℕ → UInt8) :
    ∃ port' data' chunks, sioReads ppp len received port data = .ok (port', data') ∧
      port'.input = port.input ++ List.map (List.map Prod.fst) chunks ∧
      ∀ calls : List (Posting × List (UInt8 × Around)), calls.map Prod.snd = chunks →
        (∀ call ∈ calls, call.1.accepts = true) →
        ∃ p' inps, ppposRxThread calls p = .ok (p', inps) ∧
          inps.map chainBytes = if k.wire.length % len = 1 then [] else [k.arrival] := by
  have same : received.map Prod.fst = k.entries.map Prod.fst := by
    rw [bytes, Packet.map_fst_entries sound]
  obtain ⟨port', data', chunks, rest, done, input, split, all, unfinished⟩ :=
    exists_chunks ppp (Nat.le_of_succ_le two) bound mode empty same data
  obtain ⟨s, last, p₁, rs, p₂, rs', whole, before, results, run, results'⟩ :=
    packets_around_flag ready ⟨sound, trivial⟩ (List.cons_ne_nil k [])
  rw [List.flatMap_cons, List.flatMap_nil, List.append_nil] at whole
  obtain ⟨body, wire, noFlag⟩ := Packet.exists_body sound
  -- what is left over of the bytes
  have cut : body ++ [pppFlag] = (chunks.map (List.map Prod.fst)).flatten ++ rest.map Prod.fst := by
    rw [← wire, ← Packet.map_fst_entries sound, split, List.map_append, List.map_flatten]
  have pending := pending_eq two (by simpa using all) unfinished noFlag cut
  rw [← wire] at pending
  rcases rest_of_flag unfinished (whole.symm.trans split) with ⟨rfl, front⟩ | ⟨rfl, front⟩
  · have passes : ¬ k.wire.length % len = 1 := by
      intro one
      rw [if_pos one] at pending
      cases pending
    obtain ⟨inps, taken, passed⟩ := ppposInput_of_run run
    refine ⟨port', data', chunks, done, input, ?_⟩
    rintro calls rfl accepted
    refine ⟨p₂, inps, by rw [ppposRxThread_of_accepted accepted, front, taken], ?_⟩
    rw [if_neg passes, passed, results']
    rfl
  · have waits : k.wire.length % len = 1 := by
      by_contra not
      rw [if_neg not] at pending
      cases pending
    obtain ⟨inps, taken, passed⟩ := ppposInput_of_run before
    refine ⟨port', data', chunks, done, input, ?_⟩
    rintro calls rfl accepted
    refine ⟨p₁, inps, by rw [ppposRxThread_of_accepted accepted, front, taken], ?_⟩
    rw [if_pos waits, passed, results]
    rfl

/-- A packet of 129 bytes on the line. -/
def longPacket : Packet :=
  ⟨ppposConnect, ⟨true, 5, 7⟩, 0xc021, [List.replicate 122 0x55], List.replicate 129 ⟨0, []⟩⟩

theorem packet_waits_iff_longPacket :
    longPacket.wire.length = 129 ∧ ∃ port' data' chunks,
      sioReads Modem.silentPpp rxThreadLen (withLocals longPacket.wire) (dataMode ())
        (fun _ => 0) = .ok (port', data') ∧
      port'.input = [] ++ List.map (List.map Prod.fst) chunks ∧
      ∀ calls : List (Posting × List (UInt8 × Around)), calls.map Prod.snd = chunks →
        (∀ call ∈ calls, call.1.accepts = true) →
        ∃ p' inps, ppposRxThread calls ppposConnect = .ok (p', inps) ∧
          inps.map chainBytes = [] := by
  have length : longPacket.wire.length = 129 := by decide +kernel
  have sound : longPacket.Sound ppposConnect.inAccm :=
    ⟨rfl, regular_connectAccm, fun _ special => special, ⟨by decide, by decide, nofun⟩,
      length.symm, by decide +kernel, nofun⟩
  have fresh : Fresh ppposConnect [longPacket] :=
    ⟨rfl, regular_connectAccm, rfl, ⟨rfl, rfl⟩, rfl, fun k first => by
      cases first
      exact .inl rfl⟩
  obtain ⟨port', data', chunks, done, input, passed⟩ :=
    packet_waits_iff Modem.silentPpp rxThreadLen (by decide) (by decide) (dataMode ()) rfl rfl
      ppposConnect longPacket (.inr fresh) sound _ (map_fst_withLocals _) (fun _ => 0)
  have one : 129 % rxThreadLen = 1 := rfl
  rw [length, if_pos one] at passed
  exact ⟨length, port', data', chunks, done, input, passed⟩

/-! ### What is sent -/

/-- In data mode `sio_write` takes everything. -/
theorem run_of_data (mode : port.rnsm = .enterPpp) (call : PppCall P) (log : List (List UInt8)) :
    ∃ pieces, (call.answer (fun _ piece => piece.length) log).1 = log ++ pieces ∧
      (call.run port).uart = port.uart ++ pieces.map .frame ∧
      (call.run port).ppp = (call.answer (fun _ piece => piece.length) log).2 := by
  induction call generalizing port log with
  | ret q => exact ⟨[], by simp [PppCall.answer], by simp [PppCall.run], rfl⟩
  | output piece resume ih =>
    have taken : (Modem.sioWrite port piece).2 = piece.length := by simp [Modem.sioWrite, mode]
    have sent : (Modem.sioWrite port piece).1.uart = port.uart ++ [.frame piece] := by
      simp [Modem.sioWrite, mode]
    have mode' : (Modem.sioWrite port piece).1.rnsm = .enterPpp := by simp [Modem.sioWrite, mode]
    obtain ⟨pieces, logged, uart, result⟩ := ih piece.length mode' (log ++ [piece])
    refine ⟨piece :: pieces, ?_, ?_, ?_⟩
    · rw [PppCall.answer, logged, List.append_assoc, List.singleton_append]
    · rw [PppCall.run, taken, uart, sent, List.append_assoc]
      rfl
    · rw [PppCall.run, taken, result, PppCall.answer]

/-- In the other modes it takes nothing. -/
theorem run_of_command (mode : port.rnsm ≠ .enterPpp) (call : PppCall P)
    (log : List (List UInt8)) :
    (call.run port).uart = port.uart ∧
      (call.run port).ppp = (call.answer (fun _ _ => 0) log).2 := by
  induction call generalizing port log with
  | ret q => exact ⟨rfl, rfl⟩
  | output piece resume ih =>
    have refused : (Modem.sioWrite port piece).2 = 0 := by simp [Modem.sioWrite, mode]
    have kept : (Modem.sioWrite port piece).1.uart = port.uart := by simp [Modem.sioWrite, mode]
    have mode' : (Modem.sioWrite port piece).1.rnsm ≠ .enterPpp := by simp [Modem.sioWrite, mode]
    obtain ⟨uart, result⟩ := ih 0 mode' (log ++ [piece])
    rw [PppCall.run, refused, PppCall.answer]
    exact ⟨uart.trans kept, result⟩

/-- A callback that takes nothing makes every frame fail. -/
theorem interface_of_refused {sent : List UInt8} {err : Err} {pieces : List (List UInt8)}
    (outcome : Outcome (fun _ _ => 0) sent err pieces) (ne : sent ≠ []) : err = .interface := by
  obtain ⟨fits, ⟨-, accepted, rfl⟩ | ⟨failed, -⟩⟩ := outcome
  · cases accepted with
    | nil => exact absurd rfl ne
    | concat before all =>
      have empty : _ = [] := List.eq_nil_of_length_eq_zero all.symm
      exact absurd empty (fits _ (List.mem_append_right _ List.mem_cons_self)).1
  · exact failed

/-- A call that sends a frame, through the port: the frame goes out whole in data mode, and
nothing of it in the other modes. -/
theorem run_of_sent {call : PppCall (Err × Pppos)} {m : Moment} {content : List UInt8}
    (sent : ∀ reply, Sent reply m p content (call.answer reply [])) (after : Pppos → P)
    (port : Port P) :
    let call' : PppCall P := do
      let r ← call
      return after r.2
    if port.rnsm = .enterPpp then
      ∃ pieces, (call'.run port).uart = port.uart ++ pieces.map .frame ∧ Fits pieces ∧
        pieces.flatten = line (idleFlag p m.before) p.outAccm content ∧
        (call'.run port).ppp = after { p with lastXmit := m.after }
    else (call'.run port).uart = port.uart ∧
      (call'.run port).ppp = after { p with lastXmit := 0 } := by
  intro call'
  split_ifs with mode
  · -- a callback that takes everything cannot have refused a piece
    obtain ⟨pieces, logged, uart, result⟩ := run_of_data mode call' []
    obtain ⟨⟨fits, outcome⟩, stamped⟩ := sent fun _ piece => piece.length
    rw [PppCall.answer_bind, PppCall.answer_pure] at logged result
    rw [List.nil_append] at logged
    refine ⟨pieces, uart, ?_⟩
    rw [result]
    rcases outcome with ⟨ok, -, whole⟩ | ⟨-, ⟨before, piece, -, -, refused⟩, -⟩
    · rw [logged] at fits whole
      refine ⟨fits, whole, ?_⟩
      rw [stamped, ok]
      rfl
    · exact absurd rfl refused
  · -- one that takes nothing refuses the first
    obtain ⟨uart, result⟩ := run_of_command mode call' []
    obtain ⟨outcome, stamped⟩ := sent fun _ _ => 0
    have failed := interface_of_refused outcome (by simp [line])
    refine ⟨uart, ?_⟩
    rw [result, PppCall.answer_bind, PppCall.answer_pure, stamped, failed]
    rfl

/-- A packet goes out whole or not at all: in data mode the serial line is handed a frame, and in
the other modes nothing. A failure makes the next frame start with a flag. -/
theorem output_through_port (m : Moment) (protocol : UInt16) (pb : List (List UInt8))
    (port : Port Pppos) (has : m.hasPbuf = true) :
    let call : PppCall Pppos := do
      let r ← ppposNetifOutput m protocol pb port.ppp
      return r.2
    if port.rnsm = .enterPpp then
      ∃ pieces, (call.run port).uart = port.uart ++ pieces.map .frame ∧ Fits pieces ∧
        pieces.flatten = line (idleFlag port.ppp m.before) port.ppp.outAccm
          (headerBytes port.ppp.pcomp port.ppp.accomp protocol ++ pb.flatten) ∧
        (call.run port).ppp = { port.ppp with lastXmit := m.after }
    else (call.run port).uart = port.uart ∧
      (call.run port).ppp = { port.ppp with lastXmit := 0 } :=
  run_of_sent (fun reply => ppposNetifOutput_answer reply m protocol pb port.ppp has) id port

theorem output_through_port_request :
    ∃ pieces, ((do
        let r ← ppposNetifOutput ⟨true, 5, 7⟩ 0xc021 [[0x01, 0x7e]] ppposConnect
        return r.2 : PppCall Pppos).run (dataMode ppposConnect)).uart = [] ++ pieces.map .frame ∧
      Fits pieces ∧ pieces.flatten = line false ppposConnect.outAccm
        (headerBytes false false 0xc021 ++ [0x01, 0x7e]) := by
  have sent := output_through_port ⟨true, 5, 7⟩ 0xc021 [[0x01, 0x7e]] (dataMode ppposConnect) rfl
  have mode : (dataMode ppposConnect).rnsm = .enterPpp := rfl
  simp only [if_pos mode] at sent
  obtain ⟨pieces, uart, fits, whole, -⟩ := sent
  exact ⟨pieces, uart, fits, whole⟩

end Components.Ppp
