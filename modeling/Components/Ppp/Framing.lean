import Components.Ppp.Deframer
import Components.Ppp.Output
import Mathlib.Data.List.ReduceOption

/-!
# From one end of the line to the other

Packets that `pppos_netif_output` sends are passed to `ppp_input` at the other end, each of
them once and in order, however the bytes are cut into pieces on the way. The two ends may
negotiate in between. What it takes is that the sender escapes the characters that the
receiver treats as special at that moment, that the protocol number is well formed, and that
the pool of the receiver has a buffer when one is needed.

## Main definitions

* `strip`, `protocolField` — the header of a frame, read from its front
* `WellFormed` — protocol numbers that survive the compression of the header
* `Covers` — one end escapes what the other treats as special
* `Packet` — a packet on its way

## Main results

* `header_eq_data_iff` — the parser reads an optional address, an optional control field, and a
  protocol of one or two bytes
* `Inside.body`, `Packet.arrives` — one frame
* `packets_arrive` — a sequence of packets
-/

namespace Components.Ppp

variable {frame rest payload bytes : List UInt8} {protocol : UInt16} {c : UInt8} {d : Deframer}

/-! ### The header -/

/-- Leave out a byte in front. -/
def strip (c : UInt8) : List UInt8 → List UInt8
  | [] => []
  | b :: rest => if b = c then rest else b :: rest

/-- The protocol in front of some bytes. -/
def protocolField : List UInt8 → Option (UInt16 × List UInt8)
  | [] => none
  | high :: rest =>
    if high &&& 1 ≠ 0 then some (high.toUInt16, rest)
    else match rest with
      | [] => none
      | low :: rest => some (high.toUInt16 <<< 8 ||| low.toUInt16, rest)

theorem foldl_step_data (protocol : UInt16) (payload rest : List UInt8) :
    rest.foldl Header.step (.data protocol payload) = .data protocol (payload ++ rest) := by
  induction rest generalizing payload with
  | nil => simp
  | cons c rest ih =>
    rw [List.foldl_cons, Header.step, ih]
    simp

/-- What the protocol field turns the parser into. -/
theorem foldl_step_protocol1 (rest : List UInt8) (protocol : UInt16) (payload : List UInt8) :
    rest.foldl Header.step .protocol1 = .data protocol payload ↔
      protocolField rest = some (protocol, payload) := by
  cases rest with
  | nil => simp [protocolField]
  | cons high rest =>
    rw [List.foldl_cons]
    by_cases odd : high &&& 1 ≠ 0
    · simp only [Header.step, Header.stepProtocol, protocolField, if_pos odd, foldl_step_data]
      simp
    · simp only [Header.step, Header.stepProtocol, protocolField, if_neg odd]
      cases rest with
      | nil => simp
      | cons low rest =>
        rw [List.foldl_cons, Header.step, foldl_step_data]
        simp

theorem foldl_step_control (rest : List UInt8) (protocol : UInt16) (payload : List UInt8) :
    rest.foldl Header.step .control = .data protocol payload ↔
      protocolField (strip pppUi rest) = some (protocol, payload) := by
  rw [← foldl_step_protocol1]
  cases rest with
  | nil => simp [strip]
  | cons b rest =>
    by_cases ui : b = pppUi
    · simp [strip, ui, Header.step, Header.stepControl]
    · simp [strip, ui, Header.step, Header.stepControl]

/-- The parser reads an optional address, an optional control field, and the protocol. -/
theorem header_eq_data_iff : header frame = .data protocol payload ↔
    protocolField (strip pppUi (strip pppAllstations frame)) = some (protocol, payload) := by
  rw [← foldl_step_control, header]
  cases frame with
  | nil => simp [strip]
  | cons b rest =>
    by_cases all : b = pppAllstations
    · simp [strip, all, Header.step]
    · simp [strip, all, Header.step]

/-- The protocol numbers that the receiver reads back: the last byte is odd, the one before is
even, and a lone byte is not taken for an address or a control field. -/
structure WellFormed (pcomp accomp : Bool) (protocol : UInt16) : Prop where
  odd : protocol.toUInt8 &&& 1 ≠ 0
  even : (protocol >>> 8).toUInt8 &&& 1 = 0
  plain : pcomp = true → accomp = true → protocol ≠ 0xff ∧ protocol ≠ 0x03

/-- The two bytes of a protocol number make it up. -/
theorem protocol_of_bytes (protocol : UInt16) :
    (protocol >>> 8).toUInt8.toUInt16 <<< 8 ||| protocol.toUInt8.toUInt16 = protocol := by
  refine UInt16.toBitVec_inj.mp (BitVec.eq_of_getLsbD_eq fun i inside => ?_)
  rw [UInt16.toBitVec_or, UInt16.toBitVec_shiftLeft, UInt8.toBitVec_toUInt16,
    UInt8.toBitVec_toUInt16, UInt16.toBitVec_toUInt8, UInt16.toBitVec_toUInt8,
    UInt16.toBitVec_shiftRight, BitVec.getLsbD_or]
  simp only [BitVec.ushiftRight_eq', BitVec.shiftLeft_eq', BitVec.getLsbD_shiftLeft,
    BitVec.getLsbD_setWidth, BitVec.getLsbD_ushiftRight]
  by_cases low : i < 8
  · simp [low, inside]
  · have back : 8 + (i - 8) = i := by omega
    have short : i - 8 < 8 := by omega
    have word : i - 8 < 16 := by omega
    simp [low, inside, back, short, word]

/-- A number of one byte is its last byte. -/
theorem protocol_of_byte (short : ¬ protocol > 0xff) : protocol.toUInt8.toUInt16 = protocol := by
  have bound : protocol.toNat ≤ 255 := UInt16.le_iff_toNat_le.mp (UInt16.not_lt.mp short)
  refine UInt16.toNat_inj.mp ?_
  rw [UInt8.toNat_toUInt16, UInt16.toNat_toUInt8]
  omega

theorem strip_of_ne {b : UInt8} (ne : b ≠ c) (rest : List UInt8) :
    strip c (b :: rest) = b :: rest := if_neg ne

/-- What is sent as a header is read as one. -/
theorem header_headerBytes {pcomp accomp : Bool} (valid : WellFormed pcomp accomp protocol)
    (payload : List UInt8) :
    header (headerBytes pcomp accomp protocol ++ payload) = .data protocol payload := by
  obtain ⟨odd, even, plain⟩ := valid
  rw [header_eq_data_iff]
  have number : protocolField ((if !pcomp || protocol > 0xff then [(protocol >>> 8).toUInt8]
      else []) ++ protocol.toUInt8 :: payload) = some (protocol, payload) := by
    split_ifs with long
    · simp only [List.singleton_append, protocolField, if_neg (not_not.mpr even), protocol_of_bytes]
    · have short : ¬ protocol > 0xff := fun gt => long (by simp [gt])
      simp only [List.nil_append, protocolField, if_pos odd, protocol_of_byte short]
  cases accomp with
  | false => simpa [headerBytes, strip] using number
  | true =>
    -- the number stands in front, and is not taken for another field
    have split : headerBytes pcomp true protocol ++ payload =
        (if !pcomp || protocol > 0xff then [(protocol >>> 8).toUInt8] else []) ++
          protocol.toUInt8 :: payload := by
      simp [headerBytes]
    rw [split]
    split_ifs at number ⊢ with long
    · have notAll : (protocol >>> 8).toUInt8 ≠ pppAllstations := by
        intro eq
        rw [eq] at even
        exact absurd even (by decide)
      have notUi : (protocol >>> 8).toUInt8 ≠ pppUi := by
        intro eq
        rw [eq] at even
        exact absurd even (by decide)
      rw [List.singleton_append, strip_of_ne notAll, strip_of_ne notUi]
      exact number
    · have short : ¬ protocol > 0xff := fun gt => long (by simp [gt])
      have compressed : pcomp = true := by
        by_contra not
        exact long (by simp [not])
      obtain ⟨notAll, notUi⟩ := plain compressed rfl
      rw [← protocol_of_byte short] at notAll notUi
      rw [List.nil_append, strip_of_ne, strip_of_ne]
      · exact number
      · rintro eq
        exact notUi (by rw [eq]; rfl)
      · rintro eq
        exact notAll (by rw [eq]; rfl)

/-! ### Frames -/

theorem length_fcsBytes (fcs : UInt16) : (fcsBytes fcs).length = 2 := rfl

/-- A frame with its check sequence is worth its packet. -/
theorem closeFrame_of_header (read : header frame = .data protocol payload) :
    closeFrame (frame ++ fcsBytes (fcsOf frame)) =
      .ok (some (protocolBytes protocol ++ payload)) := by
  have read' : header (frame ++ fcsBytes (fcsOf frame)) =
      .data protocol (payload ++ fcsBytes (fcsOf frame)) := by
    rw [header, List.foldl_append]
    rw [header] at read
    rw [read, foldl_step_data]
  have ne : payload ++ fcsBytes (fcsOf frame) ≠ [] := by simp [fcsBytes]
  rw [closeFrame_of_data read', if_neg (not_not.mpr (fcsOf_append_fcsBytes frame)), if_neg ne,
    ← List.append_assoc, List.length_append, length_fcsBytes, Nat.add_sub_cancel,
    List.take_left]

theorem length_payload_le (read : header frame = .data protocol payload) :
    payload.length ≤ frame.length := by
  induction frame using List.reverseRecOn generalizing protocol payload with
  | nil => cases read
  | append_singleton frame c ih =>
    rw [header_concat] at read
    cases before : header frame with
    | address | control | protocol1 =>
      rw [before] at read
      simp only [Header.step, Header.stepControl, Header.stepProtocol] at read
      split_ifs at read
      cases read
      simp
    | protocol2 high =>
      rw [before] at read
      cases read
      simp
    | data protocol' payload' =>
      rw [before] at read
      cases read
      simpa using ih before

/-- The pool has a buffer for every byte of a frame of this length. -/
def Roomy (length : ℕ) (around : Around) : Prop :=
  (2 + length) / pbufPoolBufsize + around.others < pbufPoolSize

instance (length : ℕ) : DecidablePred (Roomy length) := fun around =>
  inferInstanceAs (Decidable ((2 + length) / pbufPoolBufsize + around.others < pbufPoolSize))

theorem starves_of_roomy {length : ℕ} {around : Around} (roomy : Roomy length around)
    (short : frame.length ≤ length) : starves frame around.others = false := by
  cases read : header frame with
  | address | control | protocol1 => exact starves_of_not_data (by simp [read])
  | protocol2 high => exact starves_of_not_data (by simp [read])
  | data protocol payload =>
    have bound := length_payload_le read
    have mono : (2 + payload.length) / pbufPoolBufsize ≤ (2 + length) / pbufPoolBufsize :=
      Nat.div_le_div_right (by omega)
    unfold Roomy at roomy
    have fed : ¬ pbufPoolSize ≤ (2 + payload.length) / pbufPoolBufsize + around.others := by omega
    simp [starves, read, fed]

/-! ### Characters on the line -/

/-- The characters that a map makes special are special in another. -/
def Covers (outAccm inAccm : ExtAccm) : Prop :=
  ∀ c, escapeP inAccm c = true → escapeP outAccm c = true

/-- The deframer is inside a frame of which it has these bytes. -/
structure Inside (inAccm : ExtAccm) (frame : List UInt8) (d : Deframer) : Prop where
  opened : d.opened = true
  accm : d.accm = inAccm
  escaped : d.escaped = false
  frame : d.frame = some frame

variable {inAccm outAccm : ExtAccm} {around : Around}

/-- What an event does, and the packet it completes. -/
abbrev receives (s : List (UInt8 × Around)) : List Event :=
  s.map fun entry => .receive entry.1 entry.2

theorem Inside.plain (inside : Inside inAccm frame d) (common : escapeP inAccm c = false)
    (fed : starves frame around.others = false) :
    ∃ d', d.receive c around = .ok (d', none) ∧ Inside inAccm (frame ++ [c]) d' := by
  obtain ⟨opened, accm, escaped, start⟩ := inside
  refine ⟨{ d with escaped := false, frame := some (frame ++ [c]) }, ?_, opened, accm, rfl, rfl⟩
  simp [Deframer.receive, opened, accm, common, escaped, Deframer.byte, start, fed]

/-- A special character comes as two. -/
theorem Inside.escaped_pair (inside : Inside inAccm frame d) (regular : Regular inAccm)
    (around : Around) (common : escapeP inAccm (c ^^^ pppTrans) = false) {around' : Around}
    (fed : starves frame around'.others = false) :
    ∃ d' d'', d.receive pppEscape around = .ok (d', none) ∧
      d'.receive (c ^^^ pppTrans) around' = .ok (d'', none) ∧
      Inside inAccm (frame ++ [c]) d'' := by
  obtain ⟨opened, accm, -, start⟩ := inside
  have back : c ^^^ pppTrans ^^^ pppTrans = c := by
    rw [UInt8.xor_assoc, UInt8.xor_self, UInt8.xor_zero]
  refine ⟨{ d with escaped := true }, { d with escaped := false, frame := some (frame ++ [c]) },
    ?_, ?_, opened, accm, rfl, rfl⟩
  · simp [Deframer.receive, opened, accm, regular.escape]
  · simp [Deframer.receive, opened, accm, common, Deframer.byte, start, fed, back]

/-- The deframer takes in these characters and delivers these packets. -/
def Delivers (d : Deframer) (s : List (UInt8 × Around)) (packets : List (List UInt8))
    (d' : Deframer) : Prop :=
  ∃ rs, deframer.run d (receives s) = .ok (d', rs) ∧ rs.reduceOption = packets

namespace Delivers

variable {s s' : List (UInt8 × Around)} {packets packets' : List (List UInt8)} {d' d'' : Deframer}

theorem nil (d : Deframer) : Delivers d [] [] d := ⟨[], rfl, rfl⟩

theorem append (first : Delivers d s packets d') (rest : Delivers d' s' packets' d'') :
    Delivers d (s ++ s') (packets ++ packets') d'' := by
  obtain ⟨rs, run, result⟩ := first
  obtain ⟨rs', run', result'⟩ := rest
  refine ⟨rs ++ rs', ?_, by rw [List.reduceOption_append, result, result']⟩
  rw [receives, List.map_append]
  exact Machine.run_append run run'

theorem single {r : Option (List UInt8)} (taken : d.receive c around = .ok (d', r)) :
    Delivers d [(c, around)] r.toList d' := by
  refine ⟨[r], Machine.run_cons taken rfl, ?_⟩
  cases r <;> rfl

end Delivers

theorem cons_of_map_fst {s : List (UInt8 × Around)} (onLine : s.map Prod.fst = c :: rest) :
    ∃ around s', s = (c, around) :: s' ∧ s'.map Prod.fst = rest := by
  obtain ⟨entry, s', rfl, rfl, more⟩ := List.map_eq_cons_iff.mp onLine
  exact ⟨entry.2, s', rfl, more⟩

/-- The bytes of a frame come through. -/
theorem Inside.stuffed (inside : Inside inAccm frame d) (regular : Regular inAccm)
    (regular' : Regular outAccm) (covers : Covers outAccm inAccm) {length : ℕ}
    {s : List (UInt8 × Around)} (onLine : s.map Prod.fst = stuff outAccm bytes)
    (roomy : ∀ entry ∈ s, Roomy length entry.2) (short : frame.length + bytes.length ≤ length) :
    ∃ d', Delivers d s [] d' ∧ Inside inAccm (frame ++ bytes) d' := by
  induction bytes generalizing frame d s with
  | nil =>
    obtain rfl : s = [] := by simpa [stuff] using onLine
    exact ⟨d, .nil d, by simpa using inside⟩
  | cons c bytes ih =>
    have within : frame.length ≤ length := by omega
    have short' : (frame ++ [c]).length + bytes.length ≤ length := by
      simp at short ⊢
      omega
    rw [stuff_cons, encoded] at onLine
    by_cases special : escapeP outAccm c = true
    · -- two characters, of which the second is not special
      rw [if_pos (by simp [special])] at onLine
      obtain ⟨around, s₁, rfl, onLine₁⟩ := cons_of_map_fst onLine
      obtain ⟨around', s₂, rfl, onLine₂⟩ := cons_of_map_fst onLine₁
      have room : Roomy length around' := roomy (c ^^^ pppTrans, around') (by simp)
      obtain ⟨d', d'', first, second, inside'⟩ := inside.escaped_pair regular around
        (regular'.trans regular special) (starves_of_roomy room within)
      obtain ⟨d₃, rest, inside₃⟩ := ih inside' onLine₂
        (fun entry mem => roomy entry (by simp [mem])) short'
      refine ⟨d₃, ((Delivers.single first).append (Delivers.single second)).append rest, ?_⟩
      simpa using inside₃
    · have common : escapeP inAccm c = false := by
        by_contra not
        exact special (covers c (by simpa using not))
      rw [if_neg (by simp [special])] at onLine
      obtain ⟨around, s₁, rfl, onLine₁⟩ := cons_of_map_fst onLine
      have room : Roomy length around := roomy (c, around) (by simp)
      obtain ⟨d', first, inside'⟩ := inside.plain common (starves_of_roomy room within)
      obtain ⟨d₃, rest, inside₃⟩ := ih inside' onLine₁
        (fun entry mem => roomy entry (by simp [mem])) short'
      refine ⟨d₃, (Delivers.single first).append rest, ?_⟩
      simpa using inside₃

/-! ### Frames on the line -/

/-- The map of the receiver after what the PPP core has done with a packet, as long as it has
not closed or opened the interface. -/
def accmAfter (accm : ExtAccm) (calls : List LinkCall) : ExtAccm :=
  calls.foldl (fun accm call =>
    match call with
    | .recvConfig negotiated => loadAccm negotiated accm
    | _ => accm) accm

/-- The interface stays open. -/
def StaysOpen (calls : List LinkCall) : Prop := ∀ call ∈ calls, call ≠ .connect ∧ call ≠ .disconnect

variable {calls : List LinkCall}

theorem foldl_call (stays : StaysOpen calls) (d : Deframer) :
    (calls.foldl Deframer.call d).opened = d.opened ∧
      (calls.foldl Deframer.call d).accm = accmAfter d.accm calls := by
  induction calls generalizing d with
  | nil => exact ⟨rfl, rfl⟩
  | cons call calls ih =>
    obtain ⟨opened, accm⟩ := ih (fun other mem => stays other (List.mem_cons_of_mem _ mem))
      (d.call call)
    obtain ⟨notConnect, notDisconnect⟩ := stays call List.mem_cons_self
    cases call with
    | connect => exact absurd rfl notConnect
    | disconnect => exact absurd rfl notDisconnect
    | sendConfig _ _ _ | recvConfig _ | output _ => exact ⟨opened, accm⟩

theorem Regular.accmAfter (regular : Regular inAccm) (calls : List LinkCall) :
    Regular (accmAfter inAccm calls) := by
  induction calls generalizing inAccm with
  | nil => exact regular
  | cons call calls ih =>
    cases call with
    | recvConfig negotiated => exact ih (regular.loadAccm negotiated)
    | connect | disconnect | sendConfig _ _ _ | output _ => exact ih regular

/-- A flag after a frame that is not passed on. -/
theorem Inside.flag_none (inside : Inside inAccm frame d) (regular : Regular inAccm)
    (worth : closeFrame frame = .ok none) (around : Around) :
    ∃ d', d.receive pppFlag around = .ok (d', none) ∧ Inside inAccm [] d' := by
  obtain ⟨opened, accm, -, start⟩ := inside
  have notEscape : pppFlag ≠ pppEscape := by decide
  refine ⟨{ d with escaped := false, frame := some [] }, ?_, opened, accm, rfl, rfl⟩
  simp [Deframer.receive, opened, accm, regular.flag, notEscape, Deframer.flag, start, worth]

/-- A flag after a frame that is passed on. -/
theorem Inside.flag_some (inside : Inside inAccm frame d) (regular : Regular inAccm)
    {packet : List UInt8} (worth : closeFrame frame = .ok (some packet))
    (stays : StaysOpen around.calls) :
    ∃ d', d.receive pppFlag around = .ok (d', some packet) ∧
      Inside (accmAfter inAccm around.calls) [] d' := by
  obtain ⟨opened, accm, -, start⟩ := inside
  have notEscape : pppFlag ≠ pppEscape := by decide
  obtain ⟨opened', accm'⟩ := foldl_call stays d
  refine ⟨{ around.calls.foldl Deframer.call d with escaped := false, frame := some [] }, ?_,
    opened'.trans opened, accm'.trans (by rw [accm]), rfl, rfl⟩
  simp [Deframer.receive, opened, accm, regular.flag, notEscape, Deframer.flag, start, worth]

/-- A frame on the line, with its leading flag or without, up to the flag at its end. -/
theorem Inside.body (inside : Inside inAccm [] d) (regular : Regular inAccm)
    (regular' : Regular outAccm) (covers : Covers outAccm inAccm) {lead : Bool}
    {s : List (UInt8 × Around)}
    (onLine : s.map Prod.fst = (if lead then [pppFlag] else []) ++ stuff outAccm frame)
    (roomy : ∀ entry ∈ s, Roomy frame.length entry.2) :
    ∃ d', Delivers d s [] d' ∧ Inside inAccm frame d' := by
  cases lead with
  | false => exact inside.stuffed regular regular' covers onLine roomy (by simp)
  | true =>
    -- the leading flag ends an empty frame
    obtain ⟨around, s', rfl, more⟩ := cons_of_map_fst onLine
    obtain ⟨d₁, first, inside₁⟩ := inside.flag_none regular rfl around
    obtain ⟨d₂, second, inside₂⟩ := inside₁.stuffed regular regular' covers more
      (fun entry mem => roomy entry (List.mem_cons_of_mem _ mem)) (by simp)
    exact ⟨d₂, (Delivers.single first).append second, inside₂⟩

/-! ### Packets -/

/-- A packet on its way: the control block it is sent from, when, and what goes on around the
receiver at each of its bytes. -/
structure Packet where
  sender : Pppos
  moment : Moment
  protocol : UInt16
  pb : List (List UInt8)
  around : List Around

namespace Packet

/-- The bytes that `pppos_netif_output` hands to a callback that takes everything. -/
def wire (k : Packet) : List UInt8 :=
  ((ppposNetifOutput k.moment k.protocol k.pb k.sender).answer (fun _ piece => piece.length)
    []).1.flatten

/-- The bytes with what goes on around them. -/
def entries (k : Packet) : List (UInt8 × Around) := k.wire.zip k.around

/-- The packet as it is passed to `ppp_input`. -/
def arrival (k : Packet) : List UInt8 := protocolBytes k.protocol ++ k.pb.flatten

/-- What the PPP core does with the packet. -/
def reaction (k : Packet) : List LinkCall := (k.around.getLast?.map Around.calls).getD []

/-- The frame without its check sequence. -/
def content (k : Packet) : List UInt8 :=
  headerBytes k.sender.pcomp k.sender.accomp k.protocol ++ k.pb.flatten

/-- Nothing keeps the packet from arriving at a receiver with this map. -/
structure Sound (k : Packet) (inAccm : ExtAccm) : Prop where
  hasPbuf : k.moment.hasPbuf = true
  regular : Regular k.sender.outAccm
  covers : Covers k.sender.outAccm inAccm
  wellFormed : WellFormed k.sender.pcomp k.sender.accomp k.protocol
  length : k.around.length = k.wire.length
  roomy : ∀ around ∈ k.around, Roomy (k.content.length + 2) around
  stays : StaysOpen k.reaction

variable {k : Packet}

theorem wire_eq (has : k.moment.hasPbuf = true) :
    k.wire = line (idleFlag k.sender k.moment.before) k.sender.outAccm k.content := by
  obtain ⟨⟨-, ⟨-, -, whole⟩ | ⟨-, ⟨before, piece, -, -, refused⟩, -⟩⟩, -⟩ :=
    ppposNetifOutput_answer (fun _ piece => piece.length) k.moment k.protocol k.pb k.sender has
  · exact whole
  · exact absurd rfl refused

/-- The last byte is the flag, at which the PPP core gets the packet. -/
theorem exists_last (sound : k.Sound inAccm) : ∃ s last, k.entries = s ++ [(pppFlag, last)] ∧
    last.calls = k.reaction ∧ ∀ entry ∈ s, entry.2 ∈ k.around := by
  obtain ⟨body, whole⟩ : ∃ body, k.wire = body ++ [pppFlag] :=
    ⟨_, wire_eq sound.hasPbuf⟩
  have lengths := sound.length
  have ne : k.around ≠ [] := by
    intro empty
    simp [empty, whole] at lengths
  have split : k.around = k.around.dropLast ++ [k.around.getLast ne] :=
    (List.dropLast_append_getLast ne).symm
  have same : body.length = k.around.dropLast.length := by
    simp [whole] at lengths
    simp [lengths]
  refine ⟨body.zip k.around.dropLast, k.around.getLast ne, ?_, ?_, ?_⟩
  · rw [entries, whole]
    conv_lhs => rw [split]
    rw [List.zip_append same]
    rfl
  · simp [reaction, List.getLast?_eq_some_getLast ne]
  · intro entry mem
    rw [split]
    exact List.mem_append_left _ (List.of_mem_zip mem).2

/-- One packet: nothing is delivered before the flag at its end. -/
theorem arrives_at_flag (inside : Inside inAccm [] d) (regular : Regular inAccm)
    (sound : k.Sound inAccm) : ∃ s last d₁ d', k.entries = s ++ [(pppFlag, last)] ∧
      Delivers d s [] d₁ ∧ Delivers d₁ [(pppFlag, last)] [k.arrival] d' ∧
      Inside (accmAfter inAccm k.reaction) [] d' := by
  obtain ⟨s, last, split, reacts, among⟩ := exists_last sound
  have onLine : k.entries.map Prod.fst =
      line (idleFlag k.sender k.moment.before) k.sender.outAccm k.content := by
    rw [entries, List.map_fst_zip sound.length.ge, wire_eq sound.hasPbuf]
  rw [split, List.map_append, line] at onLine
  have worth : closeFrame (k.content ++ fcsBytes (fcsOf k.content)) = .ok (some k.arrival) :=
    closeFrame_of_header (header_headerBytes sound.wellFormed _)
  have size : (k.content ++ fcsBytes (fcsOf k.content)).length = k.content.length + 2 := by
    rw [List.length_append, length_fcsBytes]
  obtain ⟨d₁, first, inside₁⟩ := inside.body regular sound.regular sound.covers
    (List.append_inj' onLine rfl).1
    fun entry mem => size ▸ sound.roomy entry.2 (among entry mem)
  obtain ⟨d', second, inside'⟩ := inside₁.flag_some regular worth (reacts ▸ sound.stays)
  exact ⟨s, last, d₁, d', split, first, Delivers.single second, reacts ▸ inside'⟩

/-- One packet. -/
theorem arrives (inside : Inside inAccm [] d) (regular : Regular inAccm)
    (sound : k.Sound inAccm) : ∃ d', Delivers d k.entries [k.arrival] d' ∧
      Inside (accmAfter inAccm k.reaction) [] d' := by
  obtain ⟨s, last, d₁, d', split, first, second, inside'⟩ := arrives_at_flag inside regular sound
  exact ⟨d', split ▸ first.append second, inside'⟩

/-- Nothing keeps any of the packets from arriving. The map of the receiver is the one after
what the PPP core has done with the packets before. -/
def AllSound : ExtAccm → List Packet → Prop
  | _, [] => True
  | inAccm, k :: packets => k.Sound inAccm ∧ AllSound (accmAfter inAccm k.reaction) packets

/-- The map of the receiver after all of the packets. -/
def accmAtEnd : ExtAccm → List Packet → ExtAccm
  | inAccm, [] => inAccm
  | inAccm, k :: packets => accmAtEnd (accmAfter inAccm k.reaction) packets

theorem regular_accmAtEnd (regular : Regular inAccm) (packets : List Packet) :
    Regular (accmAtEnd inAccm packets) := by
  induction packets generalizing inAccm with
  | nil => exact regular
  | cons k packets ih => exact ih (regular.accmAfter k.reaction)

theorem allArrive {packets : List Packet} (inside : Inside inAccm [] d) (regular : Regular inAccm)
    (sound : AllSound inAccm packets) :
    ∃ d', Delivers d (packets.flatMap entries) (packets.map arrival) d' ∧
      Inside (accmAtEnd inAccm packets) [] d' := by
  induction packets generalizing inAccm d with
  | nil => exact ⟨d, .nil d, inside⟩
  | cons k packets ih =>
    obtain ⟨d₁, first, inside₁⟩ := arrives inside regular sound.1
    obtain ⟨d₂, rest, inside₂⟩ := ih inside₁ (regular.accmAfter k.reaction) sound.2
    exact ⟨d₂, first.append rest, inside₂⟩

end Packet

/-- The receiver is between two frames. -/
structure Synced (p : Pppos) : Prop where
  opened : p.opened = true
  regular : Regular p.inAccm
  escaped : p.inEscaped = false
  empty : NoBuffers p
  state : p.inState = .start ∨ p.inState = .address ∧ p.inFcs = pppInitFcs

/-- The receiver has just been connected, and the first packet starts with a flag or with its
address field. -/
structure Fresh (p : Pppos) (packets : List Packet) : Prop where
  opened : p.opened = true
  regular : Regular p.inAccm
  escaped : p.inEscaped = false
  empty : NoBuffers p
  state : p.inState = .idle
  first : ∀ k, packets.head? = some k →
    k.sender.accomp = false ∨ idleFlag k.sender k.moment.before = true

variable {p : Pppos} {packets : List Packet}

/-- The deframer that the receiver follows between two frames. -/
def Deframer.between (p : Pppos) : Deframer := ⟨true, p.inAccm, false, some []⟩

theorem Synced.tracks (synced : Synced p) : Tracks p (.between p) where
  opened := synced.opened
  accm := rfl
  escaped _ := synced.escaped
  idle _ none := by cases none
  parsing _ frame start := by
    cases start
    exact ⟨synced.empty, synced.state⟩

theorem synced_of_tracks (tracks : Tracks p d) (inside : Inside inAccm [] d)
    (regular : Regular inAccm) : Synced p := by
  obtain ⟨empty, state⟩ := tracks.parsing inside.opened [] inside.frame
  exact ⟨tracks.opened.trans inside.opened, by rwa [tracks.accm, inside.accm],
    (tracks.escaped inside.opened).trans inside.escaped, empty, state⟩

/-- The receiver follows the deframer. -/
theorem Tracks.follows (tracks : Tracks p d) {s : List Event} {d' : Deframer}
    {rs : List (Option (List UInt8))} (run : deframer.run d s = .ok (d', rs)) :
    ∃ p', receiver.run p s = .ok (p', rs) ∧ Tracks p' d' := by
  have same := Machine.run_lockstep (fun _ _ event tracks => Tracks.step tracks event) tracks s
  rw [run] at same
  exact same.exists_ok

/-- From one boundary between frames to another. -/
theorem Synced.follows (synced : Synced p) {s : List (UInt8 × Around)} {d' : Deframer}
    {arrivals : List (List UInt8)} (delivers : Delivers (.between p) s arrivals d')
    (inside : Inside inAccm [] d') (regular : Regular inAccm) :
    ∃ p' rs, receiver.run p (receives s) = .ok (p', rs) ∧ rs.reduceOption = arrivals ∧
      Synced p' := by
  obtain ⟨rs, run, results⟩ := delivers
  obtain ⟨p', run', tracks⟩ := synced.tracks.follows run
  exact ⟨p', rs, run', results, synced_of_tracks tracks inside regular⟩

/-- The first character of a frame does the same before the first flag as after it. -/
theorem receive_first (opened : d.opened = true) (regular : Regular d.accm)
    (escaped : d.escaped = false) (none : d.frame = none)
    (starts : c = pppFlag ∨ c = pppAllstations) (around : Around) :
    d.receive c around = Deframer.receive { d with frame := some [] } c around := by
  rcases starts with rfl | rfl
  · have notEscape : pppFlag ≠ pppEscape := by decide
    have nothing : closeFrame [] = .ok Option.none := rfl
    simp [Deframer.receive, opened, regular.flag, notEscape, Deframer.flag, none, nothing]
  · have common : escapeP d.accm pppAllstations = false := by
      rw [regular _ (by decide)]
      decide
    have fed : starves [] around.others = false := rfl
    simp [Deframer.receive, opened, common, escaped, Deframer.byte, none, fed]

/-- The first character of a packet that starts with a flag or with its address field. -/
theorem Packet.exists_first {k : Packet} (sound : k.Sound inAccm)
    (first : k.sender.accomp = false ∨ idleFlag k.sender k.moment.before = true) :
    ∃ c around s, k.entries = (c, around) :: s ∧ (c = pppFlag ∨ c = pppAllstations) := by
  have onLine : k.entries.map Prod.fst =
      line (idleFlag k.sender k.moment.before) k.sender.outAccm k.content := by
    rw [entries, List.map_fst_zip sound.length.ge, wire_eq sound.hasPbuf]
  by_cases lead : idleFlag k.sender k.moment.before = true
  · rw [lead, line, if_pos rfl] at onLine
    obtain ⟨around, s, split, -⟩ := cons_of_map_fst onLine
    exact ⟨pppFlag, around, s, split, .inl rfl⟩
  · have whole : k.sender.accomp = false := first.resolve_right lead
    have common : escapeP k.sender.outAccm pppAllstations = false := by
      rw [sound.regular _ (by decide)]
      decide
    rw [line, if_neg lead, content, headerBytes, whole] at onLine
    simp only [Bool.not_false, if_true, List.cons_append, stuff_cons, encoded, common,
      Bool.and_false, Bool.false_eq_true, if_false, List.nil_append] at onLine
    obtain ⟨around, s, split, -⟩ := cons_of_map_fst onLine
    exact ⟨pppAllstations, around, s, split, .inr rfl⟩

/-- What is delivered between two frames is delivered before the first flag. -/
theorem Fresh.follows (fresh : Fresh p packets) (sound : Packet.AllSound p.inAccm packets)
    (ne : packets ≠ []) {d' : Deframer} {rs : List (Option (List UInt8))}
    (run : deframer.run (.between p) (receives (packets.flatMap Packet.entries)) = .ok (d', rs)) :
    ∃ d, Tracks p d ∧
      deframer.run d (receives (packets.flatMap Packet.entries)) = .ok (d', rs) := by
  obtain ⟨k, others, rfl⟩ := List.exists_cons_of_ne_nil ne
  obtain ⟨c, around, s, split, starts⟩ := Packet.exists_first sound.1 (fresh.first k rfl)
  refine ⟨⟨true, p.inAccm, false, none⟩, ⟨fresh.opened, rfl, fun _ => fresh.escaped,
    fun _ _ => ⟨fresh.empty, fresh.state⟩, nofun⟩, ?_⟩
  rw [List.flatMap_cons, split] at run ⊢
  obtain ⟨d₁, r, rs', first, rest, rfl⟩ := Machine.run_cons_inv run
  have same := receive_first (d := ⟨true, p.inAccm, false, none⟩) rfl fresh.regular rfl rfl starts
    around
  exact Machine.run_cons (same.trans first) rest

/-- A run that starts between two frames, seen from where the receiver is. -/
theorem exists_follows (ready : Synced p ∨ Fresh p packets)
    (sound : Packet.AllSound p.inAccm packets) (ne : packets ≠ []) {d' : Deframer}
    {rs : List (Option (List UInt8))}
    (run : deframer.run (.between p) (receives (packets.flatMap Packet.entries)) = .ok (d', rs)) :
    ∃ d, Tracks p d ∧
      deframer.run d (receives (packets.flatMap Packet.entries)) = .ok (d', rs) := by
  rcases ready with synced | fresh
  · exact ⟨_, synced.tracks, run⟩
  · exact fresh.follows sound ne run

/-- Packets that `pppos_netif_output` has sent are passed to `ppp_input` by `pppos_input`, all
of them, once, and in order. -/
theorem packets_arrive (p : Pppos) (packets : List Packet) (ready : Synced p ∨ Fresh p packets)
    (sound : Packet.AllSound p.inAccm packets) :
    ∃ p' rs, receiver.run p (receives (packets.flatMap Packet.entries)) = .ok (p', rs) ∧
      rs.reduceOption = packets.map Packet.arrival ∧ (packets ≠ [] → Synced p') := by
  by_cases ne : packets = []
  · subst ne
    exact ⟨p, [], rfl, rfl, fun ne => absurd rfl ne⟩
  · have regular : Regular p.inAccm := ready.elim Synced.regular Fresh.regular
    obtain ⟨d', ⟨rs, run, results⟩, inside⟩ := Packet.allArrive (d := .between p)
      ⟨rfl, rfl, rfl, rfl⟩ regular sound
    obtain ⟨d, tracks, run'⟩ := exists_follows ready sound ne run
    obtain ⟨p', done, tracks'⟩ := tracks.follows run'
    exact ⟨p', rs, done, results, fun _ =>
      synced_of_tracks tracks' inside (Packet.regular_accmAtEnd regular packets)⟩

/-- Two packets to a receiver that has just been connected: the second has its header
compressed, and both hold a flag character. -/
def firstPackets : List Packet :=
  [⟨ppposConnect, ⟨true, 5, 7⟩, 0xc021, [[0x01, 0x7e], [0x03]], List.replicate 11 ⟨0, []⟩⟩,
    ⟨{ ppposConnect with lastXmit := 7, pcomp := true, accomp := true }, ⟨true, 200, 201⟩, 0x21,
      [[0x45, 0x7d, 0x7e]], List.replicate 10 ⟨3, []⟩⟩]

theorem sound_firstPackets : Packet.AllSound ppposConnect.inAccm firstPackets :=
  ⟨⟨rfl, regular_connectAccm, fun _ special => special, ⟨by decide, by decide, nofun⟩,
    by decide +kernel, by decide +kernel, nofun⟩, ⟨rfl, regular_connectAccm,
    fun _ special => special, ⟨by decide, by decide, fun _ _ => by decide⟩, by decide +kernel,
    by decide +kernel, nofun⟩, trivial⟩

theorem fresh_firstPackets : Fresh ppposConnect firstPackets :=
  ⟨rfl, regular_connectAccm, rfl, ⟨rfl, rfl⟩, rfl, fun k first => by
    cases first
    exact .inl rfl⟩

theorem packets_arrive_first :
    Packet.AllSound ppposConnect.inAccm firstPackets ∧
    ∃ p' rs, receiver.run ppposConnect (receives (firstPackets.flatMap Packet.entries)) =
        .ok (p', rs) ∧
      rs.reduceOption = [[0xc0, 0x21, 0x01, 0x7e, 0x03], [0x00, 0x21, 0x45, 0x7d, 0x7e]] ∧
      (firstPackets ≠ [] → Synced p') :=
  ⟨sound_firstPackets,
    packets_arrive ppposConnect firstPackets (.inr fresh_firstPackets) sound_firstPackets⟩

end Components.Ppp
