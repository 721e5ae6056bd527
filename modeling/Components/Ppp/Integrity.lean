import Components.Ppp.Framing

/-!
# What the receiver lets through

Every frame that is passed on has a header and ends in its check sequence. Frames in which a
burst of up to sixteen bits or an odd number of bits has been inverted are not passed on. A
flag puts the receiver back in step whatever came before it.

Three frames consist of a header and of the check sequence of an empty packet in such a way
that the check sequence is taken for the protocol. No buffer has been allocated when their flag
comes, and `pppos_input` goes on with a null pointer.

## Main definitions

* `crashFrames` — the three frames
* `Detectable` — the errors that the check sequence finds

## Main results

* `receiver_faults_iff` — `pppos_input` faults for the three frames and for no others
* `passed_on_is_well_formed` — what is passed on
* `corrupted_frame_is_dropped` — errors on the line
* `packets_arrive_after_noise` — back in step
* `starved_tail_is_a_frame` — when the pool runs out of buffers, the rest of a frame is taken for
  a frame
-/

namespace Components.Ppp

variable {frame payload body bytes : List UInt8} {protocol : UInt16} {c : UInt8} {d : Deframer}
  {p : Pppos} {events : List Event} {inAccm outAccm : ExtAccm}

/-! ### Faults -/

/-- The frames for which `in_tail` is used while it is `NULL`. -/
def crashFrames : List (List UInt8) := [[0x00, 0x00], [0xff, 0x00, 0xff], [0xff, 0x03, 0x1c, 0xc2]]

/-- What stands in front of the protocol. -/
theorem exists_strip (frame : List UInt8) : ∃ front ∈ [[], [pppAllstations], [pppUi],
    [pppAllstations, pppUi]], frame = front ++ strip pppUi (strip pppAllstations frame) := by
  have one : ∀ (c : UInt8) (l : List UInt8), ∃ front ∈ [[], [c]], l = front ++ strip c l := by
    intro c l
    cases l with
    | nil => exact ⟨[], by simp, rfl⟩
    | cons b rest =>
      by_cases eq : b = c
      · exact ⟨[c], by simp, by simp [strip, eq]⟩
      · exact ⟨[], by simp, by simp [strip, eq]⟩
  obtain ⟨front, mem, eq⟩ := one pppAllstations frame
  obtain ⟨front', mem', eq'⟩ := one pppUi (strip pppAllstations frame)
  refine ⟨front ++ front', ?_, by rw [List.append_assoc, ← eq', ← eq]⟩
  simp only [List.mem_cons, List.not_mem_nil, or_false] at mem mem' ⊢
  rcases mem with rfl | rfl <;> rcases mem' with rfl | rfl <;> simp

/-- A protocol with nothing after it. -/
theorem protocolField_eq_nil {rest : List UInt8} (read : protocolField rest = some (protocol, [])) :
    (∃ high, rest = [high]) ∨ ∃ high low, high &&& 1 = 0 ∧ rest = [high, low] := by
  cases rest with
  | nil => cases read
  | cons high rest =>
    simp only [protocolField] at read
    split_ifs at read with odd
    · simp at read
      exact .inl ⟨high, by rw [read.2]⟩
    · cases rest with
      | nil => cases read
      | cons low rest =>
        simp at read
        exact .inr ⟨high, low, not_not.mp odd, by rw [read.2]⟩

/-- A good frame that ends with its header is one of the three. -/
theorem mem_crashFrames (good : fcsOf frame = pppGoodFcs)
    (read : header frame = .data protocol []) : frame ∈ crashFrames := by
  obtain ⟨body, whole⟩ := fcsOf_eq_good_iff.mp good
  obtain ⟨front, mem, split⟩ := exists_strip frame
  rcases protocolField_eq_nil (header_eq_data_iff.mp read) with
    ⟨high, rest⟩ | ⟨high, low, even, rest⟩
  · -- the check sequence would begin in front of the protocol
    rw [rest, whole, fcsBytes] at split
    have shorter : body ++ [(~~~fcsOf body).toUInt8] = front := by
      have eq : (body ++ [(~~~fcsOf body).toUInt8]) ++ [((~~~fcsOf body) >>> 8).toUInt8] =
          front ++ [high] := by simpa using split
      exact (List.append_inj' eq rfl).1
    simp only [List.mem_cons, List.not_mem_nil, or_false] at mem
    rcases mem with rfl | rfl | rfl | rfl
    · simp at shorter
    · have one : body ++ [(~~~fcsOf body).toUInt8] = [] ++ [pppAllstations] := shorter
      obtain ⟨rfl, last⟩ := List.append_singleton_inj.mp one
      exact absurd last (by decide +kernel)
    · have one : body ++ [(~~~fcsOf body).toUInt8] = [] ++ [pppUi] := shorter
      obtain ⟨rfl, last⟩ := List.append_singleton_inj.mp one
      exact absurd last (by decide +kernel)
    · have two : body ++ [(~~~fcsOf body).toUInt8] = [pppAllstations] ++ [pppUi] := shorter
      obtain ⟨rfl, last⟩ := List.append_singleton_inj.mp two
      exact absurd last (by decide +kernel)
  · -- the check sequence is the protocol
    rw [rest, whole] at split
    obtain ⟨rfl, last⟩ := List.append_inj' split rfl
    rw [whole]
    simp only [List.mem_cons, List.not_mem_nil, or_false] at mem
    rcases mem with rfl | rfl | rfl | rfl
    · decide +kernel
    · decide +kernel
    · obtain ⟨rfl, -⟩ := List.cons_eq_cons.mp last
      exact absurd even (by decide +kernel)
    · decide +kernel

theorem closeFrame_crashFrames : ∀ frame ∈ crashFrames,
    closeFrame frame = .error .nullDereference := by
  decide +kernel

/-- What a frame is worth is undefined for the three frames and for no others. -/
theorem closeFrame_eq_error_iff {e : Fault} :
    closeFrame frame = .error e ↔ e = .nullDereference ∧ frame ∈ crashFrames := by
  constructor
  · intro wrong
    have ne : closeFrame frame ≠ .ok none := by simp [wrong]
    obtain ⟨good, protocol, payload, read⟩ := data_of_closeFrame ne
    rw [closeFrame_of_data read, if_neg (not_not.mpr good)] at wrong
    by_cases empty : payload = []
    · rw [if_pos empty] at wrong
      cases wrong
      exact ⟨rfl, mem_crashFrames good (empty ▸ read)⟩
    · simp [empty] at wrong
  · rintro ⟨rfl, mem⟩
    exact closeFrame_crashFrames frame mem

/-- While the interface is open, the flag is special. -/
def Usable (d : Deframer) : Prop := d.opened = true → Regular d.accm

theorem Usable.call (usable : Usable d) (call : LinkCall) : Usable (d.call call) := by
  cases call with
  | connect => exact fun _ => regular_connectAccm
  | disconnect => exact nofun
  | recvConfig negotiated => exact fun on => (usable on).loadAccm negotiated
  | sendConfig _ _ _ | output _ => exact usable

theorem Usable.calls (usable : Usable d) (calls : List LinkCall) :
    Usable (calls.foldl Deframer.call d) := by
  induction calls generalizing d with
  | nil => exact usable
  | cons call calls ih => exact ih (usable.call call)

theorem Usable.step (usable : Usable d) {event : Event} {d' : Deframer} {r : Option (List UInt8)}
    (taken : deframer.step d event = .ok (d', r)) : Usable d' := by
  cases event with
  | link call =>
    cases taken
    exact usable.call call
  | receive c around =>
    have taken : d.receive c around = .ok (d', r) := taken
    unfold Deframer.receive at taken
    split_ifs at taken
    · cases taken
      exact usable
    · cases taken
      exact usable
    · unfold Deframer.flag at taken
      split at taken
      · cases taken
      · cases taken
        exact usable
      · cases taken
        exact usable.calls around.calls
    · cases taken
      exact usable
    · cases taken
      unfold Deframer.byte
      split <;> exact usable
    · cases taken
      unfold Deframer.byte
      split <;> exact usable

/-- Only a flag that ends one of the three frames goes wrong. -/
theorem step_eq_error_iff (usable : Usable d) {event : Event} {e : Fault} :
    deframer.step d event = .error e ↔ e = .nullDereference ∧ d.opened = true ∧
      (∃ frame ∈ crashFrames, d.frame = some frame) ∧
      ∃ around, event = .receive pppFlag around := by
  have notEscape : pppFlag ≠ pppEscape := by decide
  constructor
  · intro fault
    cases event with
    | link call => cases fault
    | receive c around =>
      have fault : d.receive c around = .error e := fault
      unfold Deframer.receive at fault
      split_ifs at fault with off special escape flag
      · have wrong : closeFrame (d.frame.getD []) = .error e := by
          unfold Deframer.flag at fault
          split at fault
          · rename_i e' wrong
            cases fault
            exact wrong
          · cases fault
          · cases fault
        obtain ⟨null, mem⟩ := closeFrame_eq_error_iff.mp wrong
        refine ⟨null, by simpa using off, ⟨d.frame.getD [], mem, ?_⟩, around, by rw [flag]⟩
        cases start : d.frame with
        | none =>
          rw [start] at wrong
          cases wrong
        | some frame => rfl
  · rintro ⟨rfl, on, ⟨frame, mem, start⟩, around, rfl⟩
    show d.receive pppFlag around = .error .nullDereference
    have wrong := closeFrame_crashFrames frame mem
    simp [Deframer.receive, on, (usable on).flag, notEscape, Deframer.flag, start, wrong]

/-- The faults of a run are those of the deframer. -/
theorem receiver_error_iff {e : Fault} :
    receiver.run ppposCreate events = .error e ↔
      deframer.run Deframer.create events = .error e := by
  have same := (run_lockstep_create events).map_snd
  cases left : receiver.run ppposCreate events with
  | error e' =>
    cases right : deframer.run Deframer.create events with
    | error e'' =>
      rw [left, right] at same
      cases same
      simp
    | ok out =>
      rw [left, right] at same
      cases same
  | ok out =>
    cases right : deframer.run Deframer.create events with
    | error e'' =>
      rw [left, right] at same
      cases same
    | ok out' => simp

/-- `pppos_input` faults exactly when a flag ends one of three frames on an open interface: a
null pointer is used. It never stores behind the end of a buffer, and the assertions of
`pbuf_cat` and `pbuf_realloc` hold. -/
theorem receiver_faults_iff (events : List Event) (e : Fault) :
    receiver.run ppposCreate events = .error e ↔ e = .nullDereference ∧
      ∃ before around after d rs, events = before ++ .receive pppFlag around :: after ∧
        deframer.run Deframer.create before = .ok (d, rs) ∧ d.opened = true ∧
        ∃ frame ∈ crashFrames, d.frame = some frame := by
  have usable : ∀ {before d rs}, deframer.run Deframer.create before = .ok (d, rs) → Usable d :=
    fun run => Machine.run_invariant (fun _ _ _ _ usable taken => usable.step taken)
      (fun on => by cases on) run
  rw [receiver_error_iff, Machine.run_eq_error_iff]
  constructor
  · rintro ⟨before, event, after, d, rs, split, run, fault⟩
    obtain ⟨null, on, crash, around, rfl⟩ := (step_eq_error_iff (usable run)).mp fault
    exact ⟨null, before, around, after, d, rs, split, run, on, crash⟩
  · rintro ⟨rfl, before, around, after, d, rs, split, run, on, crash⟩
    exact ⟨before, _, after, d, rs, split, run,
      (step_eq_error_iff (usable run)).mpr ⟨rfl, on, crash, around, rfl⟩⟩

/-- Six characters after a connect. -/
example : (receiver.run ppposCreate (.link .connect :: receives
    ([pppFlag, 0xff, 0x03, 0x1c, 0xc2, pppFlag].map fun c => (c, ⟨0, []⟩)))).map Prod.snd =
      .error .nullDereference := by
  decide +kernel

/-! ### What is passed on -/

/-- A byte after the header, or the last one of it. -/
theorem Header.step_eq_data {h : Header} (read : h.step c = .data protocol payload) :
    payload = [] ∨ ∃ before, h = .data protocol before ∧ payload = before ++ [c] := by
  cases h with
  | address | control | protocol1 =>
    simp only [Header.step, Header.stepControl, Header.stepProtocol] at read
    split_ifs at read
    cases read
    exact .inl rfl
  | protocol2 high =>
    cases read
    exact .inl rfl
  | data protocol' before =>
    cases read
    exact .inr ⟨before, rfl, rfl⟩

/-- A frame that is passed on with its protocol is a header, some bytes, and their check
sequence. -/
theorem closeFrame_eq_some_iff {packet : List UInt8} (long : 2 ≤ packet.length) :
    closeFrame frame = .ok (some packet) ↔ ∃ body protocol payload,
      frame = body ++ fcsBytes (fcsOf body) ∧ header body = .data protocol payload ∧
        packet = protocolBytes protocol ++ payload := by
  constructor
  · intro worth
    have ne : closeFrame frame ≠ .ok none := by simp [worth]
    obtain ⟨good, protocol, payload, read⟩ := data_of_closeFrame ne
    obtain ⟨body, whole⟩ := fcsOf_eq_good_iff.mp good
    rw [closeFrame_of_data read, if_neg (not_not.mpr good)] at worth
    by_cases empty : payload = []
    · simp [empty] at worth
    · rw [if_neg empty] at worth
      cases worth
      have more : 2 ≤ payload.length := by
        simp [protocolBytes] at long
        omega
      -- the two bytes of the check sequence come after the header
      have read' : ((header body).step (~~~fcsOf body).toUInt8).step
          ((~~~fcsOf body) >>> 8).toUInt8 = .data protocol payload := by
        rw [← header_concat, ← header_concat, ← read, whole]
        simp [fcsBytes]
      obtain ⟨before, first, rfl⟩ := (Header.step_eq_data read').resolve_left empty
      rcases Header.step_eq_data first with rfl | ⟨front, start, rfl⟩
      · simp at more
      · refine ⟨body, protocol, front, whole, start, ?_⟩
        rw [List.append_assoc, ← List.append_assoc]
        exact List.take_left' (by simp [protocolBytes])
  · rintro ⟨body, protocol, payload, rfl, read, rfl⟩
    exact closeFrame_of_header read

/-- The deframer that the receiver follows after a run. -/
theorem exists_tracks {rs : List (Option (List UInt8))}
    (run : receiver.run ppposCreate events = .ok (p, rs)) :
    ∃ d, deframer.run Deframer.create events = .ok (d, rs) ∧ Tracks p d ∧ Usable d := by
  have same := run_lockstep_create events
  rw [run] at same
  obtain ⟨d, run', tracks⟩ := same.exists_ok_right
  exact ⟨d, run', tracks, Machine.run_invariant (fun _ _ _ _ usable taken => usable.step taken)
    (fun on => by cases on) run'⟩

/-- A packet is passed on at a flag. -/
theorem frame_of_delivery {event : Event} {d' : Deframer} {packet : List UInt8}
    (taken : deframer.step d event = .ok (d', some packet)) :
    (∃ around, event = .receive pppFlag around) ∧ ∃ frame, d.frame = some frame ∧
      closeFrame frame = .ok (some packet) := by
  cases event with
  | link call => cases taken
  | receive c around =>
    have taken : d.receive c around = .ok (d', some packet) := taken
    unfold Deframer.receive at taken
    split_ifs at taken with off special escape flag
    · cases taken
    · cases taken
    · refine ⟨⟨around, by rw [flag]⟩, ?_⟩
      unfold Deframer.flag at taken
      split at taken
      · cases taken
      · cases taken
      · rename_i packet' worth
        cases taken
        cases start : d.frame with
        | none =>
          rw [start] at worth
          cases worth
        | some frame =>
          rw [start] at worth
          exact ⟨frame, rfl, worth⟩
    · cases taken
    · cases taken
    · cases taken

/-- Whatever arrives on the line: a packet that is passed on, and that is not too short for
`ppp_input` to read its protocol, is what a sender has put a header and a check sequence
around, and these are the bytes since the last boundary. -/
theorem passed_on_is_well_formed (before : List Event) (event : Event)
    (rs : List (Option (List UInt8))) (packet : List UInt8)
    (run : (receiver.run ppposCreate (before ++ [event])).map Prod.snd = .ok (rs ++ [some packet]))
    (long : 2 ≤ packet.length) :
    (∃ around, event = .receive pppFlag around) ∧
    ∃ d body protocol payload, deframer.run Deframer.create before = .ok (d, rs) ∧
      d.frame = some (body ++ fcsBytes (fcsOf body)) ∧ header body = .data protocol payload ∧
      packet = protocolBytes protocol ++ payload := by
  rw [(run_lockstep_create _).map_snd] at run
  obtain ⟨d', run⟩ := Machine.exists_ok_of_map_snd run
  obtain ⟨d, rs₁, rs₂, first, last, split⟩ := Machine.run_append_inv run
  obtain ⟨d'', r, rs₃, taken, done, rfl⟩ := Machine.run_cons_inv last
  cases done
  obtain ⟨rfl, rfl⟩ := List.append_singleton_inj.mp split
  obtain ⟨flag, frame, start, worth⟩ := frame_of_delivery taken
  obtain ⟨body, protocol, payload, rfl, read, content⟩ := (closeFrame_eq_some_iff long).mp worth
  exact ⟨flag, d, body, protocol, payload, first, start, read, content⟩

/-- A connect, and a frame of which two bytes are escaped, without the flag at its end. -/
def helloEvents : List Event :=
  .link .connect :: receives ([pppFlag, 0xff, 0x03, 0xc0, 0x21, 0x7d, 0x21, 0x7d, 0x29, 0x4e,
    0xf1].map fun c => (c, ⟨0, []⟩))

theorem passed_on_is_well_formed_hello :
    ∃ d body protocol payload,
      deframer.run Deframer.create helloEvents = .ok (d, List.replicate 12 none) ∧
      d.frame = some (body ++ fcsBytes (fcsOf body)) ∧ header body = .data protocol payload ∧
      [0xc0, 0x21, 0x01, 0x09] = protocolBytes protocol ++ payload :=
  (passed_on_is_well_formed helloEvents (.receive pppFlag ⟨0, []⟩) (List.replicate 12 none)
    [0xc0, 0x21, 0x01, 0x09] (by decide +kernel) (by decide)).2

/-! ### Errors on the line -/

/-- A frame on the line that is not passed on. -/
theorem drop_frame (synced : Synced p) (regular : Regular outAccm)
    (covers : Covers outAccm p.inAccm) {s : List (UInt8 × Around)} {last : Around}
    (onLine : s.map Prod.fst = stuff outAccm frame)
    (roomy : ∀ entry ∈ s, Roomy frame.length entry.2) (worth : closeFrame frame = .ok none) :
    ∃ p' rs, receiver.run p (receives (s ++ [(pppFlag, last)])) = .ok (p', rs) ∧
      rs.reduceOption = [] ∧ Synced p' := by
  have inside : Inside p.inAccm [] (.between p) := ⟨rfl, rfl, rfl, rfl⟩
  obtain ⟨d₁, first, inside₁⟩ := inside.stuffed synced.regular regular covers onLine roomy (by simp)
  obtain ⟨d₂, second, inside₂⟩ := inside₁.flag_none synced.regular worth last
  exact synced.follows (first.append (Delivers.single second)) inside₂ synced.regular

theorem closeFrame_of_bad (bad : fcsOf frame ≠ pppGoodFcs) : closeFrame frame = .ok none := by
  by_contra ne
  exact bad (data_of_closeFrame ne).1

/-- The bits of an error: up to sixteen consecutive ones, or an odd number of them. -/
def Detectable (error : List UInt8) : Prop :=
  (∃ before burst after, lineBits error = List.replicate before false ++ burst ++
    List.replicate after false ∧ burst.length ≤ 16 ∧ true ∈ burst) ∨
  (lineBits error).count true % 2 = 1

/-- A frame with such an error is not passed on, and the receiver is in step for the next. -/
theorem corrupted_frame_is_dropped (p : Pppos) (synced : Synced p) (outAccm : ExtAccm)
    (regular : Regular outAccm) (covers : Covers outAccm p.inAccm) (content error : List UInt8)
    (same : error.length = content.length + 2) (detectable : Detectable error)
    (s : List (UInt8 × Around)) (last : Around)
    (onLine : s.map Prod.fst =
      stuff outAccm (corrupt (content ++ fcsBytes (fcsOf content)) error))
    (roomy : ∀ entry ∈ s, Roomy (content.length + 2) entry.2) :
    ∃ p' rs, receiver.run p (receives (s ++ [(pppFlag, last)])) = .ok (p', rs) ∧
      rs.reduceOption = [] ∧ Synced p' := by
  have good := fcsOf_append_fcsBytes content
  have lengths : (content ++ fcsBytes (fcsOf content)).length = error.length := by
    rw [List.length_append, length_fcsBytes, same]
  have bad : fcsOf (corrupt (content ++ fcsBytes (fcsOf content)) error) ≠ pppGoodFcs := by
    rcases detectable with ⟨before, burst, after, shape, short, wrong⟩ | odd
    · exact fcsOf_burst_ne_good good lengths shape short wrong
    · exact fcsOf_odd_ne_good good lengths odd
  have size : (corrupt (content ++ fcsBytes (fcsOf content)) error).length =
      content.length + 2 := by
    rw [corrupt, List.length_zipWith, lengths, min_self, same]
  exact drop_frame synced regular covers onLine (by rwa [size]) (closeFrame_of_bad bad)

/-- Bytes on the line when nothing else goes on. -/
def quietly (bytes : List UInt8) : List (UInt8 × Around) := bytes.map fun c => (c, ⟨0, []⟩)

theorem map_fst_quietly (bytes : List UInt8) : (quietly bytes).map Prod.fst = bytes := by
  simp [quietly, Function.comp_def]

/-- A receiver between two frames. -/
def waiting : Pppos := { ppposConnect with inState := .address, inFcs := pppInitFcs }

theorem synced_waiting : Synced waiting :=
  ⟨rfl, regular_connectAccm, rfl, ⟨rfl, rfl⟩, .inr ⟨rfl, rfl⟩⟩

/-- Three bits of two bytes are inverted. -/
theorem corrupted_frame_is_dropped_three :
    Detectable [0x00, 0x10, 0x41, 0x00] ∧
    ∃ p' rs, receiver.run waiting (receives (quietly (stuff connectAccm
        (corrupt ([0x21, 0x05] ++ fcsBytes (fcsOf [0x21, 0x05])) [0x00, 0x10, 0x41, 0x00])) ++
          [(pppFlag, ⟨0, []⟩)])) = .ok (p', rs) ∧
      rs.reduceOption = [] ∧ Synced p' := by
  have detectable : Detectable [0x00, 0x10, 0x41, 0x00] := .inr (by decide +kernel)
  exact ⟨detectable, corrupted_frame_is_dropped waiting synced_waiting connectAccm
    regular_connectAccm (fun _ special => special) [0x21, 0x05] [0x00, 0x10, 0x41, 0x00] rfl
    detectable _ ⟨0, []⟩ (map_fst_quietly _) (by decide +kernel)⟩

/-! ### Back in step -/

theorem Inside.eq (inside : Inside inAccm frame d) : d = ⟨true, inAccm, false, some frame⟩ := by
  obtain ⟨opened, accm, escaped, start⟩ := inside
  cases d
  simp_all

/-- A flag ends whatever has come before it. -/
theorem flag_resynchronises (usable : Usable d) (on : d.opened = true) {around : Around}
    (stays : StaysOpen around.calls) (quiet : accmAfter d.accm around.calls = d.accm)
    {d' : Deframer} {r : Option (List UInt8)}
    (taken : d.receive pppFlag around = .ok (d', r)) : Inside d.accm [] d' := by
  have notEscape : pppFlag ≠ pppEscape := by decide
  have here : d.receive pppFlag around = d.flag around.calls := by
    simp [Deframer.receive, on, (usable on).flag, notEscape]
  rw [here, Deframer.flag] at taken
  split at taken
  · cases taken
  · cases taken
    exact ⟨on, rfl, rfl, rfl⟩
  · cases taken
    obtain ⟨opened, accm⟩ := foldl_call stays d
    exact ⟨opened.trans on, accm.trans quiet, rfl, rfl⟩

/-- A packet with a leading flag. -/
theorem Packet.entries_of_lead {k : Packet} (sound : k.Sound inAccm)
    (lead : idleFlag k.sender k.moment.before = true) {first : Around}
    (head : k.around.head? = some first) : ∃ s, k.entries = (pppFlag, first) :: s := by
  have onLine : k.entries.map Prod.fst = line true k.sender.outAccm k.content := by
    rw [entries, List.map_fst_zip sound.length.ge, wire_eq sound.hasPbuf, lead]
  have zipped : k.entries.map Prod.snd = k.around := by
    rw [entries, List.map_snd_zip sound.length.le]
  obtain ⟨around, s, split, -⟩ := cons_of_map_fst onLine
  rw [← zipped, split] at head
  obtain rfl : around = first := Option.some.inj head
  exact ⟨s, split⟩

/-- What does not go wrong in the receiver does not in the deframer. -/
theorem Tracks.receive_ok (tracks : Tracks p d) {around : Around}
    (safe : ∀ e, ppposInputChar c around p ≠ .error e) :
    ∃ d' r, d.receive c around = .ok (d', r) := by
  have step := tracks.receive c around
  cases taken : d.receive c around with
  | ok out => exact ⟨out.1, out.2, rfl⟩
  | error e =>
    cases left : ppposInputChar c around p with
    | ok out =>
      rw [taken, left] at step
      exact step.elim
    | error e' => exact absurd left (safe e')

/-- Whatever has been received before, and whatever has become of it: packets of which the
first starts with a flag arrive, once each and in order, after at most one other that the
bytes before the flag make up. -/
theorem packets_arrive_after_noise (noise : List Event) (p : Pppos)
    (before : List (Option (List UInt8))) (run : receiver.run ppposCreate noise = .ok (p, before))
    (on : p.opened = true) (k : Packet) (others : List Packet)
    (lead : idleFlag k.sender k.moment.before = true)
    (sound : Packet.AllSound p.inAccm (k :: others)) (first : Around)
    (head : k.around.head? = some first) (stays : StaysOpen first.calls)
    (quiet : accmAfter p.inAccm first.calls = p.inAccm)
    (safe : ∀ e, ppposInputChar pppFlag first p ≠ .error e) :
    ∃ p' rs r, receiver.run p (receives ((k :: others).flatMap Packet.entries)) = .ok (p', rs) ∧
      rs.reduceOption = Option.toList r ++ (k :: others).map Packet.arrival ∧ Synced p' := by
  obtain ⟨d, -, tracks, usable⟩ := exists_tracks run
  have on' : d.opened = true := tracks.opened.symm.trans on
  have accm : d.accm = p.inAccm := tracks.accm.symm
  have regular : Regular p.inAccm := accm ▸ usable on'
  -- the flag ends the noise
  obtain ⟨s, split⟩ := Packet.entries_of_lead sound.1 lead head
  obtain ⟨d₁, r, taken⟩ := tracks.receive_ok safe
  have inside₁ := flag_resynchronises usable on' stays (accm ▸ quiet) taken
  -- what follows is what follows a flag after nothing
  obtain ⟨d', ⟨rs, run', results⟩, inside⟩ := Packet.allArrive (d := .between p)
    ⟨rfl, rfl, rfl, rfl⟩ regular sound
  rw [List.flatMap_cons, split] at run' ⊢
  obtain ⟨d₂, r₂, rs', first', rest, rfl⟩ := Machine.run_cons_inv run'
  have start : Inside p.inAccm [] (.between p) := ⟨rfl, rfl, rfl, rfl⟩
  obtain ⟨d₃, taken₃, inside₃⟩ := start.flag_none regular rfl first
  have same : (d₂, r₂) = (d₃, none) := Except.ok.inj (first'.symm.trans taken₃)
  obtain ⟨rfl, rfl⟩ := Prod.mk.inj same
  have equal : d₁ = d₂ := by rw [inside₁.eq, inside₃.eq, accm]
  have whole : deframer.run d (.receive pppFlag first ::
      receives (s ++ others.flatMap Packet.entries)) = .ok (d', r :: rs') :=
    Machine.run_cons taken (equal ▸ rest)
  obtain ⟨p', done, tracks'⟩ := tracks.follows whole
  refine ⟨p', r :: rs', r, done, ?_, synced_of_tracks tracks' inside
    (Packet.regular_accmAtEnd regular (k :: others))⟩
  have tail : rs'.reduceOption = (k :: others).map Packet.arrival := by
    simpa using results
  cases r <;> simp [tail]

/-- A connect, a flag, and the first byte of a frame of which the rest is lost. -/
def brokenOff : List Event := .link .connect :: receives (quietly [pppFlag, 0x21])

/-- A packet that starts with a flag, since the line was idle. -/
def afterPause : Packet :=
  ⟨ppposConnect, ⟨true, 200, 201⟩, 0xc021, [[0x01, 0x7e], [0x03]], List.replicate 12 ⟨0, []⟩⟩

theorem packets_arrive_after_noise_brokenOff :
    ∃ p before p' rs r, receiver.run ppposCreate brokenOff = .ok (p, before) ∧
      receiver.run p (receives ([afterPause].flatMap Packet.entries)) = .ok (p', rs) ∧
      rs.reduceOption = Option.toList r ++ [[0xc0, 0x21, 0x01, 0x7e, 0x03]] ∧ Synced p' := by
  have sound : afterPause.Sound ppposConnect.inAccm :=
    ⟨rfl, regular_connectAccm, fun _ special => special, ⟨by decide, by decide, nofun⟩,
      by decide +kernel, by decide +kernel, nofun⟩
  obtain ⟨p', rs, r, run, results, synced⟩ := packets_arrive_after_noise brokenOff
    { ppposConnect with inState := .data, inProtocol := 0x21, inFcs := pppFcs pppInitFcs 0x21 }
    [none, none, none] rfl rfl afterPause [] rfl ⟨sound, trivial⟩ ⟨0, []⟩ rfl nofun rfl nofun
  exact ⟨_, _, p', rs, r, rfl, run, results, synced⟩

/-! ### Out of buffers -/

/-- A character for which there is no buffer is lost with all of the frame before it. -/
theorem Inside.starved (inside : Inside inAccm frame d) (regular : Regular inAccm)
    (regular' : Regular outAccm) (covers : Covers outAccm inAccm) {s : List (UInt8 × Around)}
    (onLine : s.map Prod.fst = stuff outAccm [c])
    (starving : ∀ entry ∈ s, starves frame entry.2.others = true) :
    ∃ d', Delivers d s [] d' ∧ Inside inAccm [] d' := by
  obtain ⟨opened, accm, escaped, start⟩ := inside
  rw [stuff_cons, encoded] at onLine
  by_cases special : escapeP outAccm c = true
  · rw [if_pos (by simp [special])] at onLine
    obtain ⟨around, s₁, rfl, onLine₁⟩ := cons_of_map_fst onLine
    obtain ⟨around', s₂, rfl, onLine₂⟩ := cons_of_map_fst onLine₁
    obtain rfl : s₂ = [] := List.map_eq_nil_iff.mp onLine₂
    have empty : starves frame around'.others = true :=
      starving (c ^^^ pppTrans, around') (by simp)
    have common := regular'.trans regular special
    have first : d.receive pppEscape around = .ok ({ d with escaped := true }, none) := by
      simp [Deframer.receive, opened, accm, regular.escape]
    have second : Deframer.receive { d with escaped := true } (c ^^^ pppTrans) around' =
        .ok ({ d with escaped := false, frame := some [] }, none) := by
      simp [Deframer.receive, opened, accm, common, Deframer.byte, start, empty]
    exact ⟨_, (Delivers.single first).append (Delivers.single second), opened, accm, rfl, rfl⟩
  · have common : escapeP inAccm c = false := by
      by_contra not
      exact special (covers c (by simpa using not))
    rw [if_neg (by simp [special])] at onLine
    obtain ⟨around, s₁, rfl, onLine₁⟩ := cons_of_map_fst onLine
    obtain rfl : s₁ = [] := List.map_eq_nil_iff.mp onLine₁
    have empty : starves frame around.others = true := starving (c, around) (by simp)
    have first : d.receive c around =
        .ok ({ d with escaped := false, frame := some [] }, none) := by
      simp [Deframer.receive, opened, accm, common, Deframer.byte, start, empty]
    exact ⟨_, Delivers.single first, opened, accm, rfl, rfl⟩

/-- When the pool runs out in the middle of a frame, `pppos_input` does not wait for the flag:
it takes the rest of the frame for a frame of its own, and passes on a packet that is only
part of what the sender has put into one frame. -/
theorem starved_tail_is_a_frame (p : Pppos) (synced : Synced p) (outAccm : ExtAccm)
    (regular : Regular outAccm) (covers : Covers outAccm p.inAccm) (front : List UInt8) (c : UInt8)
    (tail packet : List UInt8) (s₁ s₂ s₃ : List (UInt8 × Around)) (last : Around)
    (onLine₁ : s₁.map Prod.fst = stuff outAccm front)
    (onLine₂ : s₂.map Prod.fst = stuff outAccm [c])
    (onLine₃ : s₃.map Prod.fst = stuff outAccm tail)
    (roomy₁ : ∀ entry ∈ s₁, Roomy front.length entry.2)
    (starving : ∀ entry ∈ s₂, starves front entry.2.others = true)
    (roomy₃ : ∀ entry ∈ s₃, Roomy tail.length entry.2) (stays : StaysOpen last.calls)
    (worth : closeFrame tail = .ok (some packet)) :
    (s₁ ++ s₂ ++ s₃).map Prod.fst = stuff outAccm (front ++ [c] ++ tail) ∧
    ∃ p' rs, receiver.run p (receives (s₁ ++ s₂ ++ s₃ ++ [(pppFlag, last)])) = .ok (p', rs) ∧
      rs.reduceOption = [packet] ∧ Synced p' := by
  refine ⟨by simp only [List.map_append, stuff_append, onLine₁, onLine₂, onLine₃], ?_⟩
  have inside : Inside p.inAccm [] (.between p) := ⟨rfl, rfl, rfl, rfl⟩
  obtain ⟨d₁, first, inside₁⟩ :=
    inside.stuffed synced.regular regular covers onLine₁ roomy₁ (by simp)
  obtain ⟨d₂, second, inside₂⟩ := inside₁.starved synced.regular regular covers onLine₂
    (by simpa using starving)
  obtain ⟨d₃, third, inside₃⟩ :=
    inside₂.stuffed synced.regular regular covers onLine₃ roomy₃ (by simp)
  obtain ⟨d₄, fourth, inside₄⟩ := inside₃.flag_some synced.regular worth stays
  exact synced.follows (((first.append second).append third).append (Delivers.single fourth))
    inside₄ (synced.regular.accmAfter last.calls)

/-- The first buffer of a packet cannot be allocated, and the bytes after that look like a frame. -/
theorem starved_tail_is_a_frame_short :
    ∃ p' rs, receiver.run waiting (receives (quietly [0x21] ++ [(0x45, ⟨16, []⟩)] ++
        quietly [0x21, 0x05, 0x06, 0xa5, 0x84] ++ [(pppFlag, ⟨0, []⟩)])) =
          .ok (p', rs) ∧
      rs.reduceOption = [[0x00, 0x21, 0x05, 0x06]] ∧ Synced p' :=
  (starved_tail_is_a_frame waiting synced_waiting connectAccm regular_connectAccm
    (fun _ special => special) [0x21] 0x45 [0x21, 0x05, 0x06, 0xa5, 0x84] [0x00, 0x21, 0x05, 0x06]
    (quietly [0x21]) [(0x45, ⟨16, []⟩)] (quietly [0x21, 0x05, 0x06, 0xa5, 0x84])
    ⟨0, []⟩ (by decide +kernel) (by decide +kernel) (by decide +kernel) (by decide +kernel)
    (by decide +kernel) (by decide +kernel) nofun (by decide +kernel)).2

end Components.Ppp
