import Components.Modem.Lines
import Components.Semantics.Always

/-!
# The lines of a byte stream

The receive thread splits the stream at every carriage return that a line feed follows,
and compares what the buffer holds then with the strings of the current state. The buffer
is not cleared between lines and has no terminator, but the line feed, which no string
has, stops every comparison in time.

A buffer of 1500 bytes that is full is emptied by the next byte, which is lost. After that
the rest of the line is stored as if it were a line of its own. What is compared at the
end of a long line is the rest after the last multiple of 1501 bytes. A line of 1501 bytes
is compared as a whole: it is the line feed that finds the buffer full, and what the buffer
holds is not erased.

## Main definitions

* `comparisons`, `found` — the comparisons at the end of a line, and those that succeed
* `LineEvent`, `Reception` — the stream between the changes of the task, with the lines
  of the stream and the calls made
* `Reader` — the machine that moves on what a line starts with
* `compared` — the part of a line that is compared
* `Reception.FromLines`, `Reception.FalseStart` — every call is due to a line and not to the
  tail of one, and the lines that break this

## Main results

* `reception_refines_reader` — while lines fit the buffer, the calls are those of `Reader`
* `calls_from_lines_iff` — when every call is due to a line that starts with its string
-/

namespace Components.Modem

variable {P R : Type} {ppp : Ppp P R} {len : ℕ} {fresh : Locals} {s : Port P}

/-! ### Comparisons -/

/-- What a line is compared with, in the order of the comparisons. -/
def comparisons : Rnsm → List Change
  | .reset => [⟨ascii "OK", .ok⟩]
  | .ok => [⟨ascii "+CGREG: 0,1", .cgreg⟩, ⟨ascii "+CGREG: 0,5", .cgreg⟩]
  | .cgreg => [⟨ascii "OK", .atd⟩]
  | .atd => [⟨ascii "CONNECT", .enterPpp⟩]
  | .enterPpp | .reboot => []

/-- The comparisons that succeed. -/
def found (arr : ℕ → UInt8) (r : Rnsm) : List Change :=
  (comparisons r).filter fun change => startsWith arr change.feature 0

/-- Make the calls in order. -/
def makeChanges (ppp : Ppp P R) (calls : List Change) (s : Port P) : Port P :=
  calls.foldl (fun s change => makeChange ppp change s) s

/-! ### What a call of `m_state_change` leaves alone -/

/-- The PPP stack has no access to the receive thread. -/
theorem PppCall.run_locals (call : PppCall P) (s : Port P) :
    (call.run s).locals = s.locals ∧ (call.run s).arrRxCharNb = s.arrRxCharNb ∧
      (call.run s).changes = s.changes := by
  induction call generalizing s with
  | ret ppp => exact ⟨rfl, rfl, rfl⟩
  | output data resume ih =>
    have rest := ih (sioWrite s data).2 (sioWrite s data).1
    rw [PppCall.run, rest.1, rest.2.1, rest.2.2]
    unfold sioWrite
    split_ifs
    · exact ⟨rfl, rfl, rfl⟩
    · exact ⟨rfl, rfl, rfl⟩

theorem mStateChange_locals (ppp : Ppp P R) (new : Rnsm) (s : Port P) :
    (mStateChange ppp new s).locals = s.locals ∧
      (mStateChange ppp new s).arrRxCharNb = s.arrRxCharNb ∧
      (mStateChange ppp new s).changes = s.changes := by
  unfold mStateChange
  dsimp only
  by_cases connects : new = .enterPpp
  · subst connects
    exact (ppp.connect s.ppp).run_locals { s with connected := true }
  · rw [if_neg connects]
    split_ifs
    · exact ⟨rfl, rfl, rfl⟩
    · exact ⟨rfl, rfl, rfl⟩

theorem makeChange_locals (ppp : Ppp P R) (change : Change) (s : Port P) :
    (makeChange ppp change s).locals = s.locals := (mStateChange_locals ppp change.new _).1

theorem makeChanges_locals (ppp : Ppp P R) (calls : List Change) (s : Port P) :
    (makeChanges ppp calls s).locals = s.locals := by
  induction calls generalizing s with
  | nil => rfl
  | cons change calls ih =>
    rw [← makeChange_locals ppp change s]
    exact ih _

/-- The calls are noted. -/
theorem makeChanges_changes (ppp : Ppp P R) (calls : List Change) (s : Port P) :
    (makeChanges ppp calls s).changes = s.changes ++ calls := by
  induction calls generalizing s with
  | nil => exact (List.append_nil _).symm
  | cons change calls ih =>
    have noted : (makeChange ppp change s).changes = s.changes ++ [change] :=
      (mStateChange_locals ppp change.new _).2.2
    show (makeChanges ppp calls (makeChange ppp change s)).changes = _
    rw [ih, noted, List.append_assoc]
    rfl

/-- The state after the calls is that of the last one. -/
theorem makeChanges_rnsm (ppp : Ppp P R) (calls : List Change) (s : Port P) :
    (makeChanges ppp calls s).rnsm = ((calls.map Change.new).getLast?).getD s.rnsm := by
  rcases List.eq_nil_or_concat calls with rfl | ⟨calls, change, rfl⟩
  · rfl
  · simp [makeChanges, makeChange, mStateChange]

/-! ### The calls of the receive thread -/

/-- These are the calls that `lineEnd` makes. -/
theorem lineEnd_eq_makeChanges (ppp : Ppp P R) (s : Port P) :
    lineEnd ppp s = makeChanges ppp (found s.locals.arrRxChar s.rnsm) s := by
  have one (change : Change) (t : Port P) (same : t.locals = s.locals) : compareLine ppp change t =
      makeChanges ppp ([change].filter fun change => startsWith s.locals.arrRxChar change.feature 0)
        t := by
    rw [compareLine, same, List.filter_singleton]
    cases startsWith s.locals.arrRxChar change.feature 0 <;> rfl
  unfold lineEnd found
  cases s.rnsm with
  | reset => exact one _ s rfl
  | ok =>
    -- the second comparison looks at the same line
    dsimp only
    rw [one _ s rfl, one _ _ (makeChanges_locals ..)]
    show makeChanges ppp _ (makeChanges ppp _ s) = _
    rw [comparisons, makeChanges, makeChanges, makeChanges, ← List.foldl_append,
      ← List.filter_append]
    rfl
  | cgreg => exact one _ s rfl
  | atd => exact one _ s rfl
  | enterPpp => rfl
  | reboot => rfl

/-- The calls of `m_state_change` that `mobile_network_rx` makes for one byte. -/
def rxChanges (c : UInt8) (s : Port P) : List Change :=
  if s.rnsm ≠ .enterPpp ∧ s.locals.newRxChar = cr ∧ c = lf then
    found (storeChar c s).locals.arrRxChar s.rnsm
  else []

/-- A byte in command mode is stored, and at the end of a line the calls are made. -/
theorem mobileNetworkRx_eq (mode : s.rnsm ≠ .enterPpp) (c : UInt8) :
    mobileNetworkRx ppp len c fresh s =
      if s.locals.newRxChar = cr ∧ c = lf then
        { makeChanges ppp (rxChanges c s) (storeChar c s) with arrRxCharNb := 0 }
      else storeChar c s := by
  rw [mobileNetworkRx, if_pos mode]
  unfold rxLine
  simp only [storeChar_lastRxChar, storeChar_newRxChar]
  split_ifs with ends
  · rw [rxChanges, if_pos ⟨mode, ends⟩, lineEnd_eq_makeChanges, storeChar_rnsm]
  · rfl

theorem storeChar_changes (c : UInt8) : (storeChar c s).changes = s.changes := by
  unfold storeChar
  split_ifs <;> rfl

/-- These are the calls that `mobile_network_rx` notes. -/
theorem mobileNetworkRx_changes (c : UInt8) :
    (mobileNetworkRx ppp len c fresh s).changes = s.changes ++ rxChanges c s := by
  by_cases mode : s.rnsm = .enterPpp
  · rw [rxChanges, if_neg fun h => h.1 mode, List.append_nil, mobileNetworkRx,
      if_neg (not_not.2 mode)]
    unfold rxData
    dsimp only
    split_ifs <;> rfl
  · rw [mobileNetworkRx_eq mode]
    split_ifs with ends
    · exact (makeChanges_changes ..).trans (congrArg (· ++ _) (storeChar_changes c))
    · rw [rxChanges, if_neg fun h => ends h.2, List.append_nil, storeChar_changes]

/-! ### Streams -/

/-- What happens while the module is in command mode: a byte arrives, or the task calls
`m_state_change`. -/
inductive LineEvent
  | receive (c : UInt8)
  | reset
  | reboot
  deriving DecidableEq, Repr

/-- A call of `m_state_change` made by the receive thread, with the bytes since the latest
line break, whether the byte at which it is made ends a line, and where in the line the
first byte of the buffer stands. -/
structure LineCall extends Change where
  line : List UInt8
  ends : Bool
  offset : ℕ
  deriving DecidableEq, Repr

/-- The receive thread and the lines of the stream. -/
structure Reception (P : Type) where
  port : Port P
  /-- The byte received before. -/
  prev : UInt8
  /-- The bytes received since the latest line break. -/
  line : List UInt8
  /-- Where in its line the byte stands that was stored last at the start of the buffer. -/
  offset : ℕ
  /-- The calls of `m_state_change` made by the receive thread. -/
  calls : List LineCall

namespace Reception

/-- Before the first byte. -/
def start (s : Port P) : Reception P := ⟨s, s.locals.newRxChar, [], 0, []⟩

/-- A byte arrives. -/
def receive (ppp : Ppp P R) (len : ℕ) (fresh : Locals) (c : UInt8) (t : Reception P) :
    Reception P :=
  let port := mobileNetworkRx ppp len c fresh t.port
  let line := t.line ++ [c]
  let ends : Bool := t.prev = cr ∧ c = lf
  let offset := if t.port.arrRxCharNb = 0 then t.line.length else t.offset
  { port := port
    prev := c
    line := if ends then [] else line
    offset := offset
    calls := t.calls ++ (port.changes.drop t.port.changes.length).map fun change =>
      ⟨change, line, ends, offset⟩ }

/-- The calls are those noted for this byte. -/
theorem receive_calls (t : Reception P) (c : UInt8) :
    (t.receive ppp len fresh c).calls = t.calls ++ (rxChanges c t.port).map fun change =>
      ⟨change, t.line ++ [c], t.prev = cr ∧ c = lf, (t.receive ppp len fresh c).offset⟩ := by
  unfold receive
  dsimp only
  rw [mobileNetworkRx_changes, List.drop_left]

/-- One event. -/
def step (ppp : Ppp P R) (len : ℕ) (fresh : Locals) (t : Reception P) : LineEvent → Reception P
  | .receive c => t.receive ppp len fresh c
  | .reset => { t with port := mStateChange ppp .reset t.port }
  | .reboot => { t with port := mStateChange ppp .reboot t.port }

/-- A byte arrives in data mode. -/
def InData (t : Reception P) : LineEvent → Prop
  | .receive _ => t.port.rnsm = .enterPpp
  | _ => False

/-- A byte arrives in data mode, or ends a line that is longer than the buffer. -/
def TooLong (t : Reception P) : LineEvent → Prop
  | .receive c => t.port.rnsm = .enterPpp ∨
      (t.prev = cr ∧ c = lf) ∧ arrRxCharSize < (t.line ++ [c]).length
  | _ => False

instance (t : Reception P) (event : LineEvent) : Decidable (t.InData event) :=
  match event with
  | .receive _ => inferInstanceAs (Decidable (_ = _))
  | .reset => inferInstanceAs (Decidable False)
  | .reboot => inferInstanceAs (Decidable False)

instance (t : Reception P) (event : LineEvent) : Decidable (t.TooLong event) :=
  match event with
  | .receive _ => inferInstanceAs (Decidable (_ ∨ _ ∧ _))
  | .reset => inferInstanceAs (Decidable False)
  | .reboot => inferInstanceAs (Decidable False)

theorem not_inData_of_not_tooLong {t : Reception P} {event : LineEvent} (h : ¬ t.TooLong event) :
    ¬ t.InData event := by
  cases event with
  | receive c => exact fun mode => h (.inl mode)
  | reset => exact id
  | reboot => exact id

end Reception

/-- The machine that splits the stream at every carriage return and line feed, and moves on
what each line starts with. -/
structure Reader where
  rnsm : Rnsm
  line : List UInt8
  calls : List Rnsm
  deriving DecidableEq, Repr

namespace Reader

def start (r : Rnsm) : Reader := ⟨r, [], []⟩

/-- A byte arrives. -/
def receive (c : UInt8) (t : Reader) : Reader :=
  let line := t.line ++ [c]
  if t.line.getLast? = some cr ∧ c = lf then
    let new := nextRnsm line t.rnsm
    { rnsm := new
      line := []
      calls := if new = t.rnsm then t.calls else t.calls ++ [new] }
  else { t with line := line }

def step (t : Reader) : LineEvent → Reader
  | .receive c => t.receive c
  | .reset => { t with rnsm := .reset }
  | .reboot => { t with rnsm := .reboot }

end Reader

/-! ### What the buffer holds -/

/-- The rest of a line that is compared at its end: what follows the last multiple of the
bytes that fill the buffer, and empty it again, before the last byte. -/
def compared (line : List UInt8) : List UInt8 :=
  line.drop ((arrRxCharSize + 1) * ((line.length - 1) / (arrRxCharSize + 1)))

/-- The byte ends a line which is so long that a rest of it is compared, and the rest starts
with a string. -/
def Reception.FalseStart (t : Reception P) : LineEvent → Prop
  | .receive c => (t.prev = cr ∧ c = lf) ∧ arrRxCharSize + 1 < (t.line ++ [c]).length ∧
      ∃ change ∈ comparisons t.port.rnsm, change.feature <+: compared (t.line ++ [c])
  | _ => False

/-- The bytes of the line that stand in the buffer. -/
def stored (line : List UInt8) : List UInt8 :=
  line.drop ((arrRxCharSize + 1) * (line.length / (arrRxCharSize + 1)))

/-- The index counts the bytes of the buffer, and one more that empties it. -/
theorem storeChar_index (bound : s.arrRxCharNb ≤ arrRxCharSize) (c : UInt8) :
    (storeChar c s).arrRxCharNb = (s.arrRxCharNb + 1) % (arrRxCharSize + 1) := by
  by_cases room : s.arrRxCharNb < arrRxCharSize
  · rw [storeChar_of_lt room, Nat.mod_eq_of_lt (Nat.succ_lt_succ room)]
  · rw [storeChar, if_neg room, le_antisymm bound (not_lt.mp room), Nat.mod_self]

/-- The buffer and the last byte, for a line that is not complete. -/
structure Reception.Buffered (t : Reception P) : Prop where
  prev : t.prev = t.port.locals.newRxChar
  last : t.line ≠ [] → t.line.getLast? = some t.prev
  index : t.port.arrRxCharNb = t.line.length % (arrRxCharSize + 1)
  offset : t.line ≠ [] →
    t.offset = (arrRxCharSize + 1) * ((t.line.length - 1) / (arrRxCharSize + 1))
  buffer : ∃ arr, t.port.locals.arrRxChar = writeAll arr 0 (stored t.line)

variable {line : List UInt8} {c : UInt8}

theorem stored_nil : stored [] = [] := List.drop_nil

theorem length_stored : (stored line).length = line.length % (arrRxCharSize + 1) := by
  have split := Nat.div_add_mod line.length (arrRxCharSize + 1)
  rw [stored, List.length_drop]
  omega

theorem compared_concat : compared (line ++ [c]) = stored line ++ [c] := by
  have bound := Nat.mul_div_le line.length (arrRxCharSize + 1)
  rw [compared, List.length_append, List.length_singleton, Nat.add_sub_cancel,
    List.drop_append_of_le_length bound]
  rfl

/-- A byte for which there is room. -/
theorem stored_concat (room : line.length % (arrRxCharSize + 1) < arrRxCharSize) :
    stored (line ++ [c]) = stored line ++ [c] := by
  have same : (line.length + 1) / (arrRxCharSize + 1) = line.length / (arrRxCharSize + 1) := by
    unfold arrRxCharSize at room ⊢
    omega
  have bound := Nat.mul_div_le line.length (arrRxCharSize + 1)
  rw [stored, List.length_append, List.length_singleton, same,
    List.drop_append_of_le_length bound]
  rfl

/-- A byte that empties the buffer. -/
theorem stored_full (full : line.length % (arrRxCharSize + 1) = arrRxCharSize) :
    stored (line ++ [c]) = [] := by
  refine List.eq_nil_of_length_eq_zero ?_
  rw [length_stored, List.length_append, List.length_singleton, Nat.add_mod, full]
  decide

/-- No string has a byte of a line break. -/
theorem feature_plain {r : Rnsm} : ∀ change ∈ comparisons r,
    cr ∉ change.feature ∧ lf ∉ change.feature := by
  cases r <;> decide

namespace Reception.Buffered

variable {t : Reception P}

theorem index_le (h : t.Buffered) : t.port.arrRxCharNb ≤ arrRxCharSize := by
  rw [h.index]
  exact Nat.le_of_lt_succ (Nat.mod_lt _ (Nat.succ_pos _))

/-- A buffer without room is full. -/
theorem full (h : t.Buffered) (noRoom : ¬ t.port.arrRxCharNb < arrRxCharSize) :
    t.line.length % (arrRxCharSize + 1) = arrRxCharSize := by
  rw [← h.index]
  exact le_antisymm h.index_le (not_lt.mp noRoom)

/-- At the end of a line the comparisons look at the rest of it. -/
theorem found_eq (h : t.Buffered) (before : t.prev = cr) (r : Rnsm) :
    found (storeChar lf t.port).locals.arrRxChar r = (comparisons r).filter fun change =>
      change.feature.isPrefixOf (compared (t.line ++ [lf])) := by
  obtain ⟨arr, buffer⟩ := h.buffer
  refine List.filter_congr fun change hc => ?_
  obtain ⟨noReturn, noFeed⟩ := feature_plain change hc
  rw [compared_concat]
  by_cases room : t.port.arrRxCharNb < arrRxCharSize
  -- the line feed is stored, and stops the comparison
  · have index : t.port.arrRxCharNb = 0 + (stored t.line).length := by
      rw [h.index, length_stored, Nat.zero_add]
    have written : (storeChar lf t.port).locals.arrRxChar =
        writeAll arr 0 (stored t.line ++ [lf]) := by
      rw [storeChar_of_lt room, writeAll_concat, ← buffer, ← index]
    have ends : lf ∈ stored t.line ++ [lf] := by simp
    rw [written]
    exact startsWith_writeAll arr 0 ends noFeed
  -- the line feed is lost, but the carriage return before it stands in the full buffer
  · have full := h.full room
    have written : (storeChar lf t.port).locals.arrRxChar = writeAll arr 0 (stored t.line) := by
      rw [storeChar, if_neg room, ← buffer]
    have some : stored t.line ≠ [] := by
      rw [← List.length_pos_iff, length_stored, full]
      decide
    have ends : cr ∈ stored t.line := by
      have nonempty : t.line ≠ [] := fun empty => some (by rw [empty]; rfl)
      have last := h.last nonempty
      rw [before] at last
      refine List.mem_of_getLast? ?_
      have split := Nat.div_add_mod t.line.length (arrRxCharSize + 1)
      have pos : 0 < arrRxCharSize := by decide
      rw [stored, List.getLast?_drop, if_neg (by omega), last]
    rw [written, isPrefixOf_append ends noReturn]
    exact startsWith_writeAll arr 0 ends noReturn

/-- The calls at the end of a line. -/
theorem rxChanges_eq (h : t.Buffered) (mode : t.port.rnsm ≠ .enterPpp) (before : t.prev = cr) :
    rxChanges lf t.port = (comparisons t.port.rnsm).filter fun change =>
      change.feature.isPrefixOf (compared (t.line ++ [lf])) := by
  rw [rxChanges, if_pos ⟨mode, h.prev ▸ before, rfl⟩, h.found_eq before]

/-- There are no calls inside a line. -/
theorem rxChanges_inside (h : t.Buffered) (inside : ¬ (t.prev = cr ∧ c = lf)) :
    rxChanges c t.port = [] := by
  rw [rxChanges, if_neg]
  rintro ⟨-, before, feed⟩
  exact inside ⟨h.prev.trans before, feed⟩

theorem calls_inside (h : t.Buffered) (inside : ¬ (t.prev = cr ∧ c = lf)) :
    (t.receive ppp len fresh c).calls = t.calls := by
  rw [receive_calls, h.rxChanges_inside inside, List.map_nil, List.append_nil]

/-- The offset at which the comparison starts. -/
theorem receive_offset (h : t.Buffered) (c : UInt8) : (t.receive ppp len fresh c).offset =
    (arrRxCharSize + 1) * (t.line.length / (arrRxCharSize + 1)) := by
  show (if t.port.arrRxCharNb = 0 then t.line.length else t.offset) = _
  rw [h.index]
  split_ifs with first
  · exact (Nat.mul_div_cancel' (Nat.dvd_of_mod_eq_zero first)).symm
  · have some : t.line ≠ [] := fun empty => first (by rw [empty]; rfl)
    have pos := List.length_pos_iff.2 some
    rw [h.offset some]
    unfold arrRxCharSize at first ⊢
    omega

/-- A byte inside a line. -/
theorem inside (h : t.Buffered) (mode : t.port.rnsm ≠ .enterPpp)
    (inside : ¬ (t.prev = cr ∧ c = lf)) : (t.receive ppp len fresh c).Buffered := by
  have port : (t.receive ppp len fresh c).port = storeChar c t.port := by
    rw [receive, mobileNetworkRx_eq mode, if_neg (h.prev ▸ inside)]
  have line : (t.receive ppp len fresh c).line = t.line ++ [c] :=
    if_neg (by simpa using inside)
  obtain ⟨arr, buffer⟩ := h.buffer
  refine ⟨?_, fun _ => ?_, ?_, fun _ => ?_, ?_⟩
  · rw [port, storeChar_newRxChar]
    rfl
  · rw [line, List.getLast?_concat]
    rfl
  · rw [port, line, storeChar_index h.index_le, h.index, Nat.mod_add_mod, List.length_append,
      List.length_singleton]
  · rw [h.receive_offset, line, List.length_append, List.length_singleton, Nat.add_sub_cancel]
  · rw [port, line]
    by_cases room : t.port.arrRxCharNb < arrRxCharSize
    · refine ⟨arr, ?_⟩
      rw [stored_concat (h.index ▸ room), storeChar_of_lt room, writeAll_concat, ← buffer,
        length_stored, ← h.index, Nat.zero_add]
    · exact ⟨_, by rw [stored_full (h.full room)]; rfl⟩

/-- The byte that ends a line. -/
theorem lineFeed (h : t.Buffered) (mode : t.port.rnsm ≠ .enterPpp) (before : t.prev = cr) :
    (t.receive ppp len fresh lf).Buffered := by
  have line : (t.receive ppp len fresh lf).line = [] := if_pos (by simpa using before)
  have port : (t.receive ppp len fresh lf).port =
      { makeChanges ppp (rxChanges lf t.port) (storeChar lf t.port) with arrRxCharNb := 0 } := by
    rw [receive, mobileNetworkRx_eq mode, if_pos ⟨h.prev ▸ before, rfl⟩]
  refine ⟨?_, fun some => absurd line some, ?_, fun some => absurd line some, ?_⟩
  · rw [port]
    dsimp only
    rw [makeChanges_locals, storeChar_newRxChar]
    rfl
  · rw [port, line]
    rfl
  · rw [line, stored_nil]
    exact ⟨_, rfl⟩

/-- The task changes the state. -/
theorem change (h : t.Buffered) (new : Rnsm) :
    Buffered { t with port := mStateChange ppp new t.port } := by
  obtain ⟨locals, index, -⟩ := mStateChange_locals ppp new t.port
  exact ⟨by rw [locals]; exact h.prev, h.last, by rw [index]; exact h.index, h.offset,
    by rw [locals]; exact h.buffer⟩

theorem step (h : t.Buffered) {event : LineEvent} (mode : ¬ t.InData event) :
    (t.step ppp len fresh event).Buffered := by
  cases event with
  | receive c =>
    by_cases ends : t.prev = cr ∧ c = lf
    · obtain ⟨before, rfl⟩ := ends
      exact h.lineFeed mode before
    · exact h.inside mode ends
  | reset => exact h.change .reset
  | reboot => exact h.change .reboot

/-- Bytes without a line break. -/
theorem receiveAll (h : t.Buffered) (ppp : Ppp P R) (len : ℕ) (fresh : Locals)
    (mode : t.port.rnsm ≠ .enterPpp) {bytes : List UInt8} (noBreak : NoBreak t.prev bytes) :
    Avoids (Reception.step ppp len fresh) InData t (bytes.map .receive) ∧
      Avoids (Reception.step ppp len fresh) FalseStart t (bytes.map .receive) ∧
      ((bytes.map .receive).foldl (Reception.step ppp len fresh) t).Buffered ∧
      ((bytes.map .receive).foldl (Reception.step ppp len fresh) t).port.rnsm = t.port.rnsm ∧
      ((bytes.map .receive).foldl (Reception.step ppp len fresh) t).line = t.line ++ bytes ∧
      ((bytes.map .receive).foldl (Reception.step ppp len fresh) t).calls = t.calls := by
  induction bytes generalizing t with
  | nil => exact ⟨trivial, trivial, h, rfl, (List.append_nil _).symm, rfl⟩
  | cons c bytes ih =>
    have rnsm : (t.receive ppp len fresh c).port.rnsm = t.port.rnsm := by
      rw [receive, mobileNetworkRx_eq mode, if_neg (h.prev ▸ noBreak.1), storeChar_rnsm]
    have line : (t.receive ppp len fresh c).line = t.line ++ [c] :=
      if_neg (by simpa using noBreak.1)
    have after : (t.receive ppp len fresh c).Buffered := h.inside mode noBreak.1
    have calls : (t.receive ppp len fresh c).calls = t.calls := h.calls_inside noBreak.1
    obtain ⟨command, good, buffered, same, rest, none⟩ := ih after (rnsm ▸ mode) noBreak.2
    rw [line, List.append_assoc] at rest
    exact ⟨⟨mode, command⟩, ⟨fun bad => noBreak.1 bad.1, good⟩, buffered, same.trans rnsm, rest,
      none.trans calls⟩

theorem start (empty : s.arrRxCharNb = 0) : (Reception.start s).Buffered where
  prev := rfl
  last some := absurd rfl some
  index := empty
  offset some := absurd rfl some
  buffer := ⟨s.locals.arrRxChar, by rw [Reception.start, stored_nil, writeAll]⟩

end Reception.Buffered

/-! ### Lines that fit the buffer -/

theorem compared_of_short (short : line.length ≤ arrRxCharSize + 1) : compared line = line := by
  have none : (line.length - 1) / (arrRxCharSize + 1) = 0 := Nat.div_eq_of_lt (by omega)
  rw [compared, none, Nat.mul_zero, List.drop_zero]

/-- The two strings have the same length, so no line starts with both. -/
theorem not_home_roaming (home : (ascii "+CGREG: 0,1").isPrefixOf line = true)
    (roaming : (ascii "+CGREG: 0,5").isPrefixOf line = true) : False := by
  rw [List.isPrefixOf_iff_prefix] at home roaming
  have shared := List.prefix_of_prefix_length_le home roaming (by decide)
  exact absurd shared (by decide)

/-- The strings found at the start of a line lead to the state that the line leads to. -/
theorem map_new_filter (line : List UInt8) (r : Rnsm) :
    ((comparisons r).filter fun change => change.feature.isPrefixOf line).map Change.new =
      if nextRnsm line r = r then [] else [nextRnsm line r] := by
  cases r with
  | reset => cases found : (ascii "OK").isPrefixOf line <;> simp [comparisons, nextRnsm, found]
  | ok =>
    cases home : (ascii "+CGREG: 0,1").isPrefixOf line <;>
      cases roaming : (ascii "+CGREG: 0,5").isPrefixOf line <;>
      simp [comparisons, nextRnsm, home, roaming]
    exact not_home_roaming home roaming
  | cgreg => cases found : (ascii "OK").isPrefixOf line <;> simp [comparisons, nextRnsm, found]
  | atd => cases found : (ascii "CONNECT").isPrefixOf line <;> simp [comparisons, nextRnsm, found]
  | enterPpp => rfl
  | reboot => rfl

/-- The receive thread and the reader are at the same place. -/
structure InStep (t : Reception P) (u : Reader) : Prop extends t.Buffered where
  rnsm : t.port.rnsm = u.rnsm
  line : t.line = u.line
  noReturn : t.line = [] → t.prev ≠ cr
  calls : (t.calls.map fun call => call.new) = u.calls

namespace InStep

variable {t : Reception P} {u : Reader}

/-- Both see the same line breaks. -/
theorem ends_iff (h : InStep t u) : u.line.getLast? = some cr ↔ t.prev = cr := by
  rw [← h.line]
  by_cases empty : t.line = []
  · rw [empty]
    exact iff_of_false (fun none => nomatch none) (h.noReturn empty)
  · rw [h.last empty, Option.some_inj]

/-- A byte inside a line. -/
theorem inside (h : InStep t u) (mode : t.port.rnsm ≠ .enterPpp)
    (inside : ¬ (t.prev = cr ∧ c = lf)) : InStep (t.receive ppp len fresh c) (u.receive c) := by
  have reader : u.receive c = { u with line := u.line ++ [c] } := by
    exact if_neg fun ends => inside ⟨h.ends_iff.mp ends.1, ends.2⟩
  have line : (t.receive ppp len fresh c).line = t.line ++ [c] :=
    if_neg (by simpa using inside)
  rw [reader]
  refine ⟨h.toBuffered.inside mode inside, ?_, ?_, ?_, ?_⟩
  · rw [Reception.receive, mobileNetworkRx_eq mode, if_neg (h.prev ▸ inside), storeChar_rnsm]
    exact h.rnsm
  · rw [line, h.line]
  · rw [line]
    exact fun empty => absurd empty (by simp)
  · rw [h.toBuffered.calls_inside inside]
    exact h.calls

/-- The byte that ends a line. -/
theorem lineFeed (h : InStep t u) (mode : t.port.rnsm ≠ .enterPpp) (before : t.prev = cr)
    (short : (t.line ++ [lf]).length ≤ arrRxCharSize) :
    InStep (t.receive ppp len fresh lf) (u.receive lf) := by
  have found := h.toBuffered.rxChanges_eq mode before
  rw [compared_of_short (Nat.le_succ_of_le short)] at found
  have news : (rxChanges lf t.port).map Change.new =
      if nextRnsm (t.line ++ [lf]) t.port.rnsm = t.port.rnsm then []
      else [nextRnsm (t.line ++ [lf]) t.port.rnsm] := by
    rw [found]
    exact map_new_filter _ _
  have reader : u.receive lf = ⟨nextRnsm (t.line ++ [lf]) t.port.rnsm, [],
      if nextRnsm (t.line ++ [lf]) t.port.rnsm = t.port.rnsm then u.calls
      else u.calls ++ [nextRnsm (t.line ++ [lf]) t.port.rnsm]⟩ := by
    rw [h.line, h.rnsm]
    exact if_pos ⟨h.ends_iff.mpr before, rfl⟩
  have line : (t.receive ppp len fresh lf).line = [] := if_pos (by simpa using before)
  rw [reader]
  refine ⟨h.toBuffered.lineFeed mode before, ?_, line, fun _ => ?_, ?_⟩
  · rw [Reception.receive, mobileNetworkRx_eq mode, if_pos ⟨h.prev ▸ before, rfl⟩]
    dsimp only
    rw [makeChanges_rnsm, news, storeChar_rnsm]
    split_ifs with same
    · exact same.symm
    · rfl
  · exact (by decide : lf ≠ cr)
  · rw [Reception.receive_calls, List.map_append, List.map_map, h.calls]
    have new : (rxChanges lf t.port).map ((fun call : LineCall => call.new) ∘ fun change =>
        ⟨change, t.line ++ [lf], decide (t.prev = cr ∧ lf = lf),
          (t.receive ppp len fresh lf).offset⟩) = (rxChanges lf t.port).map Change.new := rfl
    rw [new, news]
    split_ifs
    · exact List.append_nil _
    · rfl

theorem step (h : InStep t u) {event : LineEvent} (good : ¬ t.TooLong event) :
    InStep (t.step ppp len fresh event) (u.step event) := by
  have mode := Reception.not_inData_of_not_tooLong good
  cases event with
  | receive c =>
    by_cases ends : t.prev = cr ∧ c = lf
    · obtain ⟨before, rfl⟩ := ends
      exact h.lineFeed mode before (not_lt.mp fun long => good (.inr ⟨⟨before, rfl⟩, long⟩))
    · exact h.inside mode ends
  | reset => exact ⟨h.toBuffered.change .reset, rfl, h.line, h.noReturn, h.calls⟩
  | reboot => exact ⟨h.toBuffered.change .reboot, rfl, h.line, h.noReturn, h.calls⟩

end InStep

/-- While bytes arrive in command mode, and every line fits the buffer: the calls of the
receive thread are those of the reader, and the buffer is empty after every line. -/
theorem reception_refines_reader (ppp : Ppp P R) (len : ℕ) (fresh : Locals) (s : Port P)
    (empty : s.arrRxCharNb = 0) (noReturn : s.locals.newRxChar ≠ cr) (events : List LineEvent)
    (good : Avoids (Reception.step ppp len fresh) Reception.TooLong (.start s) events) :
    let t := events.foldl (Reception.step ppp len fresh) (.start s)
    let u := events.foldl Reader.step (.start s.rnsm)
    (t.calls.map fun call => call.new) = u.calls ∧ t.port.rnsm = u.rnsm ∧
      (u.line = [] → t.port.arrRxCharNb = 0) := by
  have start : InStep (Reception.start s) (Reader.start s.rnsm) :=
    ⟨.start empty, rfl, rfl, fun _ => noReturn, rfl⟩
  have final := good.foldl_related (fun t u event h ok => h.step ok) start
  refine ⟨final.calls, final.rnsm, fun none => ?_⟩
  rw [final.index, final.line, none]
  rfl

/-- Local variables that are all zero. -/
def zeroLocals : Locals := ⟨0, 0, fun _ => 0⟩

/-- Lines of different lengths: bytes of the longer ones stand in the buffer behind the
shorter ones. The task resets the state in between, and the last line is not complete. -/
def shortLines : List LineEvent :=
  (ascii "+CGREG: 0,1\r\nOK\r\n").map .receive ++ [.reset] ++
    (ascii "O\r\nOK\r\n+CGREG: 0,5\r\nOK").map .receive

theorem reception_refines_reader_short :
    let t := shortLines.foldl (Reception.step silentPpp 128 zeroLocals)
      (.start (.start silentPpp zeroLocals))
    let u := shortLines.foldl Reader.step (.start .reset)
    u = ⟨.cgreg, ascii "OK", [.ok, .ok, .cgreg]⟩ ∧
      (t.calls.map fun call => call.new) = u.calls ∧ t.port.rnsm = u.rnsm ∧
      (u.line = [] → t.port.arrRxCharNb = 0) :=
  ⟨by decide +kernel, reception_refines_reader silentPpp 128 zeroLocals
    (.start silentPpp zeroLocals) rfl (by decide) shortLines (by decide +kernel)⟩

/-! ### Lines of any length -/

namespace Reception

/-- Every call was made at the end of a line that starts with its string, and the buffer held
this line from its first byte on: no tail of a line was taken for a line. -/
def FromLines (t : Reception P) : Prop :=
  ∀ call ∈ t.calls, call.ends = true ∧ call.feature <+: call.line ∧ call.offset = 0

variable {t : Reception P}

/-- The calls made at the end of a line. -/
theorem calls_lineFeed (h : t.Buffered) (mode : t.port.rnsm ≠ .enterPpp) (before : t.prev = cr) :
    (t.receive ppp len fresh lf).calls =
      t.calls ++ ((comparisons t.port.rnsm).filter fun change =>
        change.feature.isPrefixOf (compared (t.line ++ [lf]))).map fun change =>
          ⟨change, t.line ++ [lf], true,
            (arrRxCharSize + 1) * (t.line.length / (arrRxCharSize + 1))⟩ := by
  have ends : decide (t.prev = cr ∧ lf = lf) = true := by simp [before]
  rw [receive_calls, h.rxChanges_eq mode before, ends, h.receive_offset]

theorem mem_calls_lineFeed (h : t.Buffered) (mode : t.port.rnsm ≠ .enterPpp) (before : t.prev = cr)
    {call : LineCall} : call ∈ (t.receive ppp len fresh lf).calls ↔
      call ∈ t.calls ∨ ∃ change ∈ comparisons t.port.rnsm,
        change.feature <+: compared (t.line ++ [lf]) ∧
          call = ⟨change, t.line ++ [lf], true,
            (arrRxCharSize + 1) * (t.line.length / (arrRxCharSize + 1))⟩ := by
  rw [calls_lineFeed h mode before]
  simp only [List.mem_append, List.mem_map, List.mem_filter, List.isPrefixOf_iff_prefix,
    and_assoc, eq_comm (a := call)]

/-- Without a false start every new call is due to its line. -/
theorem FromLines.step (h : t.FromLines) (buffered : t.Buffered) {event : LineEvent}
    (mode : ¬ t.InData event) (good : ¬ t.FalseStart event) :
    (t.step ppp len fresh event).FromLines := by
  cases event with
  | receive c =>
    by_cases ends : t.prev = cr ∧ c = lf
    · obtain ⟨before, rfl⟩ := ends
      intro call made
      rcases (mem_calls_lineFeed buffered mode before).mp made with old | ⟨change, hc, starts, rfl⟩
      · exact h call old
      · -- the line is short enough to be compared as a whole
        have short : (t.line ++ [lf]).length ≤ arrRxCharSize + 1 :=
          not_lt.mp fun long => good ⟨⟨before, rfl⟩, long, change, hc, starts⟩
        have none : t.line.length / (arrRxCharSize + 1) = 0 := by
          rw [List.length_append, List.length_singleton] at short
          exact Nat.div_eq_of_lt (by omega)
        refine ⟨rfl, ?_, by rw [none, Nat.mul_zero]⟩
        rwa [compared_of_short short] at starts
    · intro call made
      rw [Reception.step, buffered.calls_inside ends] at made
      exact h call made
  | reset => exact h
  | reboot => exact h

/-- A false start leads to a call. -/
theorem FalseStart.not_fromLines (buffered : t.Buffered) {event : LineEvent}
    (mode : ¬ t.InData event) (bad : t.FalseStart event) :
    ¬ (t.step ppp len fresh event).FromLines := by
  cases event with
  | receive c =>
    obtain ⟨⟨before, rfl⟩, long, change, hc, starts⟩ := bad
    intro fromLines
    have made := (@mem_calls_lineFeed P R ppp len fresh t buffered mode before _).mpr
      (.inr ⟨change, hc, starts, rfl⟩)
    -- the buffer started behind the first byte of so long a line
    have offset := (fromLines _ made).2.2
    rw [List.length_append, List.length_singleton] at long
    unfold arrRxCharSize at offset long
    dsimp only at offset
    omega
  | reset => exact bad.elim
  | reboot => exact bad.elim

end Reception

/-! ### A line as a whole -/

/-- The bytes of a line arrive, and then the line feed. -/
def lineOf (body : List UInt8) : List LineEvent := body.map .receive ++ [.receive lf]

/-- What a line does that arrives in command mode. -/
theorem Reception.Buffered.receiveLine {t : Reception P} (h : t.Buffered) (ppp : Ppp P R) (len : ℕ)
    (fresh : Locals) (mode : t.port.rnsm ≠ .enterPpp) (empty : t.line = []) {body : List UInt8}
    (noFeed : lf ∉ body) (last : body.getLast? = some cr) :
    let t' := (lineOf body).foldl (Reception.step ppp len fresh) t
    let matching := (comparisons t.port.rnsm).filter fun change =>
      change.feature.isPrefixOf (compared (body ++ [lf]))
    t'.Buffered ∧ t'.line = [] ∧
      t'.port.rnsm = ((matching.map Change.new).getLast?).getD t.port.rnsm ∧
      t'.calls = t.calls ++ matching.map (fun change =>
        ⟨change, body ++ [lf], true, (arrRxCharSize + 1) * (body.length / (arrRxCharSize + 1))⟩) ∧
      Avoids (Reception.step ppp len fresh) InData t (lineOf body) ∧
      (Avoids (Reception.step ppp len fresh) FalseStart t (lineOf body) ↔
        ¬ (arrRxCharSize + 1 < (body ++ [lf]).length ∧
          ∃ change ∈ comparisons t.port.rnsm, change.feature <+: compared (body ++ [lf]))) := by
  obtain ⟨command, good, buffered, rnsm, line, calls⟩ :=
    h.receiveAll ppp len fresh mode (noBreak_of_notMem noFeed _)
  rw [empty, List.nil_append] at line
  have run : (lineOf body).foldl (Reception.step ppp len fresh) t =
      ((body.map .receive).foldl (Reception.step ppp len fresh) t).receive ppp len fresh lf := by
    rw [lineOf, List.foldl_append]
    rfl
  have nonempty : body ≠ [] := fun none => by simp [none] at last
  have before : ((body.map .receive).foldl (Reception.step ppp len fresh) t).prev = cr := by
    have prev := buffered.last (by rw [line]; exact nonempty)
    rw [line, last] at prev
    exact (Option.some_inj.mp prev).symm
  rw [← rnsm] at mode ⊢
  have inCommand : ¬ ((body.map .receive).foldl (Reception.step ppp len fresh) t).InData
      (.receive lf) := mode
  dsimp only
  rw [run]
  refine ⟨buffered.lineFeed mode before, if_pos (by simpa using before), ?_, ?_,
    command.concat inCommand, ?_⟩
  · rw [receive]
    dsimp only
    rw [mobileNetworkRx_eq mode, if_pos ⟨buffered.prev ▸ before, rfl⟩]
    dsimp only
    rw [makeChanges_rnsm, storeChar_rnsm, buffered.rxChanges_eq mode before, line]
  · rw [calls_lineFeed buffered mode before, line, calls]
  · rw [lineOf, avoids_concat_iff, and_iff_right good]
    simp only [FalseStart, before, line, true_and]

/-- A line that fills the buffer, empties it again, and goes on with another line, up to its
carriage return. -/
def longLine (rest : String) : List UInt8 :=
  List.replicate (arrRxCharSize + 1) 0x41 ++ ascii rest ++ [cr]

section LongLine

variable {rest : String}

theorem longLine_last : (longLine rest).getLast? = some cr := List.getLast?_concat ..

theorem length_longLine :
    (longLine rest).length = arrRxCharSize + 1 + ((ascii rest).length + 1) := by
  rw [longLine, List.append_assoc, List.length_append, List.length_replicate, List.length_append]
  rfl

/-- Only the rest is compared. -/
theorem compared_longLine (short : (ascii rest).length < arrRxCharSize) :
    compared (longLine rest ++ [lf]) = ascii rest ++ [cr, lf] := by
  have once : (arrRxCharSize + 1 + ((ascii rest).length + 1)) / (arrRxCharSize + 1) = 1 := by
    unfold arrRxCharSize at short ⊢
    omega
  rw [compared, List.length_append, length_longLine, List.length_singleton, Nat.add_sub_cancel,
    once, Nat.mul_one, longLine, List.append_assoc, List.append_assoc]
  exact List.drop_left' (List.length_replicate ..)

theorem longLine_noFeed (plain : lf ∉ ascii rest) : lf ∉ longLine rest := by
  simp only [longLine, List.mem_append, not_or, List.mem_singleton]
  exact ⟨⟨fun mem => absurd (List.eq_of_mem_replicate mem) (by decide), plain⟩, by decide⟩

end LongLine

/-! ### Whole runs -/

/-- While bytes arrive in command mode: every call is due to a line that starts with its
string, exactly when no line has a false start. -/
theorem calls_from_lines_iff (ppp : Ppp P R) (len : ℕ) (fresh : Locals) (s : Port P)
    (empty : s.arrRxCharNb = 0) (events : List LineEvent)
    (within : Avoids (Reception.step ppp len fresh) Reception.InData (.start s) events) :
    Always (Reception.step ppp len fresh) Reception.FromLines (.start s) events ↔
      Avoids (Reception.step ppp len fresh) Reception.FalseStart (.start s) events := by
  -- `Buffered` says what is compared at the next line end, so it is carried along
  refine always_iff_avoids_within (fun t => t.Buffered ∧ t.FromLines) ?_ ?_ ?_ ?_ within
  · exact fun t inv => inv.2
  · exact fun t event inv mode good => ⟨inv.1.step mode, inv.2.step inv.1 mode good⟩
  · exact fun t event inv mode bad => bad.not_fromLines inv.1 mode
  · exact ⟨.start empty, fun call made => nomatch made⟩

/-- A long line of which the compared rest starts with no string, and then `OK`. -/
def longThenOk : List LineEvent := lineOf (longLine "NO") ++ lineOf (ascii "OK\r")

/-- The long line leads to no call, and the one after it to its own. -/
theorem calls_from_lines_iff_long :
    Always (Reception.step silentPpp 128 zeroLocals) Reception.FromLines
        (.start (.start silentPpp zeroLocals)) longThenOk ∧
      (longThenOk.foldl (Reception.step silentPpp 128 zeroLocals)
        (.start (.start silentPpp zeroLocals))).calls =
          [⟨⟨ascii "OK", .ok⟩, ascii "OK\r\n", true, 0⟩] := by
  obtain ⟨buffered, line, rnsm, calls, command, good⟩ :=
    (Reception.Buffered.start (s := .start silentPpp zeroLocals) rfl).receiveLine silentPpp 128
      zeroLocals (by decide) rfl (longLine_noFeed (by decide)) (@longLine_last "NO")
  rw [compared_longLine (by decide)] at rnsm calls good
  have quiet : (comparisons .reset).filter (fun change =>
      change.feature.isPrefixOf (ascii "NO" ++ [cr, lf])) = [] := by decide
  have reset : ((lineOf (longLine "NO")).foldl (Reception.step silentPpp 128 zeroLocals)
      (.start (.start silentPpp zeroLocals))).port.rnsm = .reset := by
    rw [rnsm]
    exact congrArg (fun calls => ((calls.map Change.new).getLast?).getD Rnsm.reset) quiet
  obtain ⟨-, -, -, calls', command', good'⟩ :=
    buffered.receiveLine silentPpp 128 zeroLocals (by rw [reset]; decide) line
      (show lf ∉ ascii "OK\r" by decide) (by decide)
  refine ⟨(calls_from_lines_iff silentPpp 128 zeroLocals (.start silentPpp zeroLocals) rfl
    longThenOk (command.append command')).mpr ((good.mpr ?_).append (good'.mpr ?_)), ?_⟩
  · rintro ⟨-, starts⟩
    exact absurd starts (by decide)
  · rintro ⟨long, -⟩
    exact absurd long (by decide)
  · rw [longThenOk, List.foldl_append, calls', calls, reset]
    decide

/-- The end of the long line is taken for `OK`. -/
theorem calls_from_lines_fails_long :
    Avoids (Reception.step silentPpp 128 zeroLocals) Reception.InData
        (.start (.start silentPpp zeroLocals)) (lineOf (longLine "OK")) ∧
      ¬ ((lineOf (longLine "OK")).foldl (Reception.step silentPpp 128 zeroLocals)
        (.start (.start silentPpp zeroLocals))).FromLines := by
  obtain ⟨-, -, -, calls, command, -⟩ :=
    (Reception.Buffered.start (s := .start silentPpp zeroLocals) rfl).receiveLine silentPpp 128
      zeroLocals (by decide) rfl (longLine_noFeed (by decide)) (@longLine_last "OK")
  refine ⟨command, fun fromLines => ?_⟩
  rw [compared_longLine (by decide), length_longLine] at calls
  have made : (⟨⟨ascii "OK", .ok⟩, longLine "OK" ++ [lf], true, arrRxCharSize + 1⟩ : LineCall) ∈
      ((lineOf (longLine "OK")).foldl (Reception.step silentPpp 128 zeroLocals)
        (.start (.start silentPpp zeroLocals))).calls := by
    rw [calls]
    exact List.mem_append_right _ (List.mem_map.mpr ⟨⟨ascii "OK", .ok⟩, by decide, rfl⟩)
  -- the line starts with another byte
  obtain ⟨rest, same⟩ := (fromLines _ made).2.1
  have first : (ascii "OK" ++ rest).head? = some 0x41 := by
    rw [same, longLine, List.replicate_succ]
    rfl
  exact absurd (Option.some_inj.mp first) (by decide)

end Components.Modem
