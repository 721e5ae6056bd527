import Components.Modem.Basic
import Mathlib.Data.List.Basic

/-!
# Lines in command mode

Bytes that complete no line only fill the buffer. A line that fits the buffer is
therefore compared as a whole, and what it starts with decides.

## Main results

* `feed_of_noBreak` — bytes without a line break are stored
* `feed_line` — a whole line reaches `lineEnd`
* `startsWith_writeAll` — the comparison looks at the line
* `feed_line_eq` — outside `at_atd` a line moves the state and nothing else
-/

namespace Components.Modem

variable {P R : Type} {ppp : Ppp P R} {fresh : Locals} {s : Port P} {bytes body : List UInt8}

/-- Bytes arriving one after the other. -/
def feed (ppp : Ppp P R) (fresh : Locals) (bytes : List UInt8) (s : Port P) : Port P :=
  bytes.foldl (fun s c => mobileNetworkRx ppp rxThreadLen c fresh s) s

/-- Bytes taken into the line buffer one after the other. -/
def storeAll (bytes : List UInt8) (s : Port P) : Port P := bytes.foldl (fun s c => storeChar c s) s

/-- No line feed follows a carriage return, where `p` is the byte before. -/
def NoBreak : UInt8 → List UInt8 → Prop
  | _, [] => True
  | p, c :: bytes => ¬ (p = cr ∧ c = lf) ∧ NoBreak c bytes

/-- The array after the bytes are written from index `i` on. -/
def writeAll (arr : ℕ → UInt8) : ℕ → List UInt8 → ℕ → UInt8
  | _, [] => arr
  | i, c :: bytes => writeAll (Function.update arr i c) (i + 1) bytes

/-- The buffer holds a line, with its carriage return and line feed. -/
def withLine (line : List UInt8) (s : Port P) : Port P :=
  { s with
    locals := ⟨cr, lf, writeAll s.locals.arrRxChar 0 line⟩
    arrRxCharNb := line.length }

/-! ### Storing -/

theorem storeChar_of_lt (room : s.arrRxCharNb < arrRxCharSize) (c : UInt8) :
    storeChar c s =
      { s with
        locals :=
          ⟨s.locals.newRxChar, c, Function.update s.locals.arrRxChar s.arrRxCharNb c⟩
        arrRxCharNb := s.arrRxCharNb + 1 } := by
  simp [storeChar, room]

/-- Storing changes the buffer, its index and the last two bytes, and nothing else. -/
theorem storeAll_eq (bytes : List UInt8) (room : s.arrRxCharNb + bytes.length ≤ arrRxCharSize) :
    ∃ last new, storeAll bytes s =
      { s with
        locals := ⟨last, new, writeAll s.locals.arrRxChar s.arrRxCharNb bytes⟩
        arrRxCharNb := s.arrRxCharNb + bytes.length } := by
  induction bytes generalizing s with
  | nil => exact ⟨s.locals.lastRxChar, s.locals.newRxChar, rfl⟩
  | cons c bytes ih =>
    rw [List.length_cons] at room
    have stored := storeChar_of_lt (s := s) (by omega) c
    -- the buffer is never full on the way, so no byte is lost
    have room' : (storeChar c s).arrRxCharNb + bytes.length ≤ arrRxCharSize := by
      rw [stored]
      show s.arrRxCharNb + 1 + bytes.length ≤ arrRxCharSize
      omega
    obtain ⟨last, new, rest⟩ := ih room'
    refine ⟨last, new, ?_⟩
    show storeAll bytes (storeChar c s) = _
    rw [rest, stored, List.length_cons, Nat.add_assoc, Nat.add_comm 1]
    rfl

theorem storeAll_concat (c : UInt8) :
    storeAll (bytes ++ [c]) s = storeChar c (storeAll bytes s) := by
  simp [storeAll]

@[simp] theorem storeChar_newRxChar (c : UInt8) : (storeChar c s).locals.newRxChar = c := by
  unfold storeChar
  split_ifs <;> rfl

@[simp] theorem storeChar_lastRxChar (c : UInt8) :
    (storeChar c s).locals.lastRxChar = s.locals.newRxChar := by
  unfold storeChar
  split_ifs <;> rfl

@[simp] theorem storeChar_rnsm (c : UInt8) : (storeChar c s).rnsm = s.rnsm := by
  unfold storeChar
  split_ifs <;> rfl

/-! ### Whole lines -/

/-- A byte that does not end a line is stored. -/
theorem mobileNetworkRx_of_noBreak (mode : s.rnsm ≠ .enterPpp) {c : UInt8}
    (inside : ¬ (s.locals.newRxChar = cr ∧ c = lf)) :
    mobileNetworkRx ppp rxThreadLen c fresh s = storeChar c s := by
  simp [mobileNetworkRx, mode, rxLine, inside]

theorem feed_of_noBreak (mode : s.rnsm ≠ .enterPpp) (inside : NoBreak s.locals.newRxChar bytes) :
    feed ppp fresh bytes s = storeAll bytes s := by
  induction bytes generalizing s with
  | nil => rfl
  | cons c bytes ih =>
    show feed ppp fresh bytes (mobileNetworkRx ppp rxThreadLen c fresh s) =
      storeAll bytes (storeChar c s)
    rw [mobileNetworkRx_of_noBreak mode inside.1]
    exact ih (by simpa using mode) (by simpa using inside.2)

theorem noBreak_concat_cr {p : UInt8} (inside : NoBreak p body) : NoBreak p (body ++ [cr]) := by
  induction body generalizing p with
  | nil => exact ⟨fun h => absurd h.2 (by decide), trivial⟩
  | cons c body ih => exact ⟨inside.1, ih inside.2⟩

/-- Bytes without a line feed have no line break. -/
theorem noBreak_of_notMem (plain : lf ∉ bytes) (p : UInt8) : NoBreak p bytes := by
  induction bytes generalizing p with
  | nil => trivial
  | cons c bytes ih =>
    rw [List.mem_cons, not_or] at plain
    exact ⟨fun h => plain.1 h.2.symm, ih plain.2 c⟩

/-- A line that fits the buffer is compared as a whole. -/
theorem feed_line (mode : s.rnsm ≠ .enterPpp) (empty : s.arrRxCharNb = 0)
    (inside : NoBreak s.locals.newRxChar body) (short : body.length + 2 ≤ arrRxCharSize) :
    feed ppp fresh (body ++ [cr, lf]) s =
      { lineEnd ppp (withLine (body ++ [cr, lf]) s) with arrRxCharNb := 0 } := by
  have split : body ++ [cr, lf] = (body ++ [cr]) ++ [lf] := by simp
  -- up to the carriage return the bytes are stored
  have before : feed ppp fresh (body ++ [cr]) s = storeAll (body ++ [cr]) s :=
    feed_of_noBreak mode (noBreak_concat_cr inside)
  have returned : (storeAll (body ++ [cr]) s).locals.newRxChar = cr := by
    rw [storeAll_concat, storeChar_newRxChar]
  have stored : storeAll (body ++ [cr, lf]) s = storeChar lf (storeAll (body ++ [cr]) s) := by
    rw [split, storeAll_concat]
  obtain ⟨last, new, whole⟩ := storeAll_eq (s := s) (body ++ [cr, lf])
    (by rw [empty]; simpa using short)
  have last_eq : last = cr := by
    have eq := congrArg (fun t => t.locals.lastRxChar) (stored.symm.trans whole)
    simpa [returned] using eq.symm
  have new_eq : new = lf := by
    have eq := congrArg (fun t => t.locals.newRxChar) (stored.symm.trans whole)
    simpa using eq.symm
  have mode' : (storeAll (body ++ [cr]) s).rnsm ≠ .enterPpp := by
    have eq := congrArg (fun t => t.rnsm) (stored.symm.trans whole)
    rw [storeChar_rnsm] at eq
    exact eq ▸ mode
  -- the line feed completes the line
  calc feed ppp fresh (body ++ [cr, lf]) s
      = mobileNetworkRx ppp rxThreadLen lf fresh (feed ppp fresh (body ++ [cr]) s) := by
        rw [split]
        simp [feed]
    _ = rxLine ppp lf (storeAll (body ++ [cr]) s) := by
        rw [before, mobileNetworkRx, if_pos mode']
    _ = { lineEnd ppp (storeAll (body ++ [cr, lf]) s) with arrRxCharNb := 0 } := by
        simp [rxLine, stored, returned]
    _ = _ := by
        rw [whole, last_eq, new_eq, empty, Nat.zero_add]
        rfl

/-! ### Comparing -/

theorem writeAll_of_lt (arr : ℕ → UInt8) {i j : ℕ} (lt : j < i) :
    writeAll arr i bytes j = arr j := by
  induction bytes generalizing arr i with
  | nil => rfl
  | cons c bytes ih =>
    rw [writeAll, ih _ (Nat.lt_succ_of_lt lt), Function.update_of_ne (Nat.ne_of_lt lt)]

/-- The comparison looks at the bytes just written: they have a byte, such as a carriage
return, which no feature string has, so it never gets as far as what the buffer held
before. -/
theorem startsWith_writeAll (arr : ℕ → UInt8) (i : ℕ) {features : List UInt8} {stop : UInt8}
    (ends : stop ∈ bytes) (plain : stop ∉ features) :
    startsWith (writeAll arr i bytes) features i = features.isPrefixOf bytes := by
  induction features generalizing arr i bytes with
  | nil => simp [startsWith]
  | cons f features ih =>
    cases bytes with
    | nil => simp at ends
    | cons c bytes =>
      have compared : writeAll (Function.update arr i c) (i + 1) bytes i = c := by
        rw [writeAll_of_lt _ (Nat.lt_succ_self i), Function.update_self]
      rw [startsWith, writeAll, compared, List.isPrefixOf]
      by_cases same : c = f
      -- a byte that matched was not the one that stops, so this is still to come
      · have ends' : stop ∈ bytes := by
          rcases List.mem_cons.mp ends with here | later
          · exact absurd (by simp [here, same]) plain
          · exact later
        rw [ih _ _ ends' fun mem => plain (List.mem_cons_of_mem _ mem)]
        simp [same]
      · simp [same, Ne.symm same]

/-- Nor does it look at what follows. -/
theorem isPrefixOf_append {features l : List UInt8} {stop : UInt8} (ends : stop ∈ bytes)
    (plain : stop ∉ features) : features.isPrefixOf (bytes ++ l) = features.isPrefixOf bytes := by
  induction features generalizing bytes with
  | nil => simp
  | cons f features ih =>
    cases bytes with
    | nil => simp at ends
    | cons c bytes =>
      rw [List.cons_append, List.isPrefixOf, List.isPrefixOf]
      by_cases same : f = c
      · have ends' : stop ∈ bytes := by
          rcases List.mem_cons.mp ends with here | later
          · exact absurd (by simp [here, same]) plain
          · exact later
        rw [ih ends' fun mem => plain (List.mem_cons_of_mem _ mem)]
      · simp [beq_eq_false_iff_ne.mpr same]

theorem writeAll_concat (arr : ℕ → UInt8) (i : ℕ) (c : UInt8) :
    writeAll arr i (bytes ++ [c]) =
      Function.update (writeAll arr i bytes) (i + bytes.length) c := by
  induction bytes generalizing arr i with
  | nil => rfl
  | cons d bytes ih =>
    rw [List.cons_append, writeAll, ih, writeAll, List.length_cons, Nat.add_assoc, Nat.add_comm 1]

/-- The state that a line leads to. -/
def nextRnsm (line : List UInt8) : Rnsm → Rnsm
  | .reset => if (ascii "OK").isPrefixOf line then .ok else .reset
  | .ok =>
    if (ascii "+CGREG: 0,1").isPrefixOf line || (ascii "+CGREG: 0,5").isPrefixOf line then .cgreg
    else .ok
  | .cgreg => if (ascii "OK").isPrefixOf line then .atd else .cgreg
  | .atd => if (ascii "CONNECT").isPrefixOf line then .enterPpp else .atd
  | .enterPpp => .enterPpp
  | .reboot => .reboot

theorem mStateChange_eq {new : Rnsm} (ne : new ≠ .reboot) (ne' : new ≠ .enterPpp) :
    mStateChange ppp new s = { s with rnsm := new } := by
  simp [mStateChange, ne, ne']

theorem setRnsm_self {r : Rnsm} (same : s.rnsm = r) : { s with rnsm := r } = s := by
  subst same
  rfl

/-- A comparison that does not start the connection moves the state and nothing else. -/
theorem compareLine_eq {change : Change} (ne : change.new ≠ .reboot)
    (ne' : change.new ≠ .enterPpp) :
    ∃ changes, compareLine ppp change s =
      { s with
        rnsm := if startsWith s.locals.arrRxChar change.feature 0 then change.new else s.rnsm
        changes := changes } := by
  unfold compareLine
  split_ifs
  · exact ⟨_, mStateChange_eq ne ne'⟩
  · exact ⟨s.changes, rfl⟩

/-- At the end of a line that stands in the buffer. -/
theorem lineEnd_eq (mode : s.rnsm ≠ .atd) {line : List UInt8} (ends : cr ∈ line) :
    ∃ changes, lineEnd ppp (withLine line s) =
      { withLine line s with rnsm := nextRnsm line s.rnsm, changes := changes } := by
  have compare : ∀ features, cr ∉ features →
      startsWith (withLine line s).locals.arrRxChar features 0 = features.isPrefixOf line :=
    fun features plain => startsWith_writeAll _ 0 ends plain
  have toOk := compare (ascii "OK") (by decide)
  have home := compare (ascii "+CGREG: 0,1") (by decide)
  have roaming := compare (ascii "+CGREG: 0,5") (by decide)
  have same : (withLine line s).rnsm = s.rnsm := rfl
  unfold lineEnd
  rw [same]
  cases state : s.rnsm with
  | reset =>
    obtain ⟨changes, eq⟩ := @compareLine_eq P R ppp (withLine line s) ⟨ascii "OK", .ok⟩
      (by decide) (by decide)
    refine ⟨changes, eq.trans ?_⟩
    rw [same, state, toOk]
    rfl
  | ok =>
    obtain ⟨first, eq⟩ := @compareLine_eq P R ppp (withLine line s) ⟨ascii "+CGREG: 0,1", .cgreg⟩
      (by decide) (by decide)
    dsimp only
    rw [eq]
    obtain ⟨changes, eq'⟩ := @compareLine_eq P R ppp
      { withLine line s with
        rnsm := if startsWith (withLine line s).locals.arrRxChar (ascii "+CGREG: 0,1") 0 then .cgreg
          else (withLine line s).rnsm
        changes := first } ⟨ascii "+CGREG: 0,5", .cgreg⟩ (by decide) (by decide)
    refine ⟨changes, eq'.trans ?_⟩
    dsimp only
    rw [same, state, home, roaming, nextRnsm]
    -- at most one of the two strings is there, and both lead to the same state
    cases (ascii "+CGREG: 0,1").isPrefixOf line <;>
      cases (ascii "+CGREG: 0,5").isPrefixOf line <;> rfl
  | cgreg =>
    obtain ⟨changes, eq⟩ := @compareLine_eq P R ppp (withLine line s) ⟨ascii "OK", .atd⟩
      (by decide) (by decide)
    refine ⟨changes, eq.trans ?_⟩
    rw [same, state, toOk]
    rfl
  | atd => exact absurd state mode
  | enterPpp => exact ⟨s.changes, (setRnsm_self (same.trans state)).symm⟩
  | reboot => exact ⟨s.changes, (setRnsm_self (same.trans state)).symm⟩

/-- Outside `at_atd` a line moves the state and leaves an empty buffer. -/
theorem feed_line_eq (ppp : Ppp P R) (fresh : Locals) (mode : s.rnsm ≠ .enterPpp)
    (mode' : s.rnsm ≠ .atd) (empty : s.arrRxCharNb = 0) (inside : NoBreak s.locals.newRxChar body)
    (short : body.length + 2 ≤ arrRxCharSize) :
    ∃ changes, feed ppp fresh (body ++ [cr, lf]) s =
      { s with
        rnsm := nextRnsm (body ++ [cr, lf]) s.rnsm
        locals := ⟨cr, lf, writeAll s.locals.arrRxChar 0 (body ++ [cr, lf])⟩
        arrRxCharNb := 0
        changes := changes } := by
  obtain ⟨changes, ended⟩ := @lineEnd_eq P R ppp s mode' (body ++ [cr, lf]) (by simp)
  rw [feed_line mode empty inside short, ended]
  exact ⟨changes, rfl⟩

end Components.Modem
