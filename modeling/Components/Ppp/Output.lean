import Components.Ppp.Basic
import Components.Modem.Basic

/-!
# Sending frames: `pppos_netif_output` and `pppos_write`

A frame is collected in one packet buffer. When the buffer has no room for two more
characters it is handed to the output callback, and so is what is in it at the end. The
callback says how many bytes it took. Anything but all of them is an error, after which
nothing more of the frame is handed out.

## Main definitions

* `ppposOutputAppend`, `ppposOutputLast`, `ppposWrite`, `ppposNetifOutput` — the functions
* `PppCall.answer` — what is handed to a callback that may answer anything
* `line` — the bytes of a frame on the line

## Main results

* `output_outcome` — the buffers handed out are a frame cut in pieces, or the beginning of one
  when the callback has refused a piece
-/

namespace Components.Modem.PppCall

variable {α β : Type}

/-- One call after the other. -/
def bind : PppCall α → (α → PppCall β) → PppCall β
  | .ret a, f => f a
  | .output data resume, f => .output data fun n => (resume n).bind f

instance : Monad PppCall where
  pure := .ret
  bind := bind

/-- The buffers handed to the callback, after some others, and the result of the call. What
the callback takes may depend on everything it has been handed. -/
def answer (reply : List (List UInt8) → List UInt8 → ℕ) :
    PppCall α → List (List UInt8) → List (List UInt8) × α
  | .ret a, log => (log, a)
  | .output data resume, log => (resume (reply log data)).answer reply (log ++ [data])

theorem answer_pure (reply : List (List UInt8) → List UInt8 → ℕ) (a : α)
    (log : List (List UInt8)) : (pure a : PppCall α).answer reply log = (log, a) := rfl

theorem answer_bind (reply : List (List UInt8) → List UInt8 → ℕ) (call : PppCall α)
    (f : α → PppCall β) (log : List (List UInt8)) :
    (call >>= f).answer reply log =
      (f (call.answer reply log).2).answer reply (call.answer reply log).1 := by
  induction call generalizing log with
  | ret a => rfl
  | output data resume ih => exact ih (reply log data) (log ++ [data])

end Components.Modem.PppCall

namespace Components.Ppp

open Modem (PppCall)

/-- `err_t`, as far as it is used here. -/
inductive Err
  | ok
  | mem
  | interface
  deriving DecidableEq, Repr

/-- The local variables of an output function: `err`, the buffer `nb` and `fcs_out`. -/
structure Out where
  err : Err
  nb : List UInt8
  fcs : UInt16
  deriving DecidableEq, Repr

/-- Make sure there is room for the character and an escape code. -/
def makeRoom (s : Out) : PppCall Out :=
  if pbufPoolBufsize - s.nb.length < 2 then
    .output s.nb fun l =>
      .ret (if l ≠ s.nb.length then { s with err := .interface } else { s with nb := [] })
  else .ret s

/-- Copy to the output buffer, escaping special characters. -/
def copyChar (outAccm : ExtAccm) (c : UInt8) (accm fcs : Bool) (s : Out) : Out :=
  let s := if fcs then { s with fcs := pppFcs s.fcs c } else s
  if accm && escapeP outAccm c then { s with nb := s.nb ++ [pppEscape, c ^^^ pppTrans] }
  else { s with nb := s.nb ++ [c] }

/-- `pppos_output_append`. The last argument tells whether there is a check sequence to
update. -/
def ppposOutputAppend (outAccm : ExtAccm) (s : Out) (c : UInt8) (accm fcs : Bool) : PppCall Out :=
  if s.err ≠ .ok then .ret s
  else do
    let s ← makeRoom s
    if s.err ≠ .ok then return s
    return copyChar outAccm c accm fcs s

/-- Append the characters of a packet. -/
def appendAll (outAccm : ExtAccm) : List UInt8 → Out → PppCall Out
  | [], s => .ret s
  | c :: bytes, s => do
    let s ← ppposOutputAppend outAccm s c true true
    appendAll outAccm bytes s

/-- The end of `pppos_output_last`: send the remaining buffer if it is not empty. -/
def sendRemaining (p : Pppos) (now : UInt32) (s : Out) : PppCall (Err × Pppos) :=
  if s.err ≠ .ok then .ret (s.err, { p with lastXmit := 0 })
  else if s.nb.length > 0 then
    .output s.nb fun l => .ret
      (if l ≠ s.nb.length then (.interface, { p with lastXmit := 0 })
      else (.ok, { p with lastXmit := now }))
  else .ret (.ok, { p with lastXmit := now })

/-- `pppos_output_last`, with the time at which it ends. -/
def ppposOutputLast (p : Pppos) (now : UInt32) (s : Out) : PppCall (Err × Pppos) := do
  let s' ← ppposOutputAppend p.outAccm s (~~~s.fcs).toUInt8 true false
  let s' ← ppposOutputAppend p.outAccm s' ((~~~s.fcs) >>> 8).toUInt8 true false
  let s' ← ppposOutputAppend p.outAccm s' pppFlag false false
  sendRemaining p now s'

/-- `PPP_MAXIDLEFLAG`. -/
def pppMaxidleflag : UInt32 := 100

/-- Has the link been idle, so that a fresh flag character is sent first? -/
def idleFlag (p : Pppos) (now : UInt32) : Bool := now - p.lastXmit ≥ pppMaxidleflag

/-- The flag character in front of a frame. -/
def leadingFlag (p : Pppos) (now : UInt32) : PppCall Out :=
  let s : Out := ⟨.ok, [], pppInitFcs⟩
  if idleFlag p now then ppposOutputAppend p.outAccm s pppFlag false false else .ret s

/-- What surrounds an output call: is there a buffer for it, and the values of `sys_now()` at
the beginning and at the end. -/
structure Moment where
  hasPbuf : Bool
  before : UInt32
  after : UInt32

/-- `pppos_write` for the payload of a packet. -/
def ppposWrite (m : Moment) (payload : List UInt8) (p : Pppos) : PppCall (Err × Pppos) :=
  if !m.hasPbuf then .ret (.mem, p)
  else do
    let s ← leadingFlag p m.before
    let s ← appendAll p.outAccm payload { s with fcs := pppInitFcs }
    ppposOutputLast p m.after s

/-- The address and control fields and the protocol, as `pppos_netif_output` sends them. -/
def headerBytes (pcomp accomp : Bool) (protocol : UInt16) : List UInt8 :=
  (if !accomp then [pppAllstations, pppUi] else []) ++
    (if !pcomp || protocol > 0xff then [(protocol >>> 8).toUInt8] else []) ++ [protocol.toUInt8]

/-- The loop over the buffers of a packet. -/
def appendChain (outAccm : ExtAccm) : List (List UInt8) → Out → PppCall Out
  | [], s => .ret s
  | payload :: pb, s => do
    let s ← appendAll outAccm payload s
    appendChain outAccm pb s

/-- `pppos_netif_output` for a chain of packet buffers. -/
def ppposNetifOutput (m : Moment) (protocol : UInt16) (pb : List (List UInt8)) (p : Pppos) :
    PppCall (Err × Pppos) :=
  if !m.hasPbuf then .ret (.mem, p)
  else do
    let s ← leadingFlag p m.before
    let s ← appendAll p.outAccm (headerBytes p.pcomp p.accomp protocol)
      { s with fcs := pppInitFcs }
    let s ← appendChain p.outAccm pb s
    ppposOutputLast p m.after s

/-! ### The bytes of a frame -/

/-- The characters with the special ones escaped. -/
def stuff (outAccm : ExtAccm) (bytes : List UInt8) : List UInt8 :=
  bytes.flatMap fun c => if escapeP outAccm c then [pppEscape, c ^^^ pppTrans] else [c]

/-- A frame on the line. -/
def line (lead : Bool) (outAccm : ExtAccm) (content : List UInt8) : List UInt8 :=
  (if lead then [pppFlag] else []) ++ stuff outAccm (content ++ fcsBytes (fcsOf content)) ++
    [pppFlag]

/-! ### The pieces handed out -/

variable {reply : List (List UInt8) → List UInt8 → ℕ} {log pieces : List (List UInt8)}
  {sent bytes : List UInt8} {fcs : UInt16} {s : Out} {outAccm : ExtAccm} {p : Pppos}

/-- The callback took all of every piece. -/
inductive Accepted (reply : List (List UInt8) → List UInt8 → ℕ) : List (List UInt8) → Prop
  | nil : Accepted reply []
  | concat {pieces : List (List UInt8)} {piece : List UInt8} (before : Accepted reply pieces)
      (all : reply pieces piece = piece.length) : Accepted reply (pieces ++ [piece])

/-- A piece fills the buffer at most. -/
def Fits (pieces : List (List UInt8)) : Prop :=
  ∀ piece ∈ pieces, piece ≠ [] ∧ piece.length ≤ pbufPoolBufsize

/-- The callback took all pieces but the last. -/
def Refused (reply : List (List UInt8) → List UInt8 → ℕ) (pieces : List (List UInt8)) : Prop :=
  ∃ before piece, pieces = before ++ [piece] ∧ Accepted reply before ∧
    reply before piece ≠ piece.length

/-- The callback took all pieces and they are these bytes, or it has refused the last piece
of a beginning of them. -/
def Outcome (reply : List (List UInt8) → List UInt8 → ℕ) (sent : List UInt8) (err : Err)
    (pieces : List (List UInt8)) : Prop :=
  Fits pieces ∧
    (err = .ok ∧ Accepted reply pieces ∧ pieces.flatten = sent ∨
      err = .interface ∧ Refused reply pieces ∧ pieces.flatten <+: sent)

/-- The bytes `sent` have been appended: they have been handed out but for those in the
buffer, or handing them out has failed. -/
def Sending (reply : List (List UInt8) → List UInt8 → ℕ) (sent : List UInt8) (fcs : UInt16)
    (pieces : List (List UInt8)) (s : Out) : Prop :=
  Fits pieces ∧
    (s.err = .ok ∧ Accepted reply pieces ∧ pieces.flatten ++ s.nb = sent ∧
        s.nb.length ≤ pbufPoolBufsize ∧ s.fcs = fcs ∨
      s.err = .interface ∧ Refused reply pieces ∧ pieces.flatten <+: sent)

theorem Fits.concat {piece : List UInt8} (fits : Fits pieces) (ne : piece ≠ [])
    (short : piece.length ≤ pbufPoolBufsize) : Fits (pieces ++ [piece]) := by
  intro other mem
  rcases List.mem_append.mp mem with before | last
  · exact fits other before
  · obtain rfl := List.mem_singleton.mp last
    exact ⟨ne, short⟩

/-- The characters that one character becomes. -/
def encoded (outAccm : ExtAccm) (c : UInt8) (accm : Bool) : List UInt8 :=
  if accm && escapeP outAccm c then [pppEscape, c ^^^ pppTrans] else [c]

theorem length_encoded_le (outAccm : ExtAccm) (c : UInt8) (accm : Bool) :
    (encoded outAccm c accm).length ≤ 2 := by
  unfold encoded
  split_ifs <;> simp

theorem copyChar_eq (outAccm : ExtAccm) (c : UInt8) (accm fcs : Bool) (s : Out) :
    copyChar outAccm c accm fcs s = ⟨s.err, s.nb ++ encoded outAccm c accm,
      if fcs then pppFcs s.fcs c else s.fcs⟩ := by
  unfold copyChar encoded
  cases fcs <;> split_ifs <;> simp_all

/-- After a failure nothing more is handed out. -/
theorem ppposOutputAppend_failed (failed : s.err ≠ .ok) (c : UInt8) (accm fcs : Bool) :
    ppposOutputAppend outAccm s c accm fcs = .ret s := by
  rw [ppposOutputAppend, if_pos failed]

/-- One character. -/
theorem Sending.append (sending : Sending reply sent fcs log s) (outAccm : ExtAccm) (c : UInt8)
    (accm update : Bool) :
    let r := (ppposOutputAppend outAccm s c accm update).answer reply log
    Sending reply (sent ++ encoded outAccm c accm) (if update then pppFcs fcs c else fcs)
      r.1 r.2 := by
  obtain ⟨fits, ⟨ok, accepted, rfl, short, rfl⟩ | ⟨failed, refused, before⟩⟩ := sending
  · have live : ¬ s.err ≠ .ok := not_not.mpr ok
    have two := length_encoded_le outAccm c accm
    by_cases full : pbufPoolBufsize - s.nb.length < 2
    · -- the buffer is handed out first
      have ne : s.nb ≠ [] := by
        rintro empty
        rw [empty, pbufPoolBufsize_eq] at full
        simp at full
      by_cases all : reply log s.nb = s.nb.length
      · have taken : (ppposOutputAppend outAccm s c accm update).answer reply log =
            (log ++ [s.nb], copyChar outAccm c accm update { s with nb := [] }) := by
          rw [ppposOutputAppend, if_neg live, PppCall.answer_bind]
          simp [makeRoom, full, PppCall.answer, all, ok, pure]
        rw [taken]
        refine ⟨fits.concat ne short, .inl ?_⟩
        rw [copyChar_eq]
        refine ⟨ok, accepted.concat all, by simp, ?_, rfl⟩
        rw [pbufPoolBufsize_eq]
        simp
        omega
      · have taken : (ppposOutputAppend outAccm s c accm update).answer reply log =
            (log ++ [s.nb], { s with err := .interface }) := by
          rw [ppposOutputAppend, if_neg live, PppCall.answer_bind]
          simp [makeRoom, full, PppCall.answer, all, pure]
        rw [taken]
        refine ⟨fits.concat ne short, .inr ⟨rfl, ⟨log, s.nb, rfl, accepted, all⟩, ?_⟩⟩
        simp
    · have taken : (ppposOutputAppend outAccm s c accm update).answer reply log =
          (log, copyChar outAccm c accm update s) := by
        rw [ppposOutputAppend, if_neg live, PppCall.answer_bind]
        simp [makeRoom, full, PppCall.answer, ok, pure]
      rw [taken]
      refine ⟨fits, .inl ?_⟩
      rw [copyChar_eq]
      refine ⟨ok, accepted, by simp, ?_, rfl⟩
      simp
      omega
  · have stopped : s.err ≠ .ok := by simp [failed]
    rw [ppposOutputAppend_failed stopped]
    exact ⟨fits, .inr ⟨failed, refused, before.trans (List.prefix_append _ _)⟩⟩

theorem stuff_cons (outAccm : ExtAccm) (c : UInt8) (bytes : List UInt8) :
    stuff outAccm (c :: bytes) = encoded outAccm c true ++ stuff outAccm bytes := by
  simp [stuff, encoded]

theorem stuff_append (outAccm : ExtAccm) (l m : List UInt8) :
    stuff outAccm (l ++ m) = stuff outAccm l ++ stuff outAccm m := List.flatMap_append

/-- The characters of a packet buffer. -/
theorem Sending.appendAll (sending : Sending reply sent fcs log s) (outAccm : ExtAccm)
    (bytes : List UInt8) :
    let r := (appendAll outAccm bytes s).answer reply log
    Sending reply (sent ++ stuff outAccm bytes) (bytes.foldl pppFcs fcs) r.1 r.2 := by
  induction bytes generalizing sent fcs log s with
  | nil => simpa [Ppp.appendAll, PppCall.answer, stuff] using sending
  | cons c bytes ih =>
    have rest := ih (sending.append outAccm c true true)
    rw [List.append_assoc, ← stuff_cons] at rest
    rw [Ppp.appendAll, PppCall.answer_bind]
    exact rest

/-- The characters of a chain. -/
theorem Sending.appendChain (sending : Sending reply sent fcs log s) (outAccm : ExtAccm)
    (pb : List (List UInt8)) :
    let r := (appendChain outAccm pb s).answer reply log
    Sending reply (sent ++ stuff outAccm pb.flatten) (pb.flatten.foldl pppFcs fcs) r.1 r.2 := by
  induction pb generalizing sent fcs log s with
  | nil => simpa [Ppp.appendChain, PppCall.answer, stuff] using sending
  | cons payload pb ih =>
    have rest := ih (sending.appendAll outAccm payload)
    rw [List.append_assoc, ← stuff_append, ← List.foldl_append] at rest
    rw [Ppp.appendChain, PppCall.answer_bind]
    exact rest

/-- The flag in front of a frame. -/
theorem sending_leadingFlag (reply : List (List UInt8) → List UInt8 → ℕ) (p : Pppos)
    (now : UInt32) : let r := (leadingFlag p now).answer reply []
    Sending reply (if idleFlag p now then [pppFlag] else []) pppInitFcs r.1
      { r.2 with fcs := pppInitFcs } := by
  have start : Sending reply [] pppInitFcs [] ⟨.ok, [], pppInitFcs⟩ :=
    ⟨by simp [Fits], .inl ⟨rfl, .nil, rfl, by simp, rfl⟩⟩
  by_cases idle : idleFlag p now = true
  · have flag := start.append p.outAccm pppFlag false false
    simp only [leadingFlag, idle, if_true]
    obtain ⟨fits, ⟨ok, accepted, sent, short, -⟩ | failed⟩ := flag
    · exact ⟨fits, .inl ⟨ok, accepted, sent, short, rfl⟩⟩
    · exact ⟨fits, .inr failed⟩
  · simpa [leadingFlag, idle, PppCall.answer] using start

/-- The time of the last transmission, by which the next frame gets its leading flag. -/
def stamp (now : UInt32) : Err → UInt32
  | .ok => now
  | _ => 0

theorem Sending.remaining (sending : Sending reply sent fcs log s) (p : Pppos) (now : UInt32) :
    let r := (sendRemaining p now s).answer reply log
    Outcome reply sent r.2.1 r.1 ∧ r.2.2 = { p with lastXmit := stamp now r.2.1 } := by
  obtain ⟨fits, ⟨ok, accepted, rfl, short, -⟩ | ⟨failed, refused, before⟩⟩ := sending
  · by_cases some' : s.nb.length > 0
    · have ne : s.nb ≠ [] := List.ne_nil_of_length_pos some'
      by_cases all : reply log s.nb = s.nb.length
      · simp only [sendRemaining, ok, some', PppCall.answer, all, ne_eq, not_true, if_false,
          if_true]
        exact ⟨⟨fits.concat ne short, .inl ⟨rfl, accepted.concat all, by simp⟩⟩, rfl⟩
      · simp only [sendRemaining, ok, some', PppCall.answer, all, ne_eq, not_true,
          not_false_eq_true, if_false, if_true]
        exact ⟨⟨fits.concat ne short, .inr ⟨rfl, ⟨log, s.nb, rfl, accepted, all⟩, by simp⟩⟩, rfl⟩
    · have empty : s.nb = [] := List.eq_nil_of_length_eq_zero (Nat.eq_zero_of_not_pos some')
      simp only [sendRemaining, ok, some', PppCall.answer, ne_eq, not_true, if_false]
      exact ⟨⟨fits, .inl ⟨rfl, accepted, by simp [empty]⟩⟩, rfl⟩
  · simp only [sendRemaining, failed, PppCall.answer, ne_eq, reduceCtorEq, not_false_eq_true,
      if_true]
    exact ⟨⟨fits, .inr ⟨rfl, refused, before⟩⟩, rfl⟩

/-- The check sequence and the flag end the frame. -/
theorem Sending.last (sending : Sending reply sent fcs log s) (p : Pppos) (now : UInt32) :
    let r := (ppposOutputLast p now s).answer reply log
    Outcome reply (sent ++ stuff p.outAccm (fcsBytes fcs) ++ [pppFlag]) r.2.1 r.1 ∧
      r.2.2 = { p with lastXmit := stamp now r.2.1 } := by
  by_cases ok : s.err = .ok
  · have same : s.fcs = fcs := by
      obtain ⟨-, ⟨-, -, -, -, same⟩ | ⟨failed, -⟩⟩ := sending
      · exact same
      · simp [ok] at failed
    have first := sending.append p.outAccm (~~~s.fcs).toUInt8 true false
    have second := first.append p.outAccm ((~~~s.fcs) >>> 8).toUInt8 true false
    have third := second.append p.outAccm pppFlag false false
    have all := third.remaining p now
    have content : sent ++ encoded p.outAccm (~~~s.fcs).toUInt8 true ++
        encoded p.outAccm ((~~~s.fcs) >>> 8).toUInt8 true ++ encoded p.outAccm pppFlag false =
        sent ++ stuff p.outAccm (fcsBytes fcs) ++ [pppFlag] := by
      rw [same]
      simp [fcsBytes, stuff, encoded]
    rw [content] at all
    rw [ppposOutputLast, PppCall.answer_bind, PppCall.answer_bind, PppCall.answer_bind]
    exact all
  · -- nothing is appended after a failure
    obtain ⟨fits, ⟨ok', -⟩ | ⟨failed, refused, before⟩⟩ := sending
    · exact absurd ok' ok
    · have longer : Sending reply (sent ++ stuff p.outAccm (fcsBytes fcs) ++ [pppFlag]) fcs log s :=
        ⟨fits, .inr ⟨failed, refused, before.trans (by simp)⟩⟩
      have all := longer.remaining p now
      simp only [ppposOutputLast, PppCall.answer_bind, ppposOutputAppend_failed ok, PppCall.answer]
      exact all

/-- What becomes of the bytes of a frame, whatever the callback answers: it took all of
them, in pieces, or some piece was refused, and up to this one it took a beginning of them.
The call returns which, and an error makes the next frame start with a flag. -/
def Sent (reply : List (List UInt8) → List UInt8 → ℕ) (m : Moment) (p : Pppos)
    (content : List UInt8) (r : List (List UInt8) × Err × Pppos) : Prop :=
  Outcome reply (line (idleFlag p m.before) p.outAccm content) r.2.1 r.1 ∧
    r.2.2 = { p with lastXmit := stamp m.after r.2.1 }

/-- A packet of the network layer is sent as a frame. -/
theorem ppposNetifOutput_answer (reply : List (List UInt8) → List UInt8 → ℕ) (m : Moment)
    (protocol : UInt16) (pb : List (List UInt8)) (p : Pppos) (has : m.hasPbuf = true) :
    Sent reply m p (headerBytes p.pcomp p.accomp protocol ++ pb.flatten)
      ((ppposNetifOutput m protocol pb p).answer reply []) := by
  have start := sending_leadingFlag reply p m.before
  have head := start.appendAll p.outAccm (headerBytes p.pcomp p.accomp protocol)
  have body := head.appendChain p.outAccm pb
  have all := body.last p m.after
  rw [ppposNetifOutput, if_neg (by simp [has]), PppCall.answer_bind, PppCall.answer_bind,
    PppCall.answer_bind]
  simp only [← List.foldl_append] at all
  have content : line (idleFlag p m.before) p.outAccm
      (headerBytes p.pcomp p.accomp protocol ++ pb.flatten) =
      (if idleFlag p m.before then [pppFlag] else []) ++
        stuff p.outAccm (headerBytes p.pcomp p.accomp protocol) ++ stuff p.outAccm pb.flatten ++
        stuff p.outAccm (fcsBytes (List.foldl pppFcs pppInitFcs
          (headerBytes p.pcomp p.accomp protocol ++ pb.flatten))) ++ [pppFlag] := by
    simp [line, stuff_append, fcsOf]
  unfold Sent
  rw [content]
  exact all

/-- A packet of the control protocols is sent as a frame. -/
theorem ppposWrite_answer (reply : List (List UInt8) → List UInt8 → ℕ) (m : Moment)
    (payload : List UInt8) (p : Pppos) (has : m.hasPbuf = true) :
    Sent reply m p payload ((ppposWrite m payload p).answer reply []) := by
  have start := sending_leadingFlag reply p m.before
  have body := start.appendAll p.outAccm payload
  have all := body.last p m.after
  rw [ppposWrite, if_neg (by simp [has]), PppCall.answer_bind, PppCall.answer_bind]
  have content : line (idleFlag p m.before) p.outAccm payload =
      (if idleFlag p m.before then [pppFlag] else []) ++ stuff p.outAccm payload ++
        stuff p.outAccm (fcsBytes (List.foldl pppFcs pppInitFcs payload)) ++ [pppFlag] := by
    simp [line, stuff_append, fcsOf]
  unfold Sent
  rw [content]
  exact all

/-- Whatever the callback answers: without a buffer nothing is sent, and the control block stays
as it is; otherwise packets of the network layer and of the control protocols are sent as
frames. -/
theorem output_outcome (reply : List (List UInt8) → List UInt8 → ℕ) (m : Moment)
    (protocol : UInt16) (pb : List (List UInt8)) (payload : List UInt8) (p : Pppos) :
    if m.hasPbuf then
      Sent reply m p (headerBytes p.pcomp p.accomp protocol ++ pb.flatten)
        ((ppposNetifOutput m protocol pb p).answer reply []) ∧
      Sent reply m p payload ((ppposWrite m payload p).answer reply [])
    else (ppposNetifOutput m protocol pb p).answer reply [] = ([], .mem, p) ∧
      (ppposWrite m payload p).answer reply [] = ([], .mem, p) := by
  split_ifs with has
  · exact ⟨ppposNetifOutput_answer reply m protocol pb p has,
      ppposWrite_answer reply m payload p has⟩
  · have none : (!m.hasPbuf) = true := by simpa using has
    rw [ppposNetifOutput, ppposWrite, if_pos none, if_pos none]
    exact ⟨rfl, rfl⟩

end Components.Ppp
