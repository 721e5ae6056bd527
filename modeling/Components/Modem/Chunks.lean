import Components.Modem.Lines
import Components.Semantics.While

/-!
# Data mode

After the module has entered data mode the bytes of the serial line go to the PPP stack in
chunks. A chunk ends at a flag byte, unless this is its first byte, or when it fills the
buffer of the caller. The index into the line buffer is static and shared with command
mode, while the buffer itself is a local variable: a chunk that is not complete lives on
the stack of a call that has not returned.

The model of `mobile_network_rx` returns a chunk as a list. Here the arrays have bounds:
`mobileNetworkRxChecked` copies the chunk to the buffer of the caller byte by byte, and
fails when it leaves an array.

## Main definitions

* `rxDataChecked`, `mobileNetworkRxChecked` — the same functions on arrays with bounds
* `Chunk`, `Unfinished` — what a chunk looks like, and the beginning of one

## Main results

* `rxDataChecked_eq` — within the bounds the two models agree
* `chunks_lose_nothing` — the chunks are the bytes received, cut where they should be
-/

namespace Components.Modem

variable {P R : Type} {ppp : Ppp P R} {len : ℕ} {c : UInt8} {fresh : Locals} {s : Port P}

/-! ### Arrays with bounds -/

/-- An access outside an array. -/
inductive Overrun
  | arrRxChar (index : ℕ)
  | data (index : ℕ)
  deriving DecidableEq, Repr

/-- `data[i] = arrRxChar[i]`. -/
def copyByte (len : ℕ) (arr : ℕ → UInt8) (i : ℕ) (data : ℕ → UInt8) :
    Except Overrun (ℕ → UInt8) :=
  if arrRxCharSize ≤ i then .error (.arrRxChar i)
  else if len ≤ i then .error (.data i)
  else .ok (Function.update data i (arr i))

/-- A byte in data mode, with the buffer of the caller. What is returned is read from that
buffer. -/
def rxDataChecked (len : ℕ) (c : UInt8) (fresh : Locals) (s : Port P) (data : ℕ → UInt8) :
    Except Overrun (Port P × (ℕ → UInt8)) :=
  if arrRxCharSize ≤ s.arrRxCharNb then .error (.arrRxChar s.arrRxCharNb)
  else do
    let arr := Function.update s.locals.arrRxChar s.arrRxCharNb c
    let nb := s.arrRxCharNb + 1
    if (nb ≠ 1 ∧ c = 0x7e) ∨ nb = len then
      let data ← forLoop (copyByte len arr) nb data
      return ({ s with
        locals := fresh
        arrRxCharNb := 0
        input := s.input ++ [(List.range nb).map data] }, data)
    else return ({ s with locals := { s.locals with arrRxChar := arr }, arrRxCharNb := nb }, data)

/-- `mobile_network_rx`, for one byte of the queue. In command mode the code tests the
index before it stores a byte. -/
def mobileNetworkRxChecked (ppp : Ppp P R) (len : ℕ) (c : UInt8) (fresh : Locals) (s : Port P)
    (data : ℕ → UInt8) : Except Overrun (Port P × (ℕ → UInt8)) :=
  if s.rnsm ≠ .enterPpp then .ok (rxLine ppp c s, data) else rxDataChecked len c fresh s data

/-- Calls of `sio_read` one after the other, as long as there are bytes. Each byte comes with
the local variables of the next call. -/
def sioReads (ppp : Ppp P R) (len : ℕ) :
    List (UInt8 × Locals) → Port P → (ℕ → UInt8) → Except Overrun (Port P × (ℕ → UInt8))
  | [], s, data => .ok (s, data)
  | (c, fresh) :: received, s, data => do
    let (s, data) ← mobileNetworkRxChecked ppp len c fresh s data
    sioReads ppp len received s data

/-- Copying within the bounds. -/
theorem forLoop_copyByte {n : ℕ} (arr data : ℕ → UInt8) (inArr : n ≤ arrRxCharSize)
    (inData : n ≤ len) :
    ∃ data', forLoop (copyByte len arr) n data = .ok data' ∧ (∀ i < n, data' i = arr i) ∧
      ∀ i, n ≤ i → data' i = data i := by
  refine forLoop_of_invariant
    (fun k (data' : ℕ → UInt8) => (∀ i < k, data' i = arr i) ∧ ∀ i, k ≤ i → data' i = data i)
    ⟨fun i hi => absurd hi (Nat.not_lt_zero i), fun _ _ => rfl⟩ ?_
  rintro k data' lt ⟨copied, kept⟩
  have inBounds : ¬ arrRxCharSize ≤ k ∧ ¬ len ≤ k := by omega
  refine ⟨Function.update data' k (arr k), ?_, fun i hi => ?_, fun i hi => ?_⟩
  · rw [copyByte, if_neg inBounds.1, if_neg inBounds.2]
  · rcases Nat.lt_succ_iff_lt_or_eq.mp hi with lt | rfl
    · rw [Function.update_of_ne lt.ne]
      exact copied i lt
    · rw [Function.update_self]
  · rw [Function.update_of_ne (by omega)]
    exact kept i (by omega)

/-- Within the bounds a byte is handled as in the model without them, and the buffer of the
caller is written below `len` only. -/
theorem rxDataChecked_eq (inArr : s.arrRxCharNb < arrRxCharSize) (inData : s.arrRxCharNb < len)
    (c : UInt8) (fresh : Locals) (data : ℕ → UInt8) :
    ∃ data', rxDataChecked len c fresh s data = .ok (rxData len c fresh s, data') ∧
      ∀ i, len ≤ i → data' i = data i := by
  unfold rxDataChecked rxData
  rw [if_neg (not_le.mpr inArr)]
  dsimp only
  by_cases full : (s.arrRxCharNb + 1 ≠ 1 ∧ c = 0x7e) ∨ s.arrRxCharNb + 1 = len
  · obtain ⟨data', done, copied, kept⟩ := forLoop_copyByte
      (Function.update s.locals.arrRxChar s.arrRxCharNb c) data (Nat.succ_le_of_lt inArr)
      (Nat.succ_le_of_lt inData)
    have same : (List.range (s.arrRxCharNb + 1)).map data' = (List.range (s.arrRxCharNb + 1)).map
        (Function.update s.locals.arrRxChar s.arrRxCharNb c) :=
      List.map_congr_left fun i hi => copied i (List.mem_range.mp hi)
    refine ⟨data', ?_, fun i hi => kept i (Nat.le_trans inData hi)⟩
    rw [if_pos full, if_pos full, done, ok_bind, same]
    rfl
  · refine ⟨data, ?_, fun _ _ => rfl⟩
    rw [if_neg full, if_neg full]
    rfl

/-! ### Chunks -/

/-- A chunk: it has one to `len` bytes and ends with the first flag byte after its first
byte, or else has `len` bytes. -/
structure Chunk (len : ℕ) (chunk : List UInt8) : Prop where
  pos : 1 ≤ chunk.length
  le : chunk.length ≤ len
  noFlag : ∀ i, 1 ≤ i → i + 1 < chunk.length → chunk[i]? ≠ some 0x7e
  ends : (1 < chunk.length ∧ chunk.getLast? = some 0x7e) ∨ chunk.length = len

/-- The beginning of a chunk that goes on. -/
structure Unfinished (len : ℕ) (pending : List UInt8) : Prop where
  lt : pending.length < len
  noFlag : ∀ i, 1 ≤ i → pending[i]? ≠ some 0x7e

/-- What stands in the line buffer. -/
def inBuffer (s : Port P) : List UInt8 := (List.range s.arrRxCharNb).map s.locals.arrRxChar

theorem length_inBuffer : (inBuffer s).length = s.arrRxCharNb := by
  rw [inBuffer, List.length_map, List.length_range]

/-- The buffer with one byte more. -/
theorem map_range_update : (List.range (s.arrRxCharNb + 1)).map
    (Function.update s.locals.arrRxChar s.arrRxCharNb c) = inBuffer s ++ [c] := by
  rw [List.range_succ, List.map_append, List.map_singleton, Function.update_self, inBuffer]
  congr 1
  exact List.map_congr_left fun i hi => Function.update_of_ne (List.mem_range.mp hi).ne _ _

/-- No flag byte has come after the first byte. -/
theorem Unfinished.noFlag_concat {pending : List UInt8} (h : Unfinished len pending) (i : ℕ)
    (first : 1 ≤ i) (before : i + 1 < (pending ++ [c]).length) :
    (pending ++ [c])[i]? ≠ some 0x7e := by
  rw [List.length_append, List.length_singleton] at before
  rw [List.getElem?_append_left (by omega)]
  exact h.noFlag i first

/-- A byte in data mode completes the chunk or extends it. -/
theorem rxData_cases (h : Unfinished len (inBuffer s)) (c : UInt8) (fresh : Locals) :
    (rxData len c fresh s).rnsm = s.rnsm ∧
      (Chunk len (inBuffer s ++ [c]) ∧ inBuffer (rxData len c fresh s) = [] ∧
          (rxData len c fresh s).input = s.input ++ [inBuffer s ++ [c]] ∨
        Unfinished len (inBuffer s ++ [c]) ∧ inBuffer (rxData len c fresh s) = inBuffer s ++ [c] ∧
          (rxData len c fresh s).input = s.input) := by
  have room := h.lt
  rw [length_inBuffer] at room
  have length : (inBuffer s ++ [c]).length = s.arrRxCharNb + 1 := by
    rw [List.length_append, length_inBuffer, List.length_singleton]
  unfold rxData
  dsimp only
  rw [map_range_update]
  by_cases full : (s.arrRxCharNb + 1 ≠ 1 ∧ c = 0x7e) ∨ s.arrRxCharNb + 1 = len
  · rw [if_pos full]
    refine ⟨rfl, .inl ⟨⟨?_, ?_, h.noFlag_concat, ?_⟩, rfl, rfl⟩⟩
    · omega
    · omega
    · rw [length, List.getLast?_concat]
      rcases full with ⟨first, rfl⟩ | full
      · exact .inl ⟨by omega, rfl⟩
      · exact .inr full
  · rw [if_neg full]
    rw [not_or, not_and] at full
    refine ⟨rfl, .inr ⟨⟨?_, fun i first => ?_⟩, map_range_update, rfl⟩⟩
    · omega
    -- the new byte is the last one, and no flag unless it is the first
    · by_cases before : i + 1 < (inBuffer s ++ [c]).length
      · exact h.noFlag_concat i first before
      · intro flag
        have lt := (List.getElem?_eq_some_iff.mp flag).1
        have last : i = (inBuffer s).length := by
          rw [length] at before lt
          rw [length_inBuffer]
          omega
        rw [last, List.getElem?_concat_length, Option.some_inj] at flag
        rw [length_inBuffer] at last
        exact full.1 (by omega) flag

/-- Whatever is received in data mode, from any place inside a chunk on. -/
theorem sioReads_eq (ppp : Ppp P R) (bound : len ≤ arrRxCharSize)
    (received : List (UInt8 × Locals)) (data : ℕ → UInt8) (mode : s.rnsm = .enterPpp)
    (h : Unfinished len (inBuffer s)) :
    ∃ t data' chunks pending, sioReads ppp len received s data = .ok (t, data') ∧
      t.input = s.input ++ chunks ∧
      inBuffer s ++ received.map Prod.fst = chunks.flatten ++ pending ∧
      (∀ chunk ∈ chunks, Chunk len chunk) ∧ Unfinished len pending ∧
      ∀ i, len ≤ i → data' i = data i := by
  induction received generalizing s data with
  | nil => exact ⟨s, data, [], inBuffer s, rfl, by simp, by simp, by simp, h, fun _ _ => rfl⟩
  | cons event received ih =>
    obtain ⟨c, fresh⟩ := event
    have room := h.lt
    rw [length_inBuffer] at room
    obtain ⟨data', done, kept⟩ := rxDataChecked_eq (s := s) (room.trans_le bound) room c fresh data
    have byte : mobileNetworkRxChecked ppp len c fresh s data =
        .ok (rxData len c fresh s, data') := by
      rw [mobileNetworkRxChecked, if_neg (not_not.mpr mode), done]
    obtain ⟨rnsm, ⟨complete, buffer, input⟩ | ⟨unfinished, buffer, input⟩⟩ :=
      rxData_cases h c fresh
    -- the chunk is returned, and the next one begins with an empty buffer
    · have next : Unfinished len (inBuffer (rxData len c fresh s)) := by
        rw [buffer]
        exact ⟨Nat.zero_lt_of_lt room, fun i _ => by simp⟩
      obtain ⟨t, data'', chunks, pending, rest, inputs, bytes, all, last, kept'⟩ :=
        ih data' (rnsm.trans mode) next
      refine ⟨t, data'', (inBuffer s ++ [c]) :: chunks, pending, ?_, ?_, ?_, ?_, last, ?_⟩
      · rw [sioReads, byte]
        exact rest
      · rw [inputs, input, List.append_assoc]
        rfl
      · rw [buffer, List.nil_append] at bytes
        simp [bytes]
      · exact List.forall_mem_cons.mpr ⟨complete, all⟩
      · exact fun i hi => (kept' i hi).trans (kept i hi)
    · obtain ⟨t, data'', chunks, pending, rest, inputs, bytes, all, last, kept'⟩ :=
        ih data' (rnsm.trans mode) (buffer ▸ unfinished)
      refine ⟨t, data'', chunks, pending, ?_, inputs.trans (by rw [input]), ?_, all, last, ?_⟩
      · rw [sioReads, byte]
        exact rest
      · rw [buffer] at bytes
        simpa using bytes
      · exact fun i hi => (kept' i hi).trans (kept i hi)

/-- Data mode is entered at the end of a line, with an empty buffer. -/
theorem arrRxCharNb_of_enters (command : s.rnsm ≠ .enterPpp)
    (enters : (mobileNetworkRx ppp len c fresh s).rnsm = .enterPpp) :
    (mobileNetworkRx ppp len c fresh s).arrRxCharNb = 0 := by
  rw [mobileNetworkRx, if_pos command] at enters ⊢
  unfold rxLine at enters ⊢
  dsimp only at enters ⊢
  split_ifs at enters ⊢
  · rfl
  · rw [storeChar_rnsm] at enters
    exact absurd enters command

/-- After the byte with which the module enters data mode: the chunks handed to the PPP stack
are the bytes received, up to the beginning of a chunk that is not complete; every chunk
ends where it should; and no array is left. -/
theorem chunks_lose_nothing (ppp : Ppp P R) (len : ℕ) (pos : 1 ≤ len)
    (bound : len ≤ arrRxCharSize) (s : Port P) (c : UInt8) (fresh : Locals)
    (command : s.rnsm ≠ .enterPpp)
    (enters : (mobileNetworkRx ppp len c fresh s).rnsm = .enterPpp)
    (received : List (UInt8 × Locals)) (data : ℕ → UInt8) :
    ∃ t data' chunks pending,
      sioReads ppp len received (mobileNetworkRx ppp len c fresh s) data = .ok (t, data') ∧
      t.input = (mobileNetworkRx ppp len c fresh s).input ++ chunks ∧
      received.map Prod.fst = chunks.flatten ++ pending ∧
      (∀ chunk ∈ chunks, Chunk len chunk) ∧ Unfinished len pending ∧
      ∀ i, len ≤ i → data' i = data i := by
  have empty : inBuffer (mobileNetworkRx ppp len c fresh s) = [] := by
    rw [inBuffer, arrRxCharNb_of_enters command enters]
    rfl
  have unfinished : Unfinished len (inBuffer (mobileNetworkRx ppp len c fresh s)) := by
    rw [empty]
    exact ⟨pos, fun i _ => by simp⟩
  have reads := sioReads_eq ppp bound received data enters unfinished
  rw [empty] at reads
  exact reads

/-- A port that waits for `CONNECT`, of which only the line feed is missing. -/
def dialling : Port Unit :=
  { Port.start silentPpp ⟨0, cr, writeAll (fun _ => 0) 0 (ascii "CONNECT\r")⟩ with
    rnsm := .atd
    arrRxCharNb := 8 }

/-- Bytes with flags in different places, received with local variables that are all zero. -/
def frames : List (UInt8 × Locals) :=
  [0x7e, 1, 2, 0x7e, 0x7e, 0x7e, 9, 8, 7, 6, 5].map fun c => (c, ⟨0, 0, fun _ => 0⟩)

theorem chunks_lose_nothing_frames :
    ∃ t data' chunks pending,
      sioReads silentPpp 4 frames (mobileNetworkRx silentPpp 4 lf ⟨0, 0, fun _ => 0⟩ dialling)
        (fun _ => 0) = .ok (t, data') ∧
      t.input = [[0x7e, 1, 2, 0x7e], [0x7e, 0x7e], [9, 8, 7, 6]] ∧ t.input = chunks ∧
      frames.map Prod.fst = chunks.flatten ++ pending ∧ (∀ chunk ∈ chunks, Chunk 4 chunk) ∧
      Unfinished 4 pending := by
  obtain ⟨t, data', chunks, pending, done, input, bytes, all, last, -⟩ :=
    chunks_lose_nothing silentPpp 4 (by decide) (by decide) dialling lf ⟨0, 0, fun _ => 0⟩
      (by decide) (by decide +kernel) frames (fun _ => 0)
  have value : (sioReads silentPpp 4 frames
      (mobileNetworkRx silentPpp 4 lf ⟨0, 0, fun _ => 0⟩ dialling) (fun _ => 0)).map
      (fun final => final.1.input) = .ok [[0x7e, 1, 2, 0x7e], [0x7e, 0x7e], [9, 8, 7, 6]] := by
    decide +kernel
  rw [done] at value
  exact ⟨t, data', chunks, pending, done, Except.ok.inj value, input, bytes, all, last⟩

end Components.Modem
