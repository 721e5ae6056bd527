import Components.Modem.Lines
import Components.Semantics.Always

/-!
# PPP output while the connection starts

The PPP stack hands its frames to `sio_write`, which passes them on in `at_enter_ppp`
and drops them in any other state. `m_state_change` calls `ppp_connect` before it
assigns the new state, and `ppp_connect` sends the first LCP request before it returns.
So this request is always dropped, and exactly the runs that never start the connection
drop nothing from the start of the connection on.

Of the PPP stack it is used that it is dead until `ppp_connect` is called, and that
`ppp_connect` then sends something.

## Main definitions

* `PortEvent`, `Port.step` — bytes, steps of the task and work of the PPP stack
* `Delivered` — what is written from the start of the connection on goes out
* `Connects` — a byte completes a line `CONNECT` in `at_atd`
* `Lawful` — what is known of the PPP stack
* `Port.connecting` — what `ppp_connect` finds

## Main results

* `PppCall.run_drops` — a call that sends something outside data mode loses it
* `Connects.step_eq` — `ppp_connect` comes before the new state
* `delivered_iff_never_connects` — whole runs
-/

namespace Components.Modem

variable {P R : Type} {ppp : Ppp P R} {s : Port P} {call : PppCall P}

/-- A byte arrives, the task takes a step, or the PPP stack works. -/
inductive PortEvent (R : Type)
  | receive (c : UInt8) (fresh : Locals)
  | task
  | wake (reason : R)

/-- Any order of events. -/
def Port.step (ppp : Ppp P R) (s : Port P) : PortEvent R → Port P
  | .receive c fresh => mobileNetworkRx ppp rxThreadLen c fresh s
  | .task => mobileNetworkTask ppp s
  | .wake reason => (ppp.wake reason s.ppp).run s

/-- Every call of `sio_write` from the start of the connection on handed all its bytes to
`uart1_send` and said so. -/
def Delivered (s : Port P) : Prop :=
  ∀ write ∈ s.writes, write.connected = true →
    write.handed = write.data ∧ write.returned = write.data.length

instance (s : Port P) : Decidable (Delivered s) :=
  inferInstanceAs (Decidable (∀ write ∈ s.writes, _ → _ ∧ _))

/-- The byte completes a line that starts with `CONNECT` in `at_atd`. -/
def Connects (s : Port P) : PortEvent R → Prop
  | .receive c _ =>
    s.rnsm = .atd ∧ s.locals.newRxChar = cr ∧ c = lf ∧
      startsWith (storeChar c s).locals.arrRxChar (ascii "CONNECT") 0 = true
  | .task | .wake _ => False

/-! ### The PPP stack -/

/-- The call ends in a state with the property, whatever its output callback returns. -/
def PppCall.Ends (Q : P → Prop) : PppCall P → Prop
  | .ret p => Q p
  | .output _ resume => ∀ n, (resume n).Ends Q

/-- The call hands some byte to its output callback before it returns. -/
def PppCall.Sends : PppCall P → Prop
  | .ret _ => False
  | .output data resume => data ≠ [] ∨ ∀ n, (resume n).Sends

/-- The stack is dead until `ppp_connect`, which then sends the first LCP request. -/
structure Lawful (ppp : Ppp P R) (Dead : P → Prop) : Prop where
  init : Dead ppp.init
  wake : ∀ reason p, Dead p → (ppp.wake reason p).Ends Dead
  connect : ∀ p, Dead p → (ppp.connect p).Sends

/-! ### Calls -/

theorem sioWrite_rnsm (data : List UInt8) : (sioWrite s data).1.rnsm = s.rnsm := by
  unfold sioWrite
  split_ifs <;> rfl

theorem sioWrite_connected (data : List UInt8) : (sioWrite s data).1.connected = s.connected := by
  unfold sioWrite
  split_ifs <;> rfl

theorem sioWrite_writes (data : List UInt8) :
    ∃ handed returned,
      (sioWrite s data).1.writes = s.writes ++ [⟨data, s.connected, handed, returned⟩] := by
  unfold sioWrite
  split_ifs
  · exact ⟨[], 0, rfl⟩
  · exact ⟨data, data.length, rfl⟩

/-- What was written stays on record. -/
theorem PppCall.mem_run_writes (call : PppCall P) {write : Write} (mem : write ∈ s.writes) :
    write ∈ (call.run s).writes := by
  induction call generalizing s with
  | ret p => exact mem
  | output data resume ih =>
    obtain ⟨handed, returned, eq⟩ := sioWrite_writes (s := s) data
    exact ih _ (by rw [eq]; exact List.mem_append_left _ mem)

/-- Outside data mode, a call that sends something loses it. -/
theorem PppCall.run_drops (mode : s.rnsm ≠ .enterPpp) (sends : call.Sends) :
    ∃ write ∈ (call.run s).writes, write.connected = s.connected ∧ write.data ≠ [] ∧
      write.handed = [] := by
  induction call generalizing s with
  | ret p => exact sends.elim
  | output data resume ih =>
    -- either this buffer is lost, or the first one that has a byte comes later
    rcases sends with here | later
    · have recorded : (⟨data, s.connected, [], 0⟩ : Write) ∈ (sioWrite s data).1.writes := by
        simp [sioWrite, mode]
      exact ⟨⟨data, s.connected, [], 0⟩, mem_run_writes (resume _) recorded, rfl, here, rfl⟩
    · have dropped := ih (sioWrite s data).2 (s := (sioWrite s data).1)
        (by rwa [sioWrite_rnsm]) (later _)
      rwa [sioWrite_connected] at dropped

/-- A call before the connection is started records nothing else. -/
theorem PppCall.run_unconnected {Q : P → Prop} (off : s.connected = false)
    (writes : ∀ write ∈ s.writes, write.connected = false) (ends : call.Ends Q) :
    (call.run s).connected = false ∧ (∀ write ∈ (call.run s).writes, write.connected = false) ∧
      Q (call.run s).ppp := by
  induction call generalizing s with
  | ret p => exact ⟨off, writes, ends⟩
  | output data resume ih =>
    obtain ⟨handed, returned, eq⟩ := sioWrite_writes (s := s) data
    refine ih _ (by rwa [sioWrite_connected]) ?_ (ends _)
    intro write mem
    rw [eq] at mem
    rcases List.mem_append.mp mem with old | new
    · exact writes write old
    · rw [List.mem_singleton.mp new]
      exact off

/-! ### Steps that do not touch the PPP stack -/

/-- Nothing was written and the PPP stack was not called. -/
structure Quiet (s s' : Port P) : Prop where
  connected : s'.connected = s.connected
  writes : s'.writes = s.writes
  ppp : s'.ppp = s.ppp

namespace Quiet

variable {s' s'' : Port P}

theorem refl (s : Port P) : Quiet s s := ⟨rfl, rfl, rfl⟩

theorem trans (first : Quiet s s') (second : Quiet s' s'') : Quiet s s'' :=
  ⟨second.connected.trans first.connected, second.writes.trans first.writes,
    second.ppp.trans first.ppp⟩

theorem mStateChange {new : Rnsm} (ne : new ≠ .enterPpp) : Quiet s (mStateChange ppp new s) := by
  simp only [Modem.mStateChange, if_neg ne]
  split_ifs <;> exact ⟨rfl, rfl, rfl⟩

theorem storeChar (c : UInt8) : Quiet s (storeChar c s) := by
  unfold Modem.storeChar
  split_ifs <;> exact ⟨rfl, rfl, rfl⟩

/-- A comparison with a string that does not start the connection. -/
theorem compareLine {change : Change} (ne : change.new ≠ .enterPpp) :
    Quiet s (compareLine ppp change s) := by
  unfold Modem.compareLine
  split_ifs
  · have noted : Quiet s { s with changes := s.changes ++ [change] } := ⟨rfl, rfl, rfl⟩
    exact noted.trans (mStateChange ne)
  · exact refl s

/-- The end of a line, unless it starts the connection. -/
theorem lineEnd
    (calm : ¬ (s.rnsm = .atd ∧ startsWith s.locals.arrRxChar (ascii "CONNECT") 0 = true)) :
    Quiet s (lineEnd ppp s) := by
  unfold Modem.lineEnd
  cases state : s.rnsm with
  | reset => exact compareLine (by decide)
  | ok => exact (compareLine (by decide)).trans (compareLine (by decide))
  | cgreg => exact compareLine (by decide)
  | atd =>
    dsimp only
    rw [Modem.compareLine, if_neg fun found => calm ⟨state, found⟩]
    exact refl s
  | enterPpp => exact refl s
  | reboot => exact refl s

/-- A byte, unless it starts the connection. -/
theorem mobileNetworkRx {c : UInt8} {fresh : Locals}
    (calm : ¬ Connects s (.receive c fresh : PortEvent R)) :
    Quiet s (mobileNetworkRx ppp rxThreadLen c fresh s) := by
  unfold Modem.mobileNetworkRx
  split_ifs with mode
  · unfold rxLine
    dsimp only
    split_ifs with ends
    · rw [storeChar_lastRxChar, storeChar_newRxChar] at ends
      have stored : Quiet s (Modem.storeChar c s) := storeChar c
      -- a line that ends with this byte does not start the connection
      have ended : Quiet (Modem.storeChar c s) (Modem.lineEnd ppp (Modem.storeChar c s)) :=
        lineEnd fun found => calm ⟨by simpa using found.1, ends.1, ends.2, found.2⟩
      exact (stored.trans ended).trans ⟨rfl, rfl, rfl⟩
    · exact storeChar c
  · unfold rxData
    dsimp only
    split_ifs <;> exact ⟨rfl, rfl, rfl⟩

/-- The task never starts the connection. -/
theorem mobileNetworkTask : Quiet s (mobileNetworkTask ppp s) := by
  unfold Modem.mobileNetworkTask
  split
  · exact ⟨rfl, rfl, rfl⟩
  · exact (mStateChange (by decide)).trans ⟨rfl, rfl, rfl⟩
  · exact ⟨rfl, rfl, rfl⟩
  · exact ⟨rfl, rfl, rfl⟩
  · split_ifs
    · exact (mStateChange (by decide)).trans ⟨rfl, rfl, rfl⟩
    · exact ⟨rfl, rfl, rfl⟩
  · exact ⟨rfl, rfl, rfl⟩
  · exact ⟨rfl, rfl, rfl⟩
  · exact ⟨rfl, rfl, rfl⟩

end Quiet

/-! ### Whole runs -/

/-- Before the connection is started. -/
structure Unconnected (Dead : P → Prop) (s : Port P) : Prop where
  off : s.connected = false
  writes : ∀ write ∈ s.writes, write.connected = false
  dead : Dead s.ppp

theorem Unconnected.quiet {Dead : P → Prop} {s' : Port P} (before : Unconnected Dead s)
    (quiet : Quiet s s') : Unconnected Dead s' where
  off := quiet.connected.trans before.off
  writes := quiet.writes ▸ before.writes
  dead := quiet.ppp ▸ before.dead

theorem lineEnd_connect (here : s.rnsm = .atd)
    (found : startsWith s.locals.arrRxChar (ascii "CONNECT") 0 = true) :
    lineEnd ppp s = makeChange ppp ⟨ascii "CONNECT", .enterPpp⟩ s := by
  simp only [lineEnd, here, compareLine, found, if_true]

/-- What `ppp_connect` finds when a line `CONNECT` ends: the call of `m_state_change` is noted, and
the state is still the one in which the line ended. -/
def Port.connecting (s : Port P) : Port P :=
  { storeChar lf s with
    changes := (storeChar lf s).changes ++ [⟨ascii "CONNECT", .enterPpp⟩]
    connected := true }

theorem Port.connecting_ppp : s.connecting.ppp = s.ppp := (Quiet.storeChar lf).ppp

theorem Port.connecting_rnsm : s.connecting.rnsm = s.rnsm := storeChar_rnsm lf

theorem Port.connecting_uart : s.connecting.uart = s.uart := by
  unfold connecting storeChar
  split_ifs <;> rfl

/-- The byte that starts the connection: `ppp_connect` comes first, and then the new state. -/
theorem Connects.step_eq {c : UInt8} {fresh : Locals}
    (connects : Connects s (.receive c fresh : PortEvent R)) : s.step ppp (.receive c fresh) =
      { (ppp.connect s.connecting.ppp).run s.connecting with
        rnsm := .enterPpp, arrRxCharNb := 0 } := by
  obtain ⟨here, returned, rfl, found⟩ := connects
  have mode : s.rnsm ≠ .enterPpp := by rw [here]; decide
  have here' : (storeChar lf s).rnsm = .atd := by rw [storeChar_rnsm, here]
  simp only [Port.step, mobileNetworkRx, if_pos mode, rxLine, storeChar_lastRxChar, returned,
    storeChar_newRxChar, and_self, if_true, lineEnd_connect here' found]
  simp [makeChange, mStateChange, ppposExampleConnect, Port.connecting]

/-- The state is still `at_atd` when `ppp_connect` sends, so what it sends is dropped. -/
theorem Connects.not_delivered {Dead : P → Prop} {event : PortEvent R} (lawful : Lawful ppp Dead)
    (dead : Dead s.ppp) (connects : Connects s event) : ¬ Delivered (s.step ppp event) := by
  cases event with
  | task => exact connects.elim
  | wake reason => exact connects.elim
  | receive c fresh =>
    have mode : s.connecting.rnsm ≠ .enterPpp := by
      rw [Port.connecting_rnsm, connects.1]
      decide
    have sends := lawful.connect s.connecting.ppp (by rwa [Port.connecting_ppp])
    obtain ⟨write, mem, started, some, none⟩ := PppCall.run_drops mode sends
    intro delivered
    rw [connects.step_eq] at delivered
    have handed := (delivered write mem started).1
    exact some (handed.symm.trans none)

/-- What the PPP stack writes from the start of the connection on is delivered throughout
a run exactly when no line `CONNECT` is completed in `at_atd`, so that the connection is
never started. -/
theorem delivered_iff_never_connects (ppp : Ppp P R) (Dead : P → Prop) (lawful : Lawful ppp Dead)
    (locals : Locals) (events : List (PortEvent R)) :
    Always (Port.step ppp) Delivered (.start ppp locals) events ↔
      Avoids (Port.step ppp) Connects (.start ppp locals) events := by
  have start : Unconnected Dead (.start ppp locals) :=
    ⟨rfl, by simp [Port.start], lawful.init⟩
  refine always_iff_avoids (Unconnected Dead) ?_ ?_ ?_ start
  · intro s before write mem connected
    -- before the connection the property says nothing
    rw [before.writes write mem] at connected
    cases connected
  · intro s event before calm
    cases event with
    | receive c fresh => exact before.quiet (Quiet.mobileNetworkRx calm)
    | task => exact before.quiet Quiet.mobileNetworkTask
    | wake reason =>
      obtain ⟨off, writes, dead⟩ :=
        PppCall.run_unconnected before.off before.writes (lawful.wake reason _ before.dead)
      exact ⟨off, writes, dead⟩
  · intro s event before connects
    exact connects.not_delivered lawful before.dead

/-- A PPP stack that is dead or not. `ppp_connect` sends an LCP Configure-Request, with
its control characters escaped, and nothing else happens. -/
def lcpPpp : Ppp Bool Unit where
  init := true
  connect dead :=
    if dead then
      .output [0x7e, 0xff, 0x7d, 0x23, 0xc0, 0x21, 0x7d, 0x21, 0x7d, 0x21, 0x7d, 0x20, 0x7d, 0x34,
        0x7d, 0x22, 0x7d, 0x26, 0x7d, 0x20, 0x7d, 0x20, 0x7d, 0x20, 0x7d, 0x20, 0x7d, 0x25, 0x7d,
        0x26, 0x31, 0x8a, 0xc2, 0x7d, 0x5e, 0x7d, 0x27, 0x7d, 0x22, 0x7d, 0x28, 0x7d, 0x22, 0x3c,
        0x69, 0x7e] fun _ => .ret false
    else .ret dead
  wake _ dead := .ret dead

/-- The set-up succeeds: `AT`, `AT+CGREG?` and `ATD*99#` are sent and answered. -/
def connectRun : List (PortEvent Unit) :=
  let bytes (text : String) : List (PortEvent Unit) :=
    (ascii text).map fun c => .receive c ⟨0, 0, fun _ => 0⟩
  List.replicate 3 .task ++ bytes "OK\r\n" ++ List.replicate 4 .task ++
    bytes "+CGREG: 0,1\r\nOK\r\n" ++ List.replicate 5 .task ++ bytes "CONNECT\r\n"

theorem lcpPpp_lawful : Lawful lcpPpp (· = true) where
  init := rfl
  wake := fun _ _ dead => dead
  connect := by
    rintro p rfl
    exact .inl (by decide)

theorem delivered_iff_never_connects_lcp :
    Lawful lcpPpp (· = true) ∧
      (Always (Port.step lcpPpp) Delivered (.start lcpPpp ⟨0, 0, fun _ => 0⟩) connectRun ↔
        Avoids (Port.step lcpPpp) Connects (.start lcpPpp ⟨0, 0, fun _ => 0⟩) connectRun) :=
  ⟨lcpPpp_lawful, delivered_iff_never_connects lcpPpp (· = true) lcpPpp_lawful _ connectRun⟩

theorem delivered_fails_connecting :
    ¬ Always (Port.step lcpPpp) Delivered (.start lcpPpp ⟨0, 0, fun _ => 0⟩) connectRun := by
  decide +kernel

end Components.Modem
