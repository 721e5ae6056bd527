import Components.Modem.Lines
import Components.Semantics.Always

/-!
# Dialling before the context is set

The set-up task, the module and the receive thread as a message-passing system. The
task sends commands. The module answers them in order, one line at a time: `OK`, or for
`AT+CGREG?` a status line and then `OK`, or for `ATD*99#` the line `CONNECT`. The
receive thread consumes the lines in order. The three take steps in any order.

A run should reach `at_atd` only after the `OK` that answers `AT+CGDCONT`. It does not:
the status line already moves the state from `at_ok` to `at_cgreg`, the very next line
is the `OK` of the same `AT+CGREG?`, and in `at_cgreg` any `OK` moves on to `at_atd`. So
the first `OK` that is consumed in `at_cgreg` is always the wrong one, and exactly the
runs that consume none there are in order.

## Main definitions

* `Dialup`, `Event`, `Dialup.step` — the system
* `Ordered` — dialling only after the context is acknowledged
* `Early` — an `OK` is consumed in `at_cgreg`
* `Before` — what holds until then

## Main results

* `Before.modem`, `Before.consume`, `Before.task` — one step of each party
* `ordered_iff_never_early` — whole runs
-/

namespace Components.Modem

variable {P R : Type}

/-- A line from the module, and the command it answers. -/
structure Reply where
  text : List UInt8
  answers : Command
  deriving DecidableEq, Repr

/-- How the module answers a command, where `n` is its registration status. -/
def answer (n : UInt8) : Command → List Reply
  | .attention => [⟨ascii "OK", .attention⟩]
  | .registration => [⟨ascii "+CGREG: 0," ++ [n], .registration⟩, ⟨ascii "OK", .registration⟩]
  | .context => [⟨ascii "OK", .context⟩]
  | .dial => [⟨ascii "CONNECT", .dial⟩]

/-- The port, the module, and the lines between them. -/
structure Dialup (P : Type) where
  port : Port P
  /-- How many calls of `uart1_send` the module has taken up. -/
  heard : ℕ
  /-- What it still has to say to the last of them. -/
  rest : List Reply
  /-- The lines in flight. -/
  lines : List Reply
  /-- The lines that `mobile_network_rx` has consumed. -/
  consumed : List Reply

namespace Dialup

/-- Before the first step. -/
def start (ppp : Ppp P R) (locals : Locals) : Dialup P := ⟨Port.start ppp locals, 0, [], [], []⟩

/-- The module says its next line, or takes up the next command. -/
def modem (n : UInt8) (t : Dialup P) : Dialup P :=
  match t.rest with
  | reply :: rest => { t with rest := rest, lines := t.lines ++ [reply] }
  | [] =>
    match t.port.uart[t.heard]? with
    | some (.command command) => { t with heard := t.heard + 1, rest := answer n command }
    | some (.frame _) => { t with heard := t.heard + 1 }
    | none => t

/-- The receive thread consumes a line, or waits when there is none. -/
def consume (ppp : Ppp P R) (fresh : Locals) (t : Dialup P) : Dialup P :=
  match t.lines with
  | [] => t
  | reply :: lines =>
    { t with
      port := feed ppp fresh (reply.text ++ [cr, lf]) t.port
      lines := lines
      consumed := t.consumed ++ [reply] }

/-- The task takes a step. -/
def task (ppp : Ppp P R) (t : Dialup P) : Dialup P :=
  { t with port := mobileNetworkTask ppp t.port }

/-- What the module has said or is about to say, up to the last command it took up. -/
def coming (t : Dialup P) : List Reply := t.lines ++ t.rest

end Dialup

/-- A step of one of the three parties. -/
inductive Event
  | task
  | modem (n : UInt8)
  | consume (fresh : Locals)

/-- Any order of steps. -/
def Dialup.step (ppp : Ppp P R) (t : Dialup P) : Event → Dialup P
  | .task => t.task ppp
  | .modem n => t.modem n
  | .consume fresh => t.consume ppp fresh

/-- `AT+CGDCONT` was sent, and the `OK` that answers it was consumed. -/
def Acknowledged (t : Dialup P) : Prop :=
  .command .context ∈ t.port.uart ∧ ⟨ascii "OK", .context⟩ ∈ t.consumed

/-- Dialling, or being about to, comes after the acknowledgement. -/
def Ordered (t : Dialup P) : Prop :=
  t.port.rnsm = .atd ∨ t.port.rnsm = .enterPpp ∨ .command .dial ∈ t.port.uart → Acknowledged t

instance (t : Dialup P) : Decidable (Ordered t) :=
  inferInstanceAs (Decidable (_ ∨ _ ∨ _ → _ ∧ _))

/-- The receive thread consumes a line that starts with `OK` in `at_cgreg`. -/
def Early (t : Dialup P) : Event → Prop
  | .consume _ => t.port.rnsm = .cgreg ∧ ∃ reply ∈ t.lines.head?, ascii "OK" <+: reply.text
  | .task | .modem _ => False

/-! ### Before the first early line -/

/-- The `OK` that ends the answer to `AT+CGREG?`. -/
def registered : Reply := ⟨ascii "OK", .registration⟩

/-- Every other line of an answer to `AT+CGREG?` is followed by `registered`. -/
def Paired : List Reply → Prop
  | [] => True
  | reply :: replies =>
    (reply.answers = .registration → reply ≠ registered → replies.head? = some registered) ∧
      Paired replies

/-- The task is not where it could still call `m_state_change`. -/
def Task.Calm : Task → Prop
  | .rebooting | .send .attention _ | .delay .attention _ => False
  | _ => True

/-- What holds as long as no `OK` was consumed in `at_cgreg`. Once `AT+CGDCONT` is about
to be sent the state cannot change but by the line that comes next, and this is
`registered`. -/
structure Before (t : Dialup P) : Prop where
  notAtd : t.port.rnsm ≠ .atd
  notPpp : t.port.rnsm ≠ .enterPpp
  buffer : t.port.arrRxCharNb = 0
  notSending : ∀ count, t.port.task ≠ .send .dial count
  undialled : .command .dial ∉ t.port.uart
  unacknowledged : ∀ reply ∈ t.consumed, reply.answers ≠ .context
  replies : ∀ reply ∈ t.coming, ∃ n command, reply ∈ answer n command
  paired : Paired t.coming
  requested : ∀ reply ∈ t.coming, reply.answers = .context → .command .context ∈ t.port.uart
  next : t.port.rnsm = .cgreg → t.coming.head? = some registered
  calm : (.command .context ∈ t.port.uart ∨ ∃ count, t.port.task = .send .context count) →
    t.port.rnsm = .cgreg ∧ t.port.task.Calm

section Replies

variable {n : UInt8} {command : Command} {reply : Reply} {l m : List Reply}

/-- The three kinds of lines. -/
theorem reply_cases (mem : reply ∈ answer n command) :
    reply = ⟨ascii "OK", command⟩ ∨
      reply = ⟨ascii "+CGREG: 0," ++ [n], .registration⟩ ∨
      reply = ⟨ascii "CONNECT", .dial⟩ := by
  cases command with
  | attention => exact .inl (by simpa [answer] using mem)
  | registration =>
    rcases List.mem_cons.mp mem with status | last
    · exact .inr (.inl status)
    · exact .inl (by simpa using last)
  | context => exact .inl (by simpa [answer] using mem)
  | dial => exact .inr (.inr (by simpa [answer] using mem))

theorem answers_of_mem_answer (mem : reply ∈ answer n command) : reply.answers = command := by
  cases command <;> simp [answer] at mem <;> aesop

/-- A last byte makes no line break after text without a carriage return. -/
theorem noBreak_concat {bytes : List UInt8} {p : UInt8} (ne : p ≠ cr) (noReturn : cr ∉ bytes)
    (noFeed : lf ∉ bytes) (c : UInt8) : NoBreak p (bytes ++ [c]) := by
  induction bytes generalizing p with
  | nil => exact ⟨fun h => ne h.1, trivial⟩
  | cons d bytes ih =>
    rw [List.mem_cons, not_or] at noReturn noFeed
    exact ⟨fun h => ne h.1, ih (Ne.symm noReturn.1) noReturn.2 noFeed.2⟩

/-- No line has a line break inside, whatever byte comes before. -/
theorem reply_noBreak (mem : reply ∈ answer n command) (p : UInt8) : NoBreak p reply.text := by
  rcases reply_cases mem with rfl | rfl | rfl
  · exact noBreak_of_notMem (show lf ∉ ascii "OK" by decide) p
  · have status : ascii "+CGREG: 0," = 43 :: ascii "CGREG: 0," := by decide
    rw [status]
    exact ⟨fun h => absurd h.2 (by decide),
      noBreak_concat (by decide) (by decide) (by decide) n⟩
  · exact noBreak_of_notMem (by decide) p

theorem reply_short (mem : reply ∈ answer n command) : reply.text.length + 2 ≤ arrRxCharSize := by
  rcases reply_cases mem with rfl | rfl | rfl <;> simp [ascii, arrRxCharSize]

/-- Only a status line has one of the two status strings. -/
theorem status_of_prefix (mem : reply ∈ answer n command)
    (status : ((ascii "+CGREG: 0,1").isPrefixOf (reply.text ++ [cr, lf]) ||
      (ascii "+CGREG: 0,5").isPrefixOf (reply.text ++ [cr, lf])) = true) :
    reply.answers = .registration ∧ reply ≠ registered := by
  rcases reply_cases mem with rfl | rfl | rfl
  · have plain : ((ascii "+CGREG: 0,1").isPrefixOf (ascii "OK" ++ [cr, lf]) ||
        (ascii "+CGREG: 0,5").isPrefixOf (ascii "OK" ++ [cr, lf])) = false := by decide
    exact absurd status (by rw [plain]; decide)
  · exact ⟨rfl, by simp [registered, ascii]⟩
  · exact absurd status (by decide)

theorem Paired.append (left : Paired l) (right : Paired m) : Paired (l ++ m) := by
  induction l with
  | nil => exact right
  | cons reply l ih =>
    refine ⟨fun status other => ?_, ih left.2⟩
    have follows := left.1 status other
    cases l with
    | nil => simp at follows
    | cons _ _ => simpa using follows

theorem paired_answer (n : UInt8) (command : Command) : Paired (answer n command) := by
  cases command <;> simp [answer, Paired, registered]

end Replies

section NextRnsm

variable {r : Rnsm} {line : List UInt8}

theorem nextRnsm_ne_atd (ne : r ≠ .atd) (ne' : r ≠ .cgreg) : nextRnsm line r ≠ .atd := by
  cases r <;> grind [nextRnsm]

theorem nextRnsm_ne_enterPpp (ne : r ≠ .atd) (ne' : r ≠ .enterPpp) :
    nextRnsm line r ≠ .enterPpp := by
  cases r <;> grind [nextRnsm]

/-- The state becomes `at_cgreg` by a status line only. -/
theorem status_of_nextRnsm (arrives : nextRnsm line r = .cgreg) (ne : r ≠ .cgreg) :
    ((ascii "+CGREG: 0,1").isPrefixOf line || (ascii "+CGREG: 0,5").isPrefixOf line) = true := by
  cases r <;> grind [nextRnsm]

end NextRnsm

/-- What a line of the module does before the first early one. -/
theorem consume_eq (ppp : Ppp P R) {t : Dialup P} (before : Before t) (fresh : Locals)
    {reply : Reply} {lines : List Reply} (first : t.lines = reply :: lines) :
    ∃ locals changes, t.consume ppp fresh =
      { t with
        port := { t.port with
          rnsm := nextRnsm (reply.text ++ [cr, lf]) t.port.rnsm
          locals := locals
          arrRxCharNb := 0
          changes := changes }
        lines := lines
        consumed := t.consumed ++ [reply] } := by
  have inComing : reply ∈ t.coming := by simp [Dialup.coming, first]
  obtain ⟨n, command, mem⟩ := before.replies reply inComing
  obtain ⟨changes, fed⟩ := feed_line_eq ppp fresh before.notPpp before.notAtd before.buffer
    (reply_noBreak mem _) (reply_short mem)
  refine ⟨⟨cr, lf, writeAll t.port.locals.arrRxChar 0 (reply.text ++ [cr, lf])⟩, changes, ?_⟩
  simp only [Dialup.consume, first]
  rw [fed]

namespace Before

variable {ppp : Ppp P R} {t : Dialup P}

theorem start (ppp : Ppp P R) (locals : Locals) : Before (.start ppp locals) where
  notAtd := by simp [Dialup.start, Port.start]
  notPpp := by simp [Dialup.start, Port.start]
  buffer := rfl
  notSending := by simp [Dialup.start, Port.start]
  undialled := by simp [Dialup.start, Port.start]
  unacknowledged := by simp [Dialup.start]
  replies := by simp [Dialup.start, Dialup.coming]
  paired := trivial
  requested := by simp [Dialup.start, Dialup.coming]
  next := by simp [Dialup.start, Port.start]
  calm := by simp [Dialup.start, Port.start]

/-- The module adds a whole answer behind what is coming, or changes nothing there. -/
theorem modem (before : Before t) (n : UInt8) : Before (t.modem n) := by
  unfold Dialup.modem
  split
  · -- the module says a line: what is coming is the same list
    rename_i reply rest said
    have same : Dialup.coming { t with rest := rest, lines := t.lines ++ [reply] } = t.coming := by
      simp [Dialup.coming, said]
    exact { before with
      replies := same ▸ before.replies
      paired := same ▸ before.paired
      requested := same ▸ before.requested
      next := same ▸ before.next }
  · -- it takes up a command, if there is one
    rename_i silent
    split
    · rename_i command taken
      have coming : t.coming = t.lines := by simp [Dialup.coming, silent]
      have sent : .command command ∈ t.port.uart := List.mem_of_getElem? taken
      have added : Dialup.coming { t with heard := t.heard + 1, rest := answer n command } =
          t.coming ++ answer n command := by simp [Dialup.coming, silent]
      exact { before with
        replies := by
          intro reply mem
          rcases List.mem_append.mp (added ▸ mem) with old | new
          · exact before.replies reply old
          · exact ⟨n, command, new⟩
        paired := added ▸ before.paired.append (paired_answer n command)
        requested := by
          intro reply mem context
          rcases List.mem_append.mp (added ▸ mem) with old | new
          · exact before.requested reply old context
          · rw [answers_of_mem_answer new] at context
            exact context ▸ sent
        next := by
          intro here
          rw [added, List.head?_append, before.next here]
          rfl }
    · exact { before with }
    · exact before

/-- The receive thread. In `at_cgreg` the line at the head is `registered`, so all other
lines are consumed elsewhere. -/
theorem consume (before : Before t) (fresh : Locals) (good : ¬ Early t (.consume fresh)) :
    Before (t.consume ppp fresh) := by
  cases first : t.lines with
  | nil =>
    have waits : t.consume ppp fresh = t := by simp [Dialup.consume, first]
    rw [waits]
    exact before
  | cons reply lines =>
    have head : t.coming = reply :: (lines ++ t.rest) := by simp [Dialup.coming, first]
    have inComing : reply ∈ t.coming := by simp [head]
    obtain ⟨n, command, mem⟩ := before.replies reply inComing
    have notCgreg : t.port.rnsm ≠ .cgreg := by
      intro here
      have next := before.next here
      rw [head] at next
      obtain rfl : reply = registered := by simpa using next
      exact good ⟨here, registered, by simp [first], List.prefix_refl _⟩
    -- so `AT+CGDCONT` was not sent, and no line that is coming answers it
    have unsent : .command .context ∉ t.port.uart := fun sent =>
      notCgreg (before.calm (.inl sent)).1
    have unsending : ∀ count, t.port.task ≠ .send .context count := fun count sending =>
      notCgreg (before.calm (.inr ⟨count, sending⟩)).1
    obtain ⟨locals, changes, eq⟩ := consume_eq ppp before fresh first
    rw [eq]
    exact {
      notAtd := nextRnsm_ne_atd before.notAtd notCgreg
      notPpp := nextRnsm_ne_enterPpp before.notAtd before.notPpp
      buffer := rfl
      notSending := before.notSending
      undialled := before.undialled
      unacknowledged := by
        intro other consumed
        rcases List.mem_append.mp consumed with old | new
        · exact before.unacknowledged other old
        · rw [List.mem_singleton.mp new]
          exact fun context => unsent (before.requested reply inComing context)
      replies := fun other later => before.replies other (by rw [head]; exact .tail _ later)
      paired := (head ▸ before.paired : Paired (reply :: (lines ++ t.rest))).2
      requested := fun other later => before.requested other (by rw [head]; exact .tail _ later)
      next := by
        intro arrives
        obtain ⟨status, other⟩ := status_of_prefix mem (status_of_nextRnsm arrives notCgreg)
        exact (head ▸ before.paired : Paired (reply :: (lines ++ t.rest))).1 status other
      calm := by
        rintro (sent | ⟨count, sending⟩)
        · exact absurd sent unsent
        · exact absurd sending (unsending count) }

/-- A step of the task that changes the port. -/
theorem setPort (before : Before t) {port : Port P} (notAtd : port.rnsm ≠ .atd)
    (notPpp : port.rnsm ≠ .enterPpp) (buffer : port.arrRxCharNb = t.port.arrRxCharNb)
    (notSending : ∀ count, port.task ≠ .send .dial count) (undialled : .command .dial ∉ port.uart)
    (sent : .command .context ∈ t.port.uart → .command .context ∈ port.uart)
    (next : port.rnsm = .cgreg → t.port.rnsm = .cgreg)
    (calm : (.command .context ∈ port.uart ∨ ∃ count, port.task = .send .context count) →
      port.rnsm = .cgreg ∧ port.task.Calm) : Before { t with port := port } where
  notAtd := notAtd
  notPpp := notPpp
  buffer := buffer.trans before.buffer
  notSending := notSending
  undialled := undialled
  unacknowledged := before.unacknowledged
  replies := before.replies
  paired := before.paired
  requested := fun reply mem context => sent (before.requested reply mem context)
  next := fun here => before.next (next here)
  calm := calm

/-- A step of the task that only moves it on. -/
theorem setTask (before : Before t) {task : Task} (notDial : ∀ count, task ≠ .send .dial count)
    (context : ∀ count, task = .send .context count → t.port.rnsm = .cgreg)
    (stays : t.port.rnsm = .cgreg → t.port.task.Calm → task.Calm) :
    Before { t with port := { t.port with task := task } } := by
  refine before.setPort before.notAtd before.notPpp rfl notDial before.undialled id id ?_
  rintro (sent | ⟨count, sending⟩)
  · obtain ⟨here, calm⟩ := before.calm (.inl sent)
    exact ⟨here, stays here calm⟩
  · refine ⟨context count sending, ?_⟩
    rw [show task = .send .context count from sending]
    trivial

/-- A step of the task that changes the state. The task is then where it is never calm,
so `AT+CGDCONT` was not sent. -/
theorem setState (before : Before t) {task : Task} {new : Rnsm} {rebootCount : ℕ}
    (restless : ¬ t.port.task.Calm) (notAtd : new ≠ .atd) (notPpp : new ≠ .enterPpp)
    (notCgreg : new ≠ .cgreg) (notDial : ∀ count, task ≠ .send .dial count)
    (notContext : ∀ count, task ≠ .send .context count) :
    Before { t with
      port := { t.port with rnsm := new, rebootCount := rebootCount, task := task } } := by
  refine before.setPort notAtd notPpp rfl notDial before.undialled id
    (fun here => absurd here notCgreg) ?_
  rintro (sent | ⟨count, sending⟩)
  · exact absurd (before.calm (.inl sent)).2 restless
  · exact absurd sending (notContext count)

/-- The task sends a command. -/
theorem send (before : Before t) {command : Command} {count : ℕ}
    (pc : t.port.task = .send command count) :
    Before { t with
      port := { t.port with
        uart := t.port.uart ++ [.command command], task := .delay command (count + 1) } } := by
  have notDial : command ≠ .dial := by
    rintro rfl
    exact before.notSending count pc
  refine before.setPort before.notAtd before.notPpp rfl (by simp) ?_
    (fun sent => List.mem_append_left _ sent) id ?_
  · simp [before.undialled, Ne.symm notDial]
  · rintro (sent | ⟨count', sending⟩)
    · rcases List.mem_append.mp sent with old | new
      · obtain ⟨here, calm⟩ := before.calm (.inl old)
        rw [pc] at calm
        refine ⟨here, ?_⟩
        cases command with
        | attention => exact calm
        | registration => trivial
        | context => trivial
        | dial => trivial
      · obtain rfl : Command.context = command := Sent.command.inj (List.mem_singleton.mp new)
        exact ⟨(before.calm (.inr ⟨count, pc⟩)).1, trivial⟩
    · cases sending

theorem after_calm (command : Command) : command.after.Calm := by cases command <;> trivial

theorem after_ne_send (command command' : Command) (count : ℕ) :
    command.after ≠ .send command' count := by
  cases command <;> simp [Command.after]

/-- The task ends a delay in one of the later loops. -/
theorem delay (before : Before t) (command : Command) (count : ℕ)
    (eq : mobileNetworkTask ppp t.port =
      { t.port with task := if count > 60 then command.after else .test command count }) :
    Before (t.task ppp) := by
  rw [Dialup.task, eq]
  refine before.setTask ?_ ?_ ?_
  · intro count'
    split_ifs
    · exact after_ne_send command _ count'
    · simp
  · intro count' sending
    split_ifs at sending
    exact absurd sending (after_ne_send command _ count')
  · intro _ _
    split_ifs
    · exact after_calm command
    · trivial

/-- The task. -/
theorem task (before : Before t) : Before (t.task ppp) := by
  cases pc : t.port.task with
  | testReboot =>
    have eq : mobileNetworkTask ppp t.port = { t.port with
        task := if t.port.rnsm = .reboot then .rebooting else .test .attention 0 } := by
      simp only [mobileNetworkTask, pc]
    rw [Dialup.task, eq]
    refine before.setTask ?_ ?_ ?_
    · intro count
      split_ifs <;> simp
    · intro count sending
      split_ifs at sending
    · -- `at_cgreg` is not `at_reboot`, so the task passes by `module_reboot`
      intro here _
      rw [if_neg (by rw [here]; decide)]
      trivial
  | rebooting =>
    have eq : mobileNetworkTask ppp t.port = { t.port with
        rnsm := .reset, task := .test .attention 0 } := by
      simp only [mobileNetworkTask, pc, mStateChange_eq (show Rnsm.reset ≠ .reboot by decide)
        (by decide)]
    rw [Dialup.task, eq]
    exact before.setState (by rw [pc]; exact id) (by decide) (by decide) (by decide) (by simp)
      (by simp)
  | test command count =>
    have eq : mobileNetworkTask ppp t.port = { t.port with
        task := if t.port.rnsm = command.stage then .send command count else command.after } := by
      simp only [mobileNetworkTask, pc]
    rw [Dialup.task, eq]
    refine before.setTask ?_ ?_ ?_
    · intro count'
      split_ifs with here
      · rintro ⟨⟩
        exact before.notAtd here
      · exact after_ne_send command _ count'
    · intro count' sending
      split_ifs at sending with here
      · cases sending
        exact here
      · exact absurd sending (after_ne_send command _ count')
    · intro here _
      split_ifs with stage
      · -- in `at_cgreg` the command is `AT+CGDCONT`
        cases command with
        | attention => exact absurd (here.symm.trans stage) (by decide)
        | registration => trivial
        | context => trivial
        | dial => trivial
      · exact after_calm command
  | send command count =>
    have eq : mobileNetworkTask ppp t.port = { t.port with
        uart := t.port.uart ++ [.command command], task := .delay command (count + 1) } := by
      simp only [mobileNetworkTask, pc]
    rw [Dialup.task, eq]
    exact before.send pc
  | delay command count =>
    cases command with
    | attention =>
      -- after this delay the task may still call `m_state_change`
      have restless : ¬ t.port.task.Calm := by rw [pc]; exact id
      by_cases late : count > timeoutCount t.port.rebootCount
      · have eq : mobileNetworkTask ppp t.port = { t.port with
            rnsm := .reboot
            rebootCount := (t.port.rebootCount + 1) % 2 ^ 32
            task := .test .registration 0 } := by
          simp [mobileNetworkTask, pc, late, mStateChange, Command.after]
        rw [Dialup.task, eq]
        exact before.setState restless (by decide) (by decide) (by decide) (by simp) (by simp)
      · have eq : mobileNetworkTask ppp t.port =
            { t.port with task := .test .attention count } := by
          simp only [mobileNetworkTask, pc, if_neg late]
        rw [Dialup.task, eq]
        exact before.setTask (by simp) (by simp) (fun _ calm => absurd calm restless)
    | registration => exact before.delay .registration count (by simp only [mobileNetworkTask, pc])
    | context => exact before.delay .context count (by simp only [mobileNetworkTask, pc])
    | dial => exact before.delay .dial count (by simp only [mobileNetworkTask, pc])
  | testPpp =>
    have eq : mobileNetworkTask ppp t.port = { t.port with task := .testReboot } := by
      simp only [mobileNetworkTask, pc, if_neg before.notPpp]
    rw [Dialup.task, eq]
    exact before.setTask (by simp) (by simp) (fun _ _ => trivial)
  | idle =>
    have eq : mobileNetworkTask ppp t.port = { t.port with task := .testReboot } := by
      simp only [mobileNetworkTask, pc]
    rw [Dialup.task, eq]
    exact before.setTask (by simp) (by simp) (fun _ _ => trivial)

end Before

/-! ### Whole runs -/

/-- An early line is `registered`, so the state moves to `at_atd` while nothing has
acknowledged the context. -/
theorem Early.not_ordered {ppp : Ppp P R} {t : Dialup P} {event : Event} (before : Before t)
    (early : Early t event) : ¬ Ordered (t.step ppp event) := by
  cases event with
  | task => exact early.elim
  | modem n => exact early.elim
  | consume fresh =>
    obtain ⟨here, reply, head, -⟩ := early
    obtain ⟨lines, first⟩ := List.head?_eq_some_iff.mp head
    have next := before.next here
    rw [Dialup.coming, first] at next
    obtain rfl : reply = registered := by simpa using next
    obtain ⟨locals, changes, eq⟩ := consume_eq ppp before fresh first
    -- in `at_cgreg` this line leads to `at_atd`
    have dialling : nextRnsm (registered.text ++ [cr, lf]) .cgreg = .atd := by decide
    intro ordered
    have acknowledged := ordered (.inl (by
      rw [Dialup.step, eq, here]
      exact dialling))
    rw [Dialup.step, eq] at acknowledged
    rcases List.mem_append.mp acknowledged.2 with old | new
    · exact before.unacknowledged _ old rfl
    · exact absurd (List.mem_singleton.mp new) (by decide)

/-- Dialling waits for the acknowledgement throughout a run exactly when no line that
starts with `OK` is consumed in `at_cgreg`: the first such line never answers
`AT+CGDCONT`. -/
theorem ordered_iff_never_early (ppp : Ppp P R) (locals : Locals) (events : List Event) :
    Always (Dialup.step ppp) Ordered (.start ppp locals) events ↔
      Avoids (Dialup.step ppp) Early (.start ppp locals) events := by
  refine always_iff_avoids Before ?_ ?_ ?_ (Before.start ppp locals)
  -- before the first early line nothing is dialled
  · rintro t before (here | here | dialled)
    · exact absurd here before.notAtd
    · exact absurd here before.notPpp
    · exact absurd dialled before.undialled
  · intro t event before good
    cases event with
    | task => exact before.task
    | modem n => exact before.modem n
    | consume fresh => exact before.consume fresh good
  · intro t event before early
    exact early.not_ordered before

/-- The task sends `AT` and, after the `OK`, `AT+CGREG?`. Both lines of the answer, a
status `1` and `OK`, are consumed before the task sends anything else. -/
def earlyRun : List Event :=
  let blank : Locals := ⟨0, 0, fun _ => 0⟩
  List.replicate 3 Event.task ++ [Event.modem 0, Event.modem 0, Event.consume blank] ++
    List.replicate 4 Event.task ++ [Event.modem 49, Event.modem 49, Event.consume blank,
      Event.modem 49, Event.consume blank]

theorem ordered_fails_early :
    ¬ Always (Dialup.step silentPpp) Ordered (.start silentPpp ⟨0, 0, fun _ => 0⟩) earlyRun := by
  decide +kernel

end Components.Modem
