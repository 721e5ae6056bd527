import Mathlib.Algebra.Ring.Nat
import Mathlib.Logic.Function.Basic

/-!
# The modem port of `sio.c`

The functions of `src/lwip_port/sio.c` and the calls of `pppos_example.c` that they
meet. Three threads share the record `m`: the set-up task, which sends the command of
the current state again and again, the receive thread, which takes bytes from the queue
of the serial line, and the thread of the PPP stack.

The PPP stack is a parameter. A call of it is a tree: it hands buffers to its output
callback, goes on with what the callback returned, and ends in a next state of the
stack.

The local variables of `mobile_network_rx` have no initial values. They keep their
values from byte to byte, and are arbitrary again after the function has returned. What
the receive thread does with one byte is one step.

## Main definitions

* `Rnsm`, `Command` — the states of the set-up, and what the task sends in them
* `PppCall`, `Ppp` — calls of the PPP stack
* `Port` — the shared record, the threads, and what was handed to the serial line
* `mStateChange`, `mobileNetworkRx`, `mobileNetworkTask`, `sioWrite` — the functions
-/

namespace Components.Modem

/-- `register_network_status_m`. -/
inductive Rnsm
  | reset
  | ok
  | cgreg
  | atd
  | enterPpp
  | reboot
  deriving DecidableEq, Repr

/-- The bytes of a text. -/
def ascii (text : String) : List UInt8 := text.toList.map Char.toUInt8

/-- `'\r'`. -/
def cr : UInt8 := 13

/-- `'\n'`. -/
def lf : UInt8 := 10

/-! ### The PPP stack -/

/-- A call into the PPP stack. -/
inductive PppCall (P : Type)
  /-- The call returns and leaves the stack in this state. -/
  | ret (ppp : P)
  /-- The call hands a buffer to the output callback and goes on with its result. -/
  | output (data : List UInt8) (resume : ℕ → PppCall P)

/-- The PPP stack with states in `P`, woken by timers and packets for a reason in `R`. -/
structure Ppp (P R : Type) where
  /-- The state after `pppos_create`. -/
  init : P
  /-- `ppp_connect(ppp, 0)`. -/
  connect : P → PppCall P
  /-- Any other work of the stack. -/
  wake : R → P → PppCall P

/-- A PPP stack that does nothing. -/
def silentPpp : Ppp Unit Unit := ⟨(), fun _ => .ret (), fun _ _ => .ret ()⟩

/-! ### The state of the port -/

/-- What the task sends, named after what it asks of the module. -/
inductive Command
  | attention
  | registration
  | context
  | dial
  deriving DecidableEq, Repr

/-- The bytes of a command. -/
def Command.text : Command → List UInt8
  | .attention => ascii "AT\r\n"
  | .registration => ascii "AT+CGREG?\r\n"
  | .context => ascii "AT+CGDCONT=1,\"IP\",\"CMNET\"\r\n"
  | .dial => ascii "ATD*99#\r\n"

/-- The state in which the task sends a command. -/
def Command.stage : Command → Rnsm
  | .attention => .reset
  | .registration => .ok
  | .context => .cgreg
  | .dial => .atd

/-- Where `mobile_network_task` stands. -/
inductive Task
  /-- Before the test for `at_reboot`. -/
  | testReboot
  /-- In `module_reboot`. -/
  | rebooting
  /-- Before the loop test of the state in which the command is sent. -/
  | test (command : Command) (count : ℕ)
  /-- Past the test, before `uart1_send`. -/
  | send (command : Command) (count : ℕ)
  /-- In the delay after it, with `count` already incremented. -/
  | delay (command : Command) (count : ℕ)
  /-- Before the test for `at_enter_ppp`. -/
  | testPpp
  /-- In the delay of its branch. -/
  | idle
  deriving DecidableEq, Repr

/-- The local variables of `mobile_network_rx`. -/
structure Locals where
  lastRxChar : UInt8
  newRxChar : UInt8
  arrRxChar : ℕ → UInt8

/-- `sizeof(arrRxChar)`. -/
def arrRxCharSize : ℕ := 1500

/-- A call of `uart1_send`. -/
inductive Sent
  | command (command : Command)
  | frame (data : List UInt8)
  deriving DecidableEq, Repr

/-- A call of `sio_write`: what it was given, whether `ppp_connect` had been called by
then, what it handed on, and what it returned. -/
structure Write where
  data : List UInt8
  connected : Bool
  handed : List UInt8
  returned : ℕ
  deriving DecidableEq, Repr

/-- A call of `m_state_change` at the end of a line, with the string that the line is compared
with. -/
structure Change where
  feature : List UInt8
  new : Rnsm
  deriving DecidableEq, Repr

/-- The state of the port. -/
structure Port (P : Type) where
  /-- `m.rnsm`. -/
  rnsm : Rnsm
  /-- `m.m_reboot_count`. -/
  rebootCount : ℕ
  task : Task
  /-- The local variables of `mobile_network_rx`, and its static one. -/
  locals : Locals
  arrRxCharNb : ℕ
  /-- The calls of `m_state_change` made by `mobile_network_rx`. -/
  changes : List Change
  ppp : P
  /-- The calls of `uart1_send`. -/
  uart : List Sent
  /-- The buffers passed to `pppos_input_tcpip`. -/
  input : List (List UInt8)
  /-- Has `ppp_connect` been called? -/
  connected : Bool
  /-- The calls of `sio_write`. -/
  writes : List Write

/-- After `mobile_network_module_register_up`. -/
def Port.start {P R : Type} (ppp : Ppp P R) (locals : Locals) : Port P where
  rnsm := .reset
  rebootCount := 0
  task := .testReboot
  locals := locals
  arrRxCharNb := 0
  changes := []
  ppp := ppp.init
  uart := []
  input := []
  connected := false
  writes := []

variable {P R : Type}

/-! ### Output -/

/-- `sio_write`, with the bytes it hands to `uart1_send`. Nothing goes out before the
module is in data mode. -/
def sioWrite (s : Port P) (data : List UInt8) : Port P × ℕ :=
  if s.rnsm ≠ .enterPpp then
    ({ s with writes := s.writes ++ [⟨data, s.connected, [], 0⟩] }, 0)
  else
    ({ s with
      uart := s.uart ++ [.frame data]
      writes := s.writes ++ [⟨data, s.connected, data, data.length⟩] }, data.length)

/-- Run a call of the PPP stack. `ppp_output_cb` is `sio_write`. -/
def PppCall.run : PppCall P → Port P → Port P
  | .ret ppp, s => { s with ppp := ppp }
  | .output data resume, s => (resume (sioWrite s data).2).run (sioWrite s data).1

/-- `pppos_example_connect`. -/
def ppposExampleConnect (ppp : Ppp P R) (s : Port P) : Port P :=
  (ppp.connect s.ppp).run { s with connected := true }

/-- `m_state_change`. The new state is assigned last. The semaphore `enter_ppp`, which
nothing takes, is left out. -/
def mStateChange (ppp : Ppp P R) (new : Rnsm) (s : Port P) : Port P :=
  let s := if new = .reboot then { s with rebootCount := (s.rebootCount + 1) % 2 ^ 32 } else s
  let s := if new = .enterPpp then ppposExampleConnect ppp s else s
  { s with rnsm := new }

/-! ### Input -/

/-- `strncmp(arr, features, sizeof(features) - 1) == 0`, from index `i` on. -/
def startsWith (arr : ℕ → UInt8) : List UInt8 → ℕ → Bool
  | [], _ => true
  | c :: features, i => arr i = c && startsWith arr features (i + 1)

/-- `mobile_network_rx` calls `m_state_change`. -/
def makeChange (ppp : Ppp P R) (change : Change) (s : Port P) : Port P :=
  mStateChange ppp change.new { s with changes := s.changes ++ [change] }

/-- A line is compared with a string, and the state changes if it starts with it. -/
def compareLine (ppp : Ppp P R) (change : Change) (s : Port P) : Port P :=
  if startsWith s.locals.arrRxChar change.feature 0 then makeChange ppp change s else s

/-- What `mobile_network_rx` does at the end of a line. -/
def lineEnd (ppp : Ppp P R) (s : Port P) : Port P :=
  match s.rnsm with
  | .reset => compareLine ppp ⟨ascii "OK", .ok⟩ s
  | .ok =>
    let s := compareLine ppp ⟨ascii "+CGREG: 0,1", .cgreg⟩ s
    compareLine ppp ⟨ascii "+CGREG: 0,5", .cgreg⟩ s
  | .cgreg => compareLine ppp ⟨ascii "OK", .atd⟩ s
  | .atd => compareLine ppp ⟨ascii "CONNECT", .enterPpp⟩ s
  | .enterPpp | .reboot => s

/-- Take a byte into the line buffer. A full buffer is emptied and the byte is lost. -/
def storeChar (c : UInt8) (s : Port P) : Port P :=
  let locals := { s.locals with lastRxChar := s.locals.newRxChar, newRxChar := c }
  if s.arrRxCharNb < arrRxCharSize then
    { s with
      locals := { locals with arrRxChar := Function.update locals.arrRxChar s.arrRxCharNb c }
      arrRxCharNb := s.arrRxCharNb + 1 }
  else { s with locals := locals, arrRxCharNb := 0 }

/-- A byte in command mode. -/
def rxLine (ppp : Ppp P R) (c : UInt8) (s : Port P) : Port P :=
  let s := storeChar c s
  if s.locals.lastRxChar = cr ∧ s.locals.newRxChar = lf then
    { lineEnd ppp s with arrRxCharNb := 0 }
  else s

/-- A byte in data mode. A buffer ends at a flag byte or when it has `len` bytes, and is
then returned to the caller, whose next call has the local variables `fresh`. -/
def rxData (len : ℕ) (c : UInt8) (fresh : Locals) (s : Port P) : Port P :=
  let arr := Function.update s.locals.arrRxChar s.arrRxCharNb c
  let nb := s.arrRxCharNb + 1
  if (nb ≠ 1 ∧ c = 0x7e) ∨ nb = len then
    { s with
      locals := fresh
      arrRxCharNb := 0
      input := s.input ++ [(List.range nb).map arr] }
  else { s with locals := { s.locals with arrRxChar := arr }, arrRxCharNb := nb }

/-- `mobile_network_rx`, for one byte of the queue. -/
def mobileNetworkRx (ppp : Ppp P R) (len : ℕ) (c : UInt8) (fresh : Locals) (s : Port P) :
    Port P :=
  if s.rnsm ≠ .enterPpp then rxLine ppp c s else rxData len c fresh s

/-- The size of the buffer of `pppos_rx_thread`. -/
def rxThreadLen : ℕ := 128

/-! ### The task -/

/-- How many rounds the loop for `at_reset` has. -/
def timeoutCount (rebootCount : ℕ) : ℕ := if rebootCount = 0 then 1000 / 100 else 60000 / 100

/-- Where the task goes when the loop of a command has ended. -/
def Command.after : Command → Task
  | .attention => .test .registration 0
  | .registration => .test .context 0
  | .context => .test .dial 0
  | .dial => .testPpp

/-- One step of `mobile_network_task`. -/
def mobileNetworkTask (ppp : Ppp P R) (s : Port P) : Port P :=
  match s.task with
  | .testReboot =>
    { s with task := if s.rnsm = .reboot then .rebooting else .test .attention 0 }
  | .rebooting => { mStateChange ppp .reset s with task := .test .attention 0 }
  | .test command count =>
    { s with task := if s.rnsm = command.stage then .send command count else command.after }
  | .send command count =>
    { s with
      uart := s.uart ++ [.command command]
      task := .delay command (count + 1) }
  | .delay .attention count =>
    if count > timeoutCount s.rebootCount then
      -- the module may have answered during the delay: the state is not tested again
      { mStateChange ppp .reboot s with task := Command.attention.after }
    else { s with task := .test .attention count }
  | .delay command count =>
    { s with task := if count > 60 then command.after else .test command count }
  | .testPpp => { s with task := if s.rnsm = .enterPpp then .idle else .testReboot }
  | .idle => { s with task := .testReboot }

end Components.Modem
