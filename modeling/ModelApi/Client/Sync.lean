import ModelApi.Client.ReadFrame
import ModelApi.Lib.Transition

/-!
# The synchronous client

`SyncClient` as a transition system: any number of threads call into one client, whose stream
sits behind a mutex, and a server answers at the other end. Reading a frame is one step, whose
label is what the read calls met; the server may send at any time between two steps.

The server answers the inference frames in the order they were written, with events and one
terminal frame each. It may also send `Hello` and `Goodbye` at any time, and hang up, even in
the middle of a frame. What it sends for which call is recorded in the state.
-/

namespace ModelApi.Client

open Lib

/-! ### The calls -/

/-- What `inference_stream` hands to its callback. -/
inductive StreamEvent where
  | chunk (c : StreamChunk)
  | progress (p : ProgressEvent)
  deriving DecidableEq, Repr

/-- The frame an event travels in. -/
def StreamEvent.frame : StreamEvent → ServerMessage
  | .chunk c    => .chunk c
  | .progress p => .progress p

/-- The methods of `SyncClient`. -/
inductive Op where
  | inference (req : InferenceRequest)
  | inferenceStream (req : InferenceRequest)
  | cancel
  | shutdown

/-- The frame a method writes. -/
def Op.message : Op → ClientMessage
  | .inference req       => .inference req
  | .inferenceStream req => .inference { req with stream := true, progress := true }
  | .cancel              => .cancel
  | .shutdown            => .shutdown

/-- The methods that wait for a reply. -/
def Op.isInference : Op → Bool
  | .inference _ | .inferenceStream _ => true
  | .cancel | .shutdown               => false

/-- How a call ends. -/
inductive Result where
  | response (resp : InferenceResponse)
  | unit
  | error (e : ClientError)
  | panicked
  deriving DecidableEq, Repr

/-- What a reading loop does with what `read_frame` returned. -/
inductive Handled where
  | goOn
  | event (ev : StreamEvent)
  | finish (result : Result)
  deriving DecidableEq, Repr

/-- The body of the loop of each method. `cancel` does not read. -/
def Op.handle : Op → Except ClientError (Option ServerMessage) → Handled
  | .inference _, .ok (some (.inferenceComplete resp))         => .finish (.response resp)
  | .inference _, .ok (some (.inferenceError message))         =>
    .finish (.error (.server message))
  | .inference _, .ok (some (.progress _))                     => .goOn
  | .inference _, .ok (some (.chunk _))                        => .goOn
  | .inference _, .ok (some (.hello _ _ _))                    => .goOn
  | .inference _, .ok (some .goodbye)                          => .goOn
  | .inference _, .ok none                                     => .finish (.error .disconnected)
  | .inference _, .error e                                     => .finish (.error e)
  | .inferenceStream _, .ok (some (.inferenceComplete resp))   => .finish (.response resp)
  | .inferenceStream _, .ok (some (.inferenceError message))   =>
    .finish (.error (.server message))
  | .inferenceStream _, .ok (some (.chunk c))                  => .event (.chunk c)
  | .inferenceStream _, .ok (some (.progress p))               => .event (.progress p)
  | .inferenceStream _, .ok (some (.hello _ _ _))              => .goOn
  | .inferenceStream _, .ok (some .goodbye)                    => .goOn
  | .inferenceStream _, .ok none                               => .finish (.error .disconnected)
  | .inferenceStream _, .error e                               => .finish (.error e)
  | .shutdown, .ok (some .goodbye)                             => .finish .unit
  | .shutdown, .ok (some _)                                    => .goOn
  | .shutdown, .ok none                                        => .finish .unit
  | .shutdown, .error .disconnected                            => .finish .unit
  | .shutdown, .error e                                        => .finish (.error e)
  | .cancel, _                                                 => .finish .unit

/-- The event a frame carries. -/
def eventOf : ServerMessage → Option StreamEvent
  | .chunk c    => some (.chunk c)
  | .progress p => some (.progress p)
  | .hello _ _ _ | .inferenceComplete _ | .inferenceError _ | .goodbye => none

@[simp] lemma eventOf_frame (ev : StreamEvent) : eventOf ev.frame = some ev := by
  cases ev <;> rfl

lemma eventOf_of_isOutOfBand {msg : ServerMessage} (h : msg.isOutOfBand = true) :
    eventOf msg = none := by
  cases msg with
  | hello | goodbye => rfl
  | _ => cases h

lemma isTerminal_of_isOutOfBand {msg : ServerMessage} (h : msg.isOutOfBand = true) :
    msg.isTerminal = false := by
  cases msg with
  | hello | goodbye => rfl
  | _ => cases h

@[simp] lemma isTerminal_frame (ev : StreamEvent) : ev.frame.isTerminal = false := by
  cases ev <;> rfl

def Op.isStream : Op → Bool
  | .inferenceStream _                    => true
  | .inference _ | .cancel | .shutdown    => false

/-- An inference passes the events on, if it has a callback, and skips the other frames that do
not end it. -/
lemma Op.handle_of_not_isTerminal {op : Op} (hop : op.isInference = true) {msg : ServerMessage}
    (hmsg : msg.isTerminal = false) :
    (op.handle (.ok (some msg)) = .goOn ∧ (op.isStream = true → eventOf msg = none)) ∨
      ∃ ev, op.handle (.ok (some msg)) = .event ev ∧ op.isStream = true ∧
        eventOf msg = some ev := by
  cases op with
  | cancel => cases hop
  | shutdown => cases hop
  | inference req =>
    cases msg with
    | inferenceComplete | inferenceError => cases hmsg
    | _ => exact .inl ⟨rfl, nofun⟩
  | inferenceStream req =>
    cases msg with
    | inferenceComplete | inferenceError => cases hmsg
    | chunk c => exact .inr ⟨.chunk c, rfl, rfl, rfl⟩
    | progress p => exact .inr ⟨.progress p, rfl, rfl, rfl⟩
    | hello | goodbye => exact .inl ⟨rfl, fun _ => rfl⟩

/-- When the server has hung up, an inference fails, but not with a reply of the server. -/
lemma Op.handle_hungUp {op : Op} (hop : op.isInference = true)
    {result : Except ClientError (Option ServerMessage)}
    (hresult : result = .ok none ∨ ∃ context, result = .error (.io context)) :
    ∃ e, op.handle result = .finish (.error e) ∧ ∀ message, e ≠ .server message := by
  rcases hresult with rfl | ⟨context, rfl⟩
  · refine ⟨.disconnected, ?_, nofun⟩
    cases op <;> first | rfl | cases hop
  · refine ⟨.io context, ?_, nofun⟩
    cases op <;> first | rfl | cases hop

/-- `shutdown` never ends with a reply. -/
lemma Op.handle_of_not_isInference {op : Op} (hop : op.isInference = false)
    {result : Except ClientError (Option ServerMessage)}
    (hresult : ∀ message, result ≠ .error (.server message)) :
    op.handle result = .goOn ∨ ∃ r, op.handle result = .finish r ∧
      (∀ resp, r ≠ .response resp) ∧ ∀ message, r ≠ .error (.server message) := by
  cases op with
  | inference => cases hop
  | inferenceStream => cases hop
  | cancel => exact .inr ⟨.unit, rfl, nofun, nofun⟩
  | shutdown =>
    rcases result with e | _ | msg
    · cases e with
      | server message => exact absurd rfl (hresult message)
      | disconnected => exact .inr ⟨.unit, rfl, nofun, nofun⟩
      | io context => exact .inr ⟨.error (.io context), rfl, nofun, nofun⟩
      | protocolVersion a b => exact .inr ⟨.error (.protocolVersion a b), rfl, nofun, nofun⟩
    · exact .inr ⟨.unit, rfl, nofun, nofun⟩
    · cases msg with
      | goodbye => exact .inr ⟨.unit, rfl, nofun, nofun⟩
      | _ => exact .inl rfl

/-- Where a call is. -/
inductive Pc where
  | entered
  /-- the mutex has been locked -/
  | holding
  /-- the frame has been written, and the mutex is still held -/
  | reading
  | done (result : Result)
  deriving DecidableEq, Repr

/-- A call in progress, and the events its callback has received. -/
structure Call where
  op : Op
  pc : Pc
  received : List StreamEvent

/-! ### The connection -/

/-- The client, the stream and the server's record. -/
structure State where
  /-- bytes that wait to be read by the client -/
  inbound : List UInt8
  /-- the server has hung up -/
  closed : Bool
  /-- a frame was written in part, so the server cannot make out the frames behind it -/
  torn : Bool
  /-- the calls whose requests the server has not answered yet -/
  unanswered : List ℕ
  lock : Option ℕ
  poisoned : Bool
  calls : ℕ → Option Call
  /-- the events the server has sent for the request of each call -/
  events : ℕ → List StreamEvent
  /-- the terminal frame the server has sent for the request of each call -/
  answers : ℕ → Option ServerMessage

/-- A connection after the handshake. -/
def State.init : State where
  inbound := []
  closed := false
  torn := false
  unanswered := []
  lock := none
  poisoned := false
  calls _ := none
  events _ := []
  answers _ := none

def State.setCall (s : State) (i : ℕ) (c : Call) : State :=
  { s with calls := Function.update s.calls i (some c) }

/-- The call returns, and its guard is dropped. -/
def State.release (s : State) (i : ℕ) (c : Call) (result : Result) : State :=
  { s.setCall i { c with pc := .done result } with lock := none }

/-- What the environment contributes to a step: what the read calls of one `read_frame` met, how
far a failing write got, or nothing. -/
inductive Label where
  | read (src : Source IoError)
  | writeFails (written : ℕ)
  | tau

variable [ToString BincodeError]

/-- The frame of a message of a client. -/
abbrev clientFrame : ClientMessage → Except IoError (List UInt8) :=
  Client.Framed.encode ClientMessage.format

/-- The frame of a message of the server. -/
abbrev serverFrame : ServerMessage → Except IoError (List UInt8) :=
  Server.Framed.encode ServerMessage.format

/-- `read_frame::<ServerMessage>`. -/
abbrev readServerFrame : Source IoError →
    Option (Except ClientError (Option ServerMessage) × Source IoError) :=
  readFrame (Bincode.deserialize ServerMessage.format)

/-- The source spells the first of the bytes that wait, and ends only where the server hung up and
no bytes are left. -/
structure Meets (s : State) (src : Source IoError) (rest : List UInt8) : Prop where
  bytes : s.inbound = src.bytes ++ rest
  eof : src.eof = true → s.closed = true ∧ rest = []

inductive Step : State → Label → State → Prop where
  /-- a thread calls a method -/
  | call {s : State} (i : ℕ) (op : Op) (h : s.calls i = none) :
      Step s .tau (s.setCall i ⟨op, .entered, []⟩)
  | lock {s : State} {i : ℕ} {c : Call} (h : s.calls i = some c) (hpc : c.pc = .entered)
      (hfree : s.lock = none) (hp : s.poisoned = false) :
      Step s .tau { s.setCall i { c with pc := .holding } with lock := some i }
  | lockPoisoned {s : State} {i : ℕ} {c : Call} (h : s.calls i = some c) (hpc : c.pc = .entered)
      (hfree : s.lock = none) (hp : s.poisoned = true) :
      Step s .tau (s.release i c (.error (.io "client mutex poisoned")))
  | encodeFails {s : State} {i : ℕ} {c : Call} {e : IoError} (h : s.calls i = some c)
      (hpc : c.pc = .holding) (henc : clientFrame c.op.message = .error e) :
      Step s .tau (s.release i c (.error (.io s!"encode: {e.message}")))
  | writeFails {s : State} {i : ℕ} {c : Call} {frame : List UInt8} (h : s.calls i = some c)
      (hpc : c.pc = .holding) (henc : clientFrame c.op.message = .ok frame) (written : ℕ)
      (hlt : written < frame.length) (e : IoError) :
      Step s (.writeFails written)
        { s.release i c (.error (.io s!"write: {e.message}")) with
          torn := s.torn || decide (0 < written) }
  /-- the whole frame of a request is written; flushing the stream does nothing -/
  | writeInference {s : State} {i : ℕ} {c : Call} {frame : List UInt8} (h : s.calls i = some c)
      (hpc : c.pc = .holding) (henc : clientFrame c.op.message = .ok frame)
      (hop : c.op.isInference = true) :
      Step s .tau
        { s.setCall i { c with pc := .reading } with unanswered := s.unanswered ++ [i] }
  | writeShutdown {s : State} {i : ℕ} {c : Call} {frame : List UInt8} (h : s.calls i = some c)
      (hpc : c.pc = .holding) (henc : clientFrame c.op.message = .ok frame)
      (hop : c.op = .shutdown) :
      Step s .tau (s.setCall i { c with pc := .reading })
  | writeCancel {s : State} {i : ℕ} {c : Call} {frame : List UInt8} (h : s.calls i = some c)
      (hpc : c.pc = .holding) (henc : clientFrame c.op.message = .ok frame)
      (hop : c.op = .cancel) :
      Step s .tau (s.release i c .unit)
  | readOn {s : State} {i : ℕ} {c : Call} {src src' : Source IoError} {rest : List UInt8}
      {result : Except ClientError (Option ServerMessage)} (h : s.calls i = some c)
      (hpc : c.pc = .reading) (hmeets : Meets s src rest)
      (hread : readServerFrame src = some (result, src')) (hhandle : c.op.handle result = .goOn) :
      Step s (.read src) { s with inbound := src'.bytes ++ rest }
  | readEvent {s : State} {i : ℕ} {c : Call} {src src' : Source IoError} {rest : List UInt8}
      {result : Except ClientError (Option ServerMessage)} {ev : StreamEvent}
      (h : s.calls i = some c) (hpc : c.pc = .reading) (hmeets : Meets s src rest)
      (hread : readServerFrame src = some (result, src'))
      (hhandle : c.op.handle result = .event ev) :
      Step s (.read src)
        { s.setCall i { c with received := c.received ++ [ev] } with
          inbound := src'.bytes ++ rest }
  /-- the callback panics, which poisons the mutex -/
  | readPanics {s : State} {i : ℕ} {c : Call} {src src' : Source IoError} {rest : List UInt8}
      {result : Except ClientError (Option ServerMessage)} {ev : StreamEvent}
      (h : s.calls i = some c) (hpc : c.pc = .reading) (hmeets : Meets s src rest)
      (hread : readServerFrame src = some (result, src'))
      (hhandle : c.op.handle result = .event ev) :
      Step s (.read src)
        { s.release i { c with received := c.received ++ [ev] } .panicked with
          inbound := src'.bytes ++ rest, poisoned := true }
  | readFinish {s : State} {i : ℕ} {c : Call} {src src' : Source IoError} {rest : List UInt8}
      {result : Except ClientError (Option ServerMessage)} {r : Result}
      (h : s.calls i = some c) (hpc : c.pc = .reading) (hmeets : Meets s src rest)
      (hread : readServerFrame src = some (result, src'))
      (hhandle : c.op.handle result = .finish r) :
      Step s (.read src) { s.release i c r with inbound := src'.bytes ++ rest }
  | serveEvent {s : State} {i : ℕ} {frame : List UInt8} (ev : StreamEvent)
      (hopen : s.closed = false) (hhead : s.unanswered.head? = some i)
      (henc : serverFrame ev.frame = .ok frame) :
      Step s .tau { s with
        inbound := s.inbound ++ frame
        events := Function.update s.events i (s.events i ++ [ev]) }
  | serveTerminal {s : State} {i : ℕ} {frame : List UInt8} (msg : ServerMessage)
      (hopen : s.closed = false) (hhead : s.unanswered.head? = some i)
      (hterm : msg.isTerminal = true) (henc : serverFrame msg = .ok frame) :
      Step s .tau { s with
        inbound := s.inbound ++ frame
        unanswered := s.unanswered.tail
        answers := Function.update s.answers i (some msg) }
  | serveOutOfBand {s : State} {frame : List UInt8} (msg : ServerMessage)
      (hopen : s.closed = false) (hoob : msg.isOutOfBand = true)
      (henc : serverFrame msg = .ok frame) :
      Step s .tau { s with inbound := s.inbound ++ frame }
  /-- nothing is known about what the server makes of a torn frame and the bytes behind it -/
  | serveStray {s : State} {frame : List UInt8} (msg : ServerMessage) (hopen : s.closed = false)
      (htorn : s.torn = true) (henc : serverFrame msg = .ok frame) :
      Step s .tau { s with inbound := s.inbound ++ frame }
  /-- the server hangs up, perhaps in the middle of a frame -/
  | close {s : State} {frame cut : List UInt8} {msg : ServerMessage} (hopen : s.closed = false)
      (henc : serverFrame msg = .ok frame) (hcut : cut <+: frame) (hne : cut ≠ frame) :
      Step s .tau { s with inbound := s.inbound ++ cut, closed := true }

/-- The connection as a transition system. -/
def connection : Machine State where
  init s := s = State.init
  step s t := ∃ l, Step s l t

/-- No read call failed, but for interruptions behind the first byte of a frame, and no frame was
written in part. -/
def Label.Clean : Label → Prop
  | .read src           => CleanRead src
  | .writeFails written => written = 0
  | .tau                => True

/-- The connection, restricted to clean steps. -/
def cleanConnection : Machine State where
  init s := s = State.init
  step s t := ∃ l : Label, l.Clean ∧ Step s l t

/-- Every call that has returned a reply returned the one the server sent for its own request,
and every callback has received the first of the events sent for that request. -/
structure Matched (s : State) : Prop where
  response : ∀ i c resp, s.calls i = some c → c.pc = .done (.response resp) →
    s.answers i = some (.inferenceComplete resp)
  server : ∀ i c message, s.calls i = some c → c.pc = .done (.error (.server message)) →
    s.answers i = some (.inferenceError message)
  received : ∀ i c, s.calls i = some c → c.received <+: s.events i

end ModelApi.Client
