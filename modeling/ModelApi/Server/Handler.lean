import ModelApi.Lib.Transition
import ModelApi.Proto.Framed

/-!
# The connection handler

`handle_client` as a transition system: the handler reads messages, calls the slot and writes
frames, while the slot runs on a task of its own and pushes events into a bounded channel. The
messages that arrive, what the slot does and which writes fail are left open. What was read, what
the slot did and what was written is recorded in the state.
-/

namespace ModelApi.Server

open Lib

/-! ### The slot's side -/

/-- What a slot pushes into its sink. -/
inductive SlotEvent where
  | chunk (c : StreamChunk)
  | progress (p : ProgressEvent)
  deriving DecidableEq, Repr

/-- The frame that forwards an event. -/
def SlotEvent.frame : SlotEvent → ServerMessage
  | .chunk c    => .chunk c
  | .progress p => .progress p

@[simp] lemma SlotEvent.isTerminal_frame (ev : SlotEvent) : ev.frame.isTerminal = false := by
  cases ev <;> rfl

/-- The capacity of the event channel. -/
def EVENT_CAPACITY : ℕ := 64

/-- One call of the slot: the events it emitted, each with the number of events that were queued
at that moment, and its result. -/
structure SlotCall where
  req : InferenceRequest
  emitted : List (SlotEvent × ℕ)
  result : Option (Except String InferenceResponse)

namespace SlotCall

/-- The events that found room in the channel. -/
def accepted (c : SlotCall) : List SlotEvent :=
  (c.emitted.filter fun e => e.2 < EVENT_CAPACITY).map Prod.fst

end SlotCall

/-- The frame that carries a result. -/
def replyOf : Except String InferenceResponse → ServerMessage
  | .ok inf  => .inferenceComplete inf
  | .error e => .inferenceError e

@[simp] lemma isTerminal_replyOf (r : Except String InferenceResponse) :
    (replyOf r).isTerminal = true := by
  cases r <;> rfl

/-! ### The handler's side -/

/-- What a handler is started with. `debug` is the derived debug text of a message. -/
structure Config where
  connId : ℕ
  modelName : String
  gpuMemoryMb : Option UInt32
  debug : ClientMessage → String

/-- The event channel: what is queued, and which of the two senders are alive. -/
structure Channel where
  queue : List SlotEvent
  /-- the sender inside the sink, which lives as long as the slot task -/
  sink : Bool
  /-- the sender the handler holds -/
  eventTx : Bool

/-- What `try_recv` finds. -/
inductive TryRecv where
  | ok (ev : SlotEvent) (rest : Channel)
  | empty
  | closed

def Channel.tryRecv (ch : Channel) : TryRecv :=
  match ch.queue with
  | ev :: queue => .ok ev { ch with queue := queue }
  | []          => if ch.sink ∨ ch.eventTx then .empty else .closed

/-- `try_send` of the sink: on a full channel the event is dropped. -/
def Channel.trySend (ch : Channel) (ev : SlotEvent) : Channel :=
  if ch.queue.length < EVENT_CAPACITY then { ch with queue := ch.queue ++ [ev] } else ch

/-- Where the streaming branch is. -/
inductive Drain where
  /-- about to look into the channel -/
  | poll
  /-- about to write the frame of an event -/
  | forward (ev : SlotEvent)
  /-- the channel was empty; about to look whether the slot task is finished -/
  | check
  /-- the result is there; about to look for tail events -/
  | tail (r : Except String InferenceResponse)
  | forwardTail (r : Except String InferenceResponse) (ev : SlotEvent)

/-- The errors `handle_client` returns. -/
inductive HandlerError where
  | readHello (e : String)
  | versionMismatch (clientVersion : UInt32)
  | expectedHello (got : ClientMessage)
  | eofBeforeHello
  | read (e : String)
  | duplicateHello
  | write (context e : String)
  | channelClosed

/-- The text that refuses a version. -/
def versionMismatch (clientVersion : UInt32) : String :=
  s!"protocol mismatch: client={clientVersion} server={PROTOCOL_VERSION}"

def HandlerError.text (cfg : Config) : HandlerError → String
  | .readHello e       => s!"conn {cfg.connId}: read hello: {e}"
  | .versionMismatch v => ModelApi.Server.versionMismatch v
  | .expectedHello m   => s!"conn {cfg.connId}: expected Hello, got {cfg.debug m}"
  | .eofBeforeHello    => s!"conn {cfg.connId}: EOF before Hello"
  | .read e            => s!"conn {cfg.connId}: read: {e}"
  | .duplicateHello    => s!"conn {cfg.connId}: duplicate Hello"
  | .write context e   => s!"conn {cfg.connId}: {context}: {e}"
  | .channelClosed     => s!"conn {cfg.connId}: slot channel closed before final response"

/-- Where the handler is. -/
inductive Pc where
  | readHello
  /-- about to refuse the version of the client -/
  | refuse (clientVersion : UInt32)
  | writeHello
  | readNext
  /-- waiting for `slot.run` -/
  | run
  /-- the slot task is running, or has finished, next to the drain loop -/
  | stream (ch : Channel) (d : Drain)
  | reply (msg : ServerMessage)
  | goodbye
  | ended (r : Except HandlerError Unit)

/-- The handler, and what has happened on its connection. -/
structure State where
  pc : Pc
  /-- the messages read so far -/
  received : List ClientMessage
  /-- the calls of the slot, the latest first -/
  calls : List SlotCall
  /-- the frames written so far -/
  written : List ServerMessage
  /-- a write has failed -/
  writeFailed : Bool

def State.init : State where
  pc := .readHello
  received := []
  calls := []
  written := []
  writeFailed := false

/-- What `read_frame_async` returns. -/
inductive ReadResult where
  | message (m : ClientMessage)
  | eof
  | error (e : String)

/-- After the first read. -/
def afterFirst : ReadResult → Pc
  | .message (.hello v) => if v = PROTOCOL_VERSION then .writeHello else .refuse v
  | .message m          => .ended (.error (.expectedHello m))
  | .eof                => .ended (.error .eofBeforeHello)
  | .error e            => .ended (.error (.readHello e))

/-- After a read of the request loop. -/
def afterNext : ReadResult → Pc
  | .message (.hello _)       => .ended (.error .duplicateHello)
  | .message (.inference req) =>
    if req.stream || req.progress then .stream ⟨[], true, true⟩ .poll else .run
  | .message .cancel          => .readNext
  | .message .shutdown        => .goodbye
  | .eof                      => .ended (.ok ())
  | .error e                  => .ended (.error (.read e))

/-- The slot call a message starts. -/
def startCall : ReadResult → Option SlotCall
  | .message (.inference req) => some ⟨req, [], none⟩
  | .message _ | .eof | .error _ => none

def ReadResult.messages : ReadResult → List ClientMessage
  | .message m        => [m]
  | .eof | .error _   => []

/-- The frame a handler is about to write, where it goes then, and what a failure is called. -/
inductive Writes (cfg : Config) : Pc → ServerMessage → Pc → String → Prop where
  | hello : Writes cfg .writeHello (.hello PROTOCOL_VERSION cfg.modelName cfg.gpuMemoryMb)
      .readNext "write hello"
  | event (ch : Channel) (ev : SlotEvent) :
      Writes cfg (.stream ch (.forward ev)) ev.frame (.stream ch .poll) "write event"
  | tailEvent (ch : Channel) (r : Except String InferenceResponse) (ev : SlotEvent) :
      Writes cfg (.stream ch (.forwardTail r ev)) ev.frame (.stream ch (.tail r))
        "write tail event"
  | reply (msg : ServerMessage) : Writes cfg (.reply msg) msg .readNext "write reply"
  | goodbye : Writes cfg .goodbye .goodbye (.ended (.ok ())) "write goodbye"

/-- One turn of the drain loop that does not write: where it goes from the channel and, once that
is empty, from the state of the slot task. -/
inductive Drains (result : Option (Except String InferenceResponse)) :
    Channel → Drain → Pc → Prop where
  | event {ch ch' : Channel} {ev : SlotEvent} (h : ch.tryRecv = .ok ev ch') :
      Drains result ch .poll (.stream ch' (.forward ev))
  | empty {ch : Channel} (h : ch.tryRecv = .empty) :
      Drains result ch .poll (.stream ch .check)
  | closed {ch : Channel} (h : ch.tryRecv = .closed) :
      Drains result ch .poll (.ended (.error .channelClosed))
  | finished {ch : Channel} {r : Except String InferenceResponse} (h : result = some r) :
      Drains result ch .check (.stream ch (.tail r))
  | yield {ch : Channel} (h : result = none) : Drains result ch .check (.stream ch .poll)
  | tailEvent {ch ch' : Channel} {r : Except String InferenceResponse} {ev : SlotEvent}
      (h : ch.tryRecv = .ok ev ch') :
      Drains result ch (.tail r) (.stream ch' (.forwardTail r ev))
  /-- nothing is left in the channel, whose senders are dropped with the branch -/
  | drained {ch : Channel} {r : Except String InferenceResponse}
      (h : ∀ ev ch', ch.tryRecv ≠ .ok ev ch') : Drains result ch (.tail r) (.reply (replyOf r))

inductive Step (cfg : Config) : State → State → Prop where
  | first {s : State} (r : ReadResult) (hpc : s.pc = .readHello) :
      Step cfg s { s with pc := afterFirst r, received := s.received ++ r.messages }
  | next {s : State} (r : ReadResult) (hpc : s.pc = .readNext) :
      Step cfg s { s with
        pc := afterNext r
        received := s.received ++ r.messages
        calls := (startCall r).toList ++ s.calls }
  /-- the outcome of writing the refusal is ignored -/
  | refuse {s : State} {v : UInt32} (hpc : s.pc = .refuse v) :
      Step cfg s { s with
        pc := .ended (.error (.versionMismatch v))
        written := s.written ++ [.inferenceError (versionMismatch v)] }
  | refuseFails {s : State} {v : UInt32} (hpc : s.pc = .refuse v) :
      Step cfg s { s with pc := .ended (.error (.versionMismatch v)), writeFailed := true }
  | write {s : State} {f : ServerMessage} {pc' : Pc} {context : String}
      (hw : Writes cfg s.pc f pc' context) {bytes : List UInt8}
      (henc : Framed.encode ServerMessage.format f = .ok bytes) :
      Step cfg s { s with pc := pc', written := s.written ++ [f] }
  | writeFails {s : State} {f : ServerMessage} {pc' : Pc} {context : String}
      (hw : Writes cfg s.pc f pc' context) (e : String) :
      Step cfg s { s with
        pc := .ended (.error (.write context e)), writeFailed := true }
  | drain {s : State} {ch : Channel} {d : Drain} {c : SlotCall} {cs : List SlotCall} {pc' : Pc}
      (hpc : s.pc = .stream ch d) (hcalls : s.calls = c :: cs) (hd : Drains c.result ch d pc') :
      Step cfg s { s with pc := pc' }
  /-- the slot emits an event -/
  | emit {s : State} {ch : Channel} {d : Drain} {c : SlotCall} {cs : List SlotCall}
      (hpc : s.pc = .stream ch d) (hcalls : s.calls = c :: cs) (hrun : c.result = none)
      (ev : SlotEvent) :
      Step cfg s { s with
        pc := .stream (ch.trySend ev) d
        calls := { c with emitted := c.emitted ++ [(ev, ch.queue.length)] } :: cs }
  /-- `run_stream` returns, which ends the slot task and drops its sink -/
  | finish {s : State} {ch : Channel} {d : Drain} {c : SlotCall} {cs : List SlotCall}
      (hpc : s.pc = .stream ch d) (hcalls : s.calls = c :: cs) (hrun : c.result = none)
      (r : Except String InferenceResponse) :
      Step cfg s { s with
        pc := .stream { ch with sink := false } d, calls := { c with result := some r } :: cs }
  /-- `run` returns -/
  | runReturns {s : State} {c : SlotCall} {cs : List SlotCall} (hpc : s.pc = .run)
      (hcalls : s.calls = c :: cs) (r : Except String InferenceResponse) :
      Step cfg s { s with
        pc := .reply (replyOf r), calls := { c with result := some r } :: cs }

/-- The handler as a transition system. -/
def handleClient (cfg : Config) : Machine State where
  init s := s = State.init
  step := Step cfg

end ModelApi.Server
