import ModelApi.Link.Record
import ModelApi.Proto.ReadFrameAsync

/-!
# A client and a handler on one connection

`SyncClient` and `handle_client` joined by two streams of bytes. The client connects and then calls
as in `Client.Step`, where the part of the server is now played by the handler of `Server.Step`:
every byte that the one side reads was written by the other, in frames that are cut up in any way.
Neither the slot nor the scheduling is restricted.

The calls of the client read and write cleanly, as `Client.Label.Clean` says: no read fails at the
first byte of a frame, behind it only interruptions occur, and no request is written in part. What a
call can return otherwise is the subject of `Client.Matching`. Reads and writes of `connect` and of
the handler may fail at any time.
-/

namespace ModelApi

open Lib Client Server

namespace Link

/-! ### Connecting -/

/-- What the client keeps of the server's `Hello`. -/
structure ServerInfo where
  protocolVersion : UInt32
  modelName : String
  gpuMemoryMb : Option UInt32
  deriving DecidableEq, Repr

/-- Where `SyncClient::connect` is, and how it has ended. -/
inductive Phase where
  /-- the socket is connected -/
  | start
  /-- `Hello` has been written -/
  | greeting
  | connected (info : ServerInfo)
  | failed (e : ClientError)

/-- What `connect` makes of the first frame. `clientVersion` is the client's `PROTOCOL_VERSION`, and
`debug` the derived debug text of a message. -/
def welcomed (clientVersion : UInt32) (debug : ServerMessage → String) :
    Except ClientError (Option ServerMessage) → Phase
  | .ok (some (.hello protocolVersion modelName gpuMemoryMb)) =>
    if protocolVersion ≠ clientVersion then
      .failed (.protocolVersion protocolVersion clientVersion)
    else .connected ⟨protocolVersion, modelName, gpuMemoryMb⟩
  | .ok (some (.inferenceError message)) => .failed (.server message)
  | .ok (some other) => .failed (.io s!"expected Hello, got {debug other}")
  | .ok none => .failed .disconnected
  | .error e => .failed e

/-- The client drops its end when `connect` fails. -/
def Phase.isFailed : Phase → Bool
  | .failed _                          => true
  | .start | .greeting | .connected _  => false

/-! ### The state -/

/-- The client, the handler and what is on its way between them. -/
structure State where
  phase : Phase
  /-- the calls, and the bytes on their way to the client -/
  client : Client.State
  /-- the bytes on their way to the handler -/
  up : List UInt8
  /-- the client has dropped its end -/
  upClosed : Bool
  server : Server.State
  /-- the messages whose frames the client has written -/
  sent : List ClientMessage
  /-- the calls whose requests are among them, in this order -/
  asked : List ℕ

def State.init : State where
  phase := .start
  client := Client.State.init
  up := []
  upClosed := false
  server := Server.State.init
  sent := []
  asked := []

end Link

/-- What the server's record says about the requests. -/
def Client.State.record (s : Client.State) : Link.Record := ⟨s.unanswered, s.events, s.answers⟩

/-- A frame of the handler is behind all others. -/
def Client.State.deliver (s : Client.State) (f : ServerMessage) (frame : List UInt8) :
    Client.State :=
  let r := s.record.deliver f
  { s with
    inbound := s.inbound ++ frame, unanswered := r.unanswered, events := r.events
    answers := r.answers }

/-- Call `i` has written the whole frame of its message. -/
def Client.State.wrote (s : Client.State) (i : ℕ) (c : Client.Call) : Client.State :=
  match c.op with
  | .inference _ | .inferenceStream _ =>
    { s.setCall i { c with pc := .reading } with unanswered := s.unanswered ++ [i] }
  | .shutdown => s.setCall i { c with pc := .reading }
  | .cancel => s.release i c .unit

/-- A step in which no frame is written whole by a call, nor anything by the server. -/
structure Client.Quiet (s t : Client.State) : Prop where
  inbound : t.inbound <:+ s.inbound
  closed : t.closed = s.closed
  holding : ∀ i c, s.calls i = some c → c.pc = .holding →
    ∃ c', t.calls i = some c' ∧ (c'.pc = .holding ∨ ∃ e, c'.pc = .done (.error e))

/-- The frame that a handler is about to write. -/
def Server.Pc.frame (cfg : Server.Config) : Server.Pc → Option ServerMessage
  | .writeHello                    => some (helloFrame cfg)
  | .refuse v                      => some (.inferenceError (versionMismatch v))
  | .stream _ (.forward ev)        => some ev.frame
  | .stream _ (.forwardTail _ ev)  => some ev.frame
  | .reply msg                     => some msg
  | .goodbye                       => some .goodbye
  | _                              => none

/-- What the handler makes of what `read_frame_async` returned. -/
def Server.readResult : Except IoError (Option ClientMessage) → Server.ReadResult
  | .ok (some m) => .message m
  | .ok none     => .eof
  | .error e     => .error e.message

/-- The handler has read something. -/
def Server.State.read (s : Server.State) (r : Server.ReadResult) : Server.State :=
  match s.pc with
  | .readHello => { s with pc := afterFirst r, received := s.received ++ r.messages }
  | _ => { s with
      pc := afterNext r
      received := s.received ++ r.messages
      calls := (startCall r).toList ++ s.calls }

namespace Link

variable [ToString BincodeError]

/-- The source spells the first of the bytes that wait for the handler, and ends only where the
client dropped its end and no bytes are left. -/
structure State.Meets (s : State) (src : Source IoError) (rest : List UInt8) : Prop where
  bytes : s.up = src.bytes ++ rest
  eof : src.eof = true → s.upClosed = true ∧ rest = []

/-- The bytes that a failing write of `f` may have written: not all of its frame. -/
def PartOf (f : ServerMessage) (cut : List UInt8) : Prop :=
  match serverFrame f with
  | .ok frame => cut <+: frame ∧ cut ≠ frame
  | .error _  => cut = []

/-- One step of either side. -/
inductive Step (cfg : Server.Config) (clientVersion : UInt32) (debug : ServerMessage → String) :
    State → State → Prop where
  | hello {s : State} {frame : List UInt8} (hphase : s.phase = .start)
      (henc : clientFrame (.hello clientVersion) = .ok frame) :
      Step cfg clientVersion debug s { s with
        phase := .greeting
        up := s.up ++ frame
        sent := s.sent ++ [.hello clientVersion] }
  | helloFails {s : State} {frame cut : List UInt8} (e : IoError) (hphase : s.phase = .start)
      (henc : clientFrame (.hello clientVersion) = .ok frame) (hcut : cut <+: frame)
      (hne : cut ≠ frame) :
      Step cfg clientVersion debug s { s with
        phase := .failed (.io s!"write: {e.message}"), up := s.up ++ cut, upClosed := true }
  | welcome {s : State} {src src' : Source IoError} {rest : List UInt8}
      {result : Except ClientError (Option ServerMessage)} (hphase : s.phase = .greeting)
      (hmeets : Client.Meets s.client src rest)
      (hread : readServerFrame src = some (result, src')) :
      Step cfg clientVersion debug s { s with
        phase := welcomed clientVersion debug result
        client := { s.client with inbound := src'.bytes ++ rest }
        upClosed := (welcomed clientVersion debug result).isFailed }
  /-- a call moves on, by clean reads, without writing its frame -/
  | call {s : State} {info : ServerInfo} {l : Client.Label} {client : Client.State}
      (hphase : s.phase = .connected info) (hopen : s.upClosed = false) (hclean : l.Clean)
      (hst : Client.Step s.client l client) (hquiet : Client.Quiet s.client client) :
      Step cfg clientVersion debug s { s with client := client }
  | write {s : State} {info : ServerInfo} {i : ℕ} {c : Client.Call} {frame : List UInt8}
      (hphase : s.phase = .connected info) (hopen : s.upClosed = false)
      (hi : s.client.calls i = some c) (hpc : c.pc = .holding)
      (henc : clientFrame c.op.message = .ok frame) :
      Step cfg clientVersion debug s { s with
        client := s.client.wrote i c
        up := s.up ++ frame
        sent := s.sent ++ [c.op.message]
        asked := s.asked ++ if c.op.isInference then [i] else [] }
  /-- the client is dropped, which waits for its calls -/
  | drop {s : State} {info : ServerInfo} (hphase : s.phase = .connected info)
      (hdone : ∀ i c, s.client.calls i = some c → ∃ r, c.pc = .done r) :
      Step cfg clientVersion debug s { s with upClosed := true }
  | serverReads {s : State} {src src' : Source IoError} {rest : List UInt8}
      {result : Except IoError (Option ClientMessage)}
      (hpc : s.server.pc = .readHello ∨ s.server.pc = .readNext) (hmeets : s.Meets src rest)
      (hread : Server.Framed.readFrameAsync (Bincode.deserialize ClientMessage.format) src =
        some (result, src')) :
      Step cfg clientVersion debug s { s with
        up := src'.bytes ++ rest, server := s.server.read (readResult result) }
  /-- the drain loop turns, or the slot moves on with its call -/
  | serverRuns {s : State} {server : Server.State} (hst : Server.Step cfg s.server server)
      (hpc : s.server.pc ≠ .readHello ∧ s.server.pc ≠ .readNext)
      (hwritten : server.written = s.server.written)
      (hfailed : server.writeFailed = s.server.writeFailed) :
      Step cfg clientVersion debug s { s with server := server }
  | serverWrites {s : State} {server : Server.State} {f : ServerMessage} {frame : List UInt8}
      (hst : Server.Step cfg s.server server) (hf : s.server.pc.frame cfg = some f)
      (hwritten : server.written = s.server.written ++ [f]) (henc : serverFrame f = .ok frame) :
      Step cfg clientVersion debug s { s with
        client := s.client.deliver f frame, server := server }
  /-- a write fails, and the handler hangs up -/
  | serverFails {s : State} {server : Server.State} {f : ServerMessage} {cut : List UInt8}
      (hst : Server.Step cfg s.server server) (hf : s.server.pc.frame cfg = some f)
      (hended : ∃ r, server.pc = .ended r) (hwritten : server.written = s.server.written)
      (hcut : PartOf f cut) :
      Step cfg clientVersion debug s { s with
        client := { s.client with inbound := s.client.inbound ++ cut, closed := true }
        server := server }
  /-- the handler has ended and hangs up -/
  | serverDrops {s : State} (hopen : s.client.closed = false)
      (hended : ∃ r, s.server.pc = .ended r) :
      Step cfg clientVersion debug s { s with client := { s.client with closed := true } }

/-- A client and a handler, as a transition system. -/
def link (cfg : Server.Config) (clientVersion : UInt32) (debug : ServerMessage → String) :
    Machine State where
  init s := s = State.init
  step := Step cfg clientVersion debug

end Link

end ModelApi
