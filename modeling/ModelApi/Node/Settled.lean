import ModelApi.Link.Delivery
import ModelApi.Node.Request

/-!
# From JavaScript to the slot and back

The methods `inference` and `inferenceStream` of the bindings, over a client on a connection to a
handler. What their promises settle with, and what the callback is called with, is what the slot
made of the request of JavaScript.
-/

namespace ModelApi.Node

open Lib Client Server Link

variable {BigInt Double : Type}

/-! ### The methods -/

section Methods

variable (v : Values BigInt Double)

/-- The call of the client, or why the promise is rejected without one. -/
def inference (r : InferenceRequest BigInt Double) : Except String Op :=
  match toProtoRequest v r with
  | .error e => .error s!"bad request: {e}"
  | .ok p    => .ok (.inference p)

def inferenceStream (r : InferenceRequest BigInt Double) : Except String Op :=
  match toProtoRequest v r with
  | .error e => .error s!"bad request: {e}"
  | .ok p    => .ok (.inferenceStream { p with stream := true })

end Methods

/-- The display text of an error of the client. -/
def errorText : ClientError → String
  | .io s                          => s!"io: {s}"
  | .protocolVersion server client =>
    s!"protocol mismatch: server={server.toNat}, client={client.toNat}"
  | .server s                      => s!"server error: {s}"
  | .disconnected                  => "server disconnected"

def fromProtoResponse (r : ModelApi.InferenceResponse) : InferenceResponse where
  text := r.text
  sessionId := r.sessionId
  rawText := r.rawText
  injections := r.injections
  toolCalls := r.toolCalls.map fun c => ⟨c.id, c.name, c.argumentsJson⟩
  replacement := r.replacement.map fun s => ⟨s.templateSessionId, s.input⟩

def rustEventToNapi : Client.StreamEvent → StreamEvent
  | .chunk c    => ⟨"chunk", some c.deltaText, c.finishReason, c.phase, none, none⟩
  | .progress p => ⟨"progress", none, none, some p.phase, p.tool, p.detail⟩

/-- How the promise settles when the call returns. `joinError` is the text of a panicked task. -/
def settle (joinError : String) : Result → Option (Except String InferenceResponse)
  | .response resp => some (.ok (fromProtoResponse resp))
  | .error e       => some (.error (errorText e))
  | .panicked      => some (.error s!"join: {joinError}")
  | .unit          => none

/-! ### What JavaScript can read off -/

def responseOf (r : InferenceResponse) : ModelApi.InferenceResponse where
  text := r.text
  sessionId := r.sessionId
  rawText := r.rawText
  injections := r.injections
  toolCalls := r.toolCalls.map fun c => ⟨c.id, c.name, c.argumentsJson⟩
  replacement := r.replacement.map fun s => ⟨s.templateSessionId, s.input⟩

@[simp] lemma responseOf_fromProtoResponse (r : ModelApi.InferenceResponse) :
    responseOf (fromProtoResponse r) = r := by
  simp [responseOf, fromProtoResponse, Function.comp_def]

/-- The event by its kind. -/
def eventOf (ev : StreamEvent) : Option Client.StreamEvent :=
  match ev.kind, ev.deltaText, ev.phase with
  | "chunk", some deltaText, phase   => some (.chunk ⟨deltaText, ev.finishReason, phase⟩)
  | "progress", none, some phase     => some (.progress ⟨phase, ev.tool, ev.detail⟩)
  | _, _, _                          => none

@[simp] lemma eventOf_rustEventToNapi (ev : Client.StreamEvent) :
    eventOf (rustEventToNapi ev) = some ev := by
  cases ev <;> rfl

lemma filterMap_eventOf (evs : List Client.StreamEvent) :
    (evs.map rustEventToNapi).filterMap eventOf = evs := by
  simp [List.filterMap_map]

/-- An error of the server is told from all others. -/
lemma errorText_eq_server {e : ClientError} {message : String}
    (h : errorText e = s!"server error: {message}") : e = .server message := by
  cases e with
  | server text =>
    have htext : s!"server error: {text}" = s!"server error: {message}" := h
    have heq : text = message := by simpa [toString] using htext
    rw [heq]
  | io text =>
    have hlist : (s!"io: {text}").toList = (s!"server error: {message}").toList :=
      congrArg String.toList h
    simp [toString] at hlist
  | protocolVersion server client =>
    have hlist : (s!"protocol mismatch: server={server.toNat}, client={client.toNat}").toList =
        (s!"server error: {message}").toList := congrArg String.toList h
    simp [toString] at hlist
  | disconnected =>
    have hlist : "server disconnected".toList = (s!"server error: {message}").toList :=
      congrArg String.toList h
    simp [toString] at hlist

/-- A rejection tells a failure of the slot from all other failures. -/
lemma settle_serverError {joinError message : String} {result : Result}
    (h : settle joinError result = some (.error s!"server error: {message}")) :
    result = .error (.server message) := by
  cases result with
  | response resp => simp [settle] at h
  | unit => simp [settle] at h
  | panicked =>
    simp only [settle, Option.some.injEq, Except.error.injEq] at h
    have hlist := congrArg String.toList h
    simp [toString] at hlist
  | error e =>
    simp only [settle, Option.some.injEq, Except.error.injEq] at h
    rw [errorText_eq_server h]

/-! ### Promises -/

section Promises

variable (v : Values BigInt Double) (r : InferenceRequest BigInt Double)

/-- The call of either method. -/
def call (streams : Bool) : Except String Op :=
  if streams then inferenceStream v r else inference v r

variable {v r} in
lemma call_eq_ok {streams : Bool} {op : Op} (h : call v r streams = .ok op) :
    op.isStream = streams ∧ ∃ p, op.message = .inference p ∧ readBack p = some (r.filled v) ∧
      p.stream = streams ∧ p.progress = streams := by
  cases hp : toProtoRequest v r with
  | error e => cases streams <;> simp [call, inference, inferenceStream, hp] at h
  | ok p =>
    obtain ⟨hread, hstream, hprogress⟩ := (toProtoRequest_eq_ok_iff v r p).mp hp
    cases streams with
    | false =>
      simp only [call, inference, hp, Bool.false_eq_true, if_false, Except.ok.injEq] at h
      subst h
      exact ⟨rfl, p, rfl, hread, hstream, hprogress⟩
    | true =>
      simp only [call, inferenceStream, hp, if_true, Except.ok.injEq] at h
      subst h
      exact ⟨rfl, _, rfl, hread, rfl, rfl⟩

/-- The slot was called with the request of JavaScript, and it is what JavaScript has of this call:
the reply, and the events, if it asked for them. -/
def Served (streams : Bool) (s : Link.State) (i : ℕ) (events : List StreamEvent)
    (reply : Except String ModelApi.InferenceResponse) : Prop :=
  ∃ served, s.ServedBy i served ∧ readBack served.req = some (r.filled v) ∧
    served.req.stream = streams ∧ served.req.progress = streams ∧ served.result = some reply ∧
      (streams = true → events.filterMap eventOf = served.accepted.map toStream)

end Promises

lemma servedBy_unique {s : Link.State} (hnodup : s.asked.Nodup) {i : ℕ} {served served' : SlotCall}
    (h : s.ServedBy i served) (h' : s.ServedBy i served') : served = served' := by
  obtain ⟨k, hk, hserved⟩ := h
  obtain ⟨k', hk', hserved'⟩ := h'
  have hlt : k < s.asked.length := (List.getElem?_eq_some_iff.mp hk).1
  obtain rfl : k = k' := (List.getElem?_inj hlt hnodup).mp (hk.trans hk'.symm)
  exact Option.some.inj (hserved.symm.trans hserved')

lemma served_of_delivered {s : Link.State} (h : Delivered s) {v : Values BigInt Double}
    {r : InferenceRequest BigInt Double} {streams : Bool} {i : ℕ} {c : Client.Call}
    (hcall : s.client.calls i = some c) (hop : call v r streams = .ok c.op) {result : Result}
    (hpc : c.pc = .done result) (hreply : result.IsReply) {served : SlotCall}
    (hserved : s.ServedBy i served) (hmessage : c.op.message = .inference served.req)
    {reply : Except String ModelApi.InferenceResponse} (hresult : served.result = some reply) :
    Served v r streams s i (c.received.map rustEventToNapi) reply := by
  obtain ⟨hstream, p, hp, hread, hstreams, hprogress⟩ := call_eq_ok hop
  obtain rfl : p = served.req := ClientMessage.inference.inj (hp.symm.trans hmessage)
  refine ⟨served, hserved, hread, hstreams, hprogress, hresult, ?_⟩
  rintro rfl
  obtain ⟨served', hserved', hheard⟩ := h.heard i c result hcall hstream hpc hreply
  rw [filterMap_eventOf, hheard, servedBy_unique h.once hserved' hserved]

/-- In every run of a client and a handler whose calls read and write cleanly: if a promise of the
bindings is resolved, it is with the response that the slot gave to this very request of JavaScript,
and if it is rejected with an error of the server, the slot failed with it. In both cases the
callback has been called with the events that the slot emitted for it. -/
theorem served_of_reachable [ToString BincodeError] {cfg : Server.Config} {clientVersion : UInt32}
    {debug : ServerMessage → String} {s : Link.State}
    (h : (link cfg clientVersion debug).Reachable s) {v : Values BigInt Double}
    {r : InferenceRequest BigInt Double} {streams : Bool} {i : ℕ} {c : Client.Call}
    (hcall : s.client.calls i = some c) (hop : call v r streams = .ok c.op) {result : Result}
    (hpc : c.pc = .done result) (joinError : String) :
    (∀ response, settle joinError result = some (.ok response) →
        Served v r streams s i (c.received.map rustEventToNapi) (.ok (responseOf response))) ∧
      ∀ message, settle joinError result = some (.error s!"server error: {message}") →
        Served v r streams s i (c.received.map rustEventToNapi) (.error message) := by
  have hdelivered := (inv_of_reachable h).delivered
  constructor
  · intro response hsettle
    cases result with
    | error e => cases hsettle
    | unit => cases hsettle
    | panicked => cases hsettle
    | response resp =>
      obtain rfl : fromProtoResponse resp = response := Except.ok.inj (Option.some.inj hsettle)
      obtain ⟨served, hserved, hmessage, hresult⟩ := hdelivered.response i c resp hcall hpc
      rw [responseOf_fromProtoResponse]
      exact served_of_delivered hdelivered hcall hop hpc (.inl ⟨resp, rfl⟩) hserved hmessage hresult
  · intro message hsettle
    obtain rfl := settle_serverError hsettle
    obtain ⟨served, hserved, hmessage, hresult⟩ := hdelivered.error i c message hcall hpc
    exact served_of_delivered hdelivered hcall hop hpc (.inr ⟨message, rfl⟩) hserved hmessage
      hresult

def demoValues : Values ℕ ℕ := ⟨UInt64.ofNat, fun n => ⟨UInt32.ofNat n⟩, fun s => s⟩

/-- A request that leaves everything else to the defaults. -/
def demoJs : InferenceRequest ℕ ℕ where
  role := "deep"
  input := "hi"
  maxTokens := 64
  sessionId := none
  cacheHash := none
  tools := none
  toolResults := none
  toolMode := none
  temperature := none
  topP := none
  repPenalty := none
  presencePenalty := none
  maxTokensOverride := none
  systemPrompt := none
  jsonMode := none
  disableThinkPrefix := none
  streamChunkChars := none
  streamThinking := none

theorem served_of_reachable_demo :
    ∃ s, (@link demoText demoConfig PROTOCOL_VERSION fun _ => "").Reachable s ∧
      Served demoValues demoJs false s 0 [] (.error "no") := by
  let _ := demoText
  obtain ⟨s, hs, -, hcall⟩ := demo_answered
  have hop : call demoValues demoJs false = .ok Link.demoOp := rfl
  have hsettled := served_of_reachable hs hcall hop rfl ""
  exact ⟨s, hs, hsettled.2 "no" rfl⟩

end ModelApi.Node
