import ModelApi.LiteRt.Slot
import ModelApi.Server.Slots

/-!
# Streaming a LiteRT-LM reply

`LiteRtLmSlot::run_stream` from the sink's side. The engine hands the reply to a callback piece by
piece; for the last message the callback forwards each piece through a bounded channel, which a
drain loop on another thread empties into the sink. Between the pieces the call takes the steps of
`CallStep`, whatever the other calls do to the state it shares with them.
-/

namespace ModelApi.LiteRt

open Server

/-- The capacity of the channel between the callback and the drain loop. -/
def STREAM_CAPACITY : ℕ := 64

/-- Where the callback for a piece of the last message is. -/
inductive Callback where
  | idle
  /-- blocked until the channel has room -/
  | sending (chunk : String)
  /-- about to append the piece to the reply -/
  | sent (chunk : String)

/-- Where the drain loop is. -/
inductive Drain where
  | recv
  | push (chunk : String)
  | closed

/-- A call and what it streams. -/
structure Streaming where
  pc : Pc
  /-- the reply to the current message, as far as it has been generated -/
  acc : String
  callback : Callback
  channel : List String
  drain : Drain
  /-- what has been passed to the sink -/
  sink : List StreamChunk
  result : Option (Except String InferenceResponse)

def Streaming.init : Streaming where
  pc := .entered
  acc := ""
  callback := .idle
  channel := []
  drain := .recv
  sink := []
  result := none

/-- The closure holds the sender up to the end of the send loop, or until it returns. -/
def Pc.holdsTx : Pc → Bool
  | .entered | .pinRead _ | .missed | .ready _ _ | .sending _ _ _ | .unwinding _ => true
  | .generated _ _ | .recloned _ _ _ | .inserted _ _ _ | .done _                 => false

def sessionIdOf : SessionMode → Option String
  | .persistent sessionId => some sessionId
  | .stateless            => none

def buildResponse (text : String) (sessionId : Option String) : InferenceResponse :=
  ⟨text, sessionId, none, [], [], none⟩

/-- One step of a call and its stream. -/
inductive StreamStep (cfg : Config) (i : ℕ) (req : InferenceRequest) :
    Streaming → Streaming → Prop where
  /-- the call moves, but for the end of a successful send -/
  | call {s : Streaming} {sh sh' : Shared} {pc' : Pc} (hidle : s.callback = .idle)
      (hstep : CallStep cfg i req sh s.pc sh' pc')
      (hnot : ∀ conv rest last conv' rest' last', s.pc = .sending conv rest last →
        pc' ≠ .sending conv' rest' last') :
      StreamStep cfg i req s { s with pc := pc' }
  /-- a piece of a reply that is not forwarded -/
  | piece {s : Streaming} {conv : Conversation} {msg next : String} {rest : List String}
      {last : String} (hpc : s.pc = .sending conv (msg :: next :: rest) last)
      (chunk : String) :
      StreamStep cfg i req s { s with acc := s.acc ++ chunk }
  /-- a piece of the last reply -/
  | lastPiece {s : Streaming} {conv : Conversation} {msg last : String}
      (hpc : s.pc = .sending conv [msg] last) (hidle : s.callback = .idle) (chunk : String) :
      StreamStep cfg i req s { s with callback := .sending chunk }
  | forward {s : Streaming} {chunk : String} (hcallback : s.callback = .sending chunk)
      (hroom : s.channel.length < STREAM_CAPACITY) :
      StreamStep cfg i req s
        { s with channel := s.channel ++ [chunk], callback := .sent chunk }
  | append {s : Streaming} {chunk : String} (hcallback : s.callback = .sent chunk) :
      StreamStep cfg i req s { s with acc := s.acc ++ chunk, callback := .idle }
  /-- the end of a successful send: the reply is what has been accumulated -/
  | sent {s : Streaming} {conv : Conversation} {msg : String} {rest : List String} {last : String}
      (hpc : s.pc = .sending conv (msg :: rest) last) (hidle : s.callback = .idle) :
      StreamStep cfg i req s { s with
        pc := .sending { conv with history := conv.history ++ [(msg, s.acc)] } rest
          (if rest = [] then s.acc else last)
        acc := "" }
  | recv {s : Streaming} {chunk : String} {rest : List String} (hdrain : s.drain = .recv)
      (hchannel : s.channel = chunk :: rest) :
      StreamStep cfg i req s { s with drain := .push chunk, channel := rest }
  | push {s : Streaming} {chunk : String} (hdrain : s.drain = .push chunk) :
      StreamStep cfg i req s
        { s with sink := s.sink ++ [textChunk chunk none], drain := .recv }
  | close {s : Streaming} (hdrain : s.drain = .recv) (hchannel : s.channel = [])
      (htx : s.pc.holdsTx = false) :
      StreamStep cfg i req s { s with drain := .closed }
  | fail {s : Streaming} {e : String} (hpc : s.pc = .done (.err e)) (hdrain : s.drain = .closed)
      (hresult : s.result = none) :
      StreamStep cfg i req s { s with result := some (.error e) }
  /-- the stop marker, and the response -/
  | stop {s : Streaming} {reply : String} {conv : Conversation}
      (hpc : s.pc = .done (.ok reply conv)) (hdrain : s.drain = .closed)
      (hresult : s.result = none) :
      StreamStep cfg i req s { s with
        sink := s.sink ++ [textChunk "" (some "stop")]
        result := some (.ok (buildResponse reply (sessionIdOf req.session))) }

/-- A call for `req` and its stream. -/
def streaming (cfg : Config) (i : ℕ) (req : InferenceRequest) : Lib.Machine Streaming where
  init s := s = Streaming.init
  step := StreamStep cfg i req

variable {cfg : Config} {i : ℕ} {req : InferenceRequest} {s t : Streaming}

/-- The stream refines the call: a step leaves the call where it is, or is one of its steps. -/
lemma StreamStep.pc_eq_or_callStep (h : StreamStep cfg i req s t) :
    t.pc = s.pc ∨ ∃ sh sh', CallStep cfg i req sh s.pc sh' t.pc := by
  cases h with
  | call _ hstep => exact .inr ⟨_, _, hstep⟩
  | sent hpc =>
    refine .inr ⟨State.init.shared, State.init.shared, ?_⟩
    rw [hpc]
    exact .send s.acc
  | _ => exact .inl rfl

/-- In every run of the stream the call has taken the steps of a call, whatever the calls beside it
did to the shared state. -/
theorem callSteps_of_reachable (h : (streaming cfg i req).Reachable s) :
    Relation.ReflTransGen (fun pc pc' => ∃ sh sh', CallStep cfg i req sh pc sh' pc') .entered
      s.pc := by
  refine h.invariant (P := fun s => Relation.ReflTransGen _ .entered s.pc) ?_ ?_
  · rintro _ rfl
    exact .refl
  · intro s t hstep hs
    rcases hstep.pc_eq_or_callStep with hpc | hcall
    · rwa [hpc]
    · exact hs.tail hcall

/-! ### What is on its way -/

def Drain.inHand : Drain → List String
  | .push chunk      => [chunk]
  | .recv | .closed  => []

/-- What has been forwarded of the piece the callback holds. -/
def Callback.forwarded : Callback → String
  | .sent chunk        => chunk
  | .idle | .sending _ => ""

/-- The chunks that have been passed to the sink, and those that will be. -/
def Streaming.streamed (s : Streaming) : List StreamChunk :=
  s.sink ++ (s.drain.inHand ++ s.channel).map fun chunk => textChunk chunk none

/-- What has been streamed, where the call is. -/
def Pc.Streamed (callback : Callback) (acc text : String) : Pc → Prop
  | .entered | .pinRead _ | .missed | .ready _ _                => acc = "" ∧ text = ""
  | .sending _ [] last                                          => text = last
  | .sending _ [_] _                                            => text = acc ++ callback.forwarded
  | .sending _ (_ :: _ :: _) _                                  => text = ""
  | .generated _ last | .recloned _ _ last | .inserted _ _ last => text = last
  | .unwinding (.ok _ _)                                        => False
  | .done (.ok reply _)                                         => text = reply
  | .unwinding _ | .done _                                      => True

/-- Nothing is lost or doubled on the way to the sink. -/
structure Flow (s : Streaming) : Prop where
  text : s.pc.Streamed s.callback s.acc (deltaText s.streamed)
  busy : s.callback ≠ .idle → ∃ conv msg last, s.pc = .sending conv [msg] last
  closed : s.drain = .closed → s.channel = [] ∧ s.pc.holdsTx = false
  running : s.result = none → ∀ c ∈ s.sink, c.finishReason = none
  finished : s.result ≠ none → s.drain = .closed
  answered : ∀ resp, s.result = some (.ok resp) →
    Stopped s.sink ∧ deltaText s.sink = resp.text

/-- A step of the call streams nothing. -/
lemma CallStep.streamed {sh sh' : Shared} {pc pc' : Pc} {acc text : String}
    (hstep : CallStep cfg i req sh pc sh' pc') (h : pc.Streamed .idle acc text)
    (hnot : ∀ conv rest last conv' rest' last', pc = .sending conv rest last →
      pc' ≠ .sending conv' rest' last') : pc'.Streamed .idle acc text := by
  cases hstep with
  | readPin => exact h
  | hit => exact h
  | miss => exact h
  | create => exact h
  | arm hne =>
    obtain ⟨rfl, rfl⟩ := h
    cases hmsgs : sendableContents ((turnsOf req).drop _) with
    | nil => exact absurd hmsgs hne
    | cons msg rest =>
      cases rest with
      | nil => rfl
      | cons next rest => rfl
  | send => exact absurd rfl (hnot _ _ _ _ _ _ rfl)
  | @unwind outcome =>
    cases outcome with
    | ok => exact h.elim
    | err => trivial
    | panicked => trivial
  | disarm => exact h
  | reclone => exact h
  | insert => exact h
  | writePin => exact h
  | noPin => exact h
  | _ => trivial

/-- A call that has let go of the sender does not take it back. -/
lemma CallStep.holdsTx {sh sh' : Shared} {pc pc' : Pc} (hstep : CallStep cfg i req sh pc sh' pc')
    (h : pc.holdsTx = false) : pc'.holdsTx = false := by
  cases hstep with
  | reclone => rfl
  | recloneFails => rfl
  | insert => rfl
  | writePin => rfl
  | noPin => rfl
  | _ => cases h

namespace Flow

lemma init : Flow .init where
  text := ⟨rfl, rfl⟩
  busy h := absurd rfl h
  closed h := by cases h
  running _ := List.forall_mem_nil _
  finished h := absurd rfl h
  answered _ h := by cases h

/-- The drain loop has not ended while the sender is there. -/
lemma drain_ne_closed (h : Flow s) (htx : s.pc.holdsTx = true) : s.drain ≠ .closed := by
  intro hclosed
  rw [(h.closed hclosed).2] at htx
  cases htx

lemma step (h : Flow s) (hst : StreamStep cfg i req s t) : Flow t := by
  have htext := h.text
  cases hst with
  | call hidle hstep hnot =>
    rw [hidle] at htext
    refine ⟨?_, fun hbusy => absurd hidle hbusy, fun hclosed => ?_, h.running, h.finished,
      h.answered⟩
    · exact hidle.symm ▸ hstep.streamed htext hnot
    · exact ⟨(h.closed hclosed).1, hstep.holdsTx (h.closed hclosed).2⟩
  | piece hpc chunk =>
    refine ⟨?_, h.busy, h.closed, h.running, h.finished, h.answered⟩
    rw [hpc] at htext ⊢
    exact htext
  | lastPiece hpc hidle chunk =>
    refine ⟨?_, fun _ => ⟨_, _, _, hpc⟩, h.closed, h.running, h.finished, h.answered⟩
    rw [hpc, hidle] at htext
    rw [hpc]
    exact htext
  | @forward chunk hcallback hroom =>
    obtain ⟨conv, msg, last, hpc⟩ := h.busy (by simp [hcallback])
    have hopen := h.drain_ne_closed (by rw [hpc]; rfl)
    refine ⟨?_, fun _ => ⟨_, _, _, hpc⟩, fun hclosed => absurd hclosed hopen, h.running,
      h.finished, h.answered⟩
    rw [hpc, hcallback] at htext
    rw [hpc]
    have htext' : deltaText s.streamed = s.acc ++ "" := htext
    simp only [Pc.Streamed, Callback.forwarded, Streaming.streamed] at htext' ⊢
    rw [← List.append_assoc, List.map_append, ← List.append_assoc, deltaText_append, htext']
    simp [textChunk]
  | @append chunk hcallback =>
    obtain ⟨conv, msg, last, hpc⟩ := h.busy (by simp [hcallback])
    refine ⟨?_, fun hbusy => absurd rfl hbusy, h.closed, h.running, h.finished, h.answered⟩
    rw [hpc, hcallback] at htext
    rw [hpc]
    have htext' : deltaText s.streamed = s.acc ++ chunk := htext
    simpa [Pc.Streamed, Callback.forwarded, Streaming.streamed] using htext'
  | @sent conv msg rest last hpc hidle =>
    have hopen := h.drain_ne_closed (by rw [hpc]; rfl)
    refine ⟨?_, fun hbusy => absurd hidle hbusy, fun hclosed => absurd hclosed hopen, h.running,
      h.finished, h.answered⟩
    rw [hpc, hidle] at htext
    cases rest with
    | nil =>
      have htext' : deltaText s.streamed = s.acc ++ "" := htext
      rw [String.append_empty] at htext'
      exact htext'
    | cons next rest =>
      cases rest with
      | nil =>
        have htext' : deltaText s.streamed = "" := htext
        rw [hidle]
        exact htext'
      | cons next' rest => exact htext
  | @recv chunk rest hdrain hchannel =>
    refine ⟨?_, h.busy, fun hclosed => ?_, h.running, fun hres => ?_, h.answered⟩
    · simpa [Streaming.streamed, hdrain, hchannel, Drain.inHand] using htext
    · cases hclosed
    · rw [h.finished hres] at hdrain
      cases hdrain
  | @push chunk hdrain =>
    have hresult : s.result = none := by
      by_contra hres
      rw [h.finished hres] at hdrain
      cases hdrain
    refine ⟨?_, h.busy, fun hclosed => ?_, fun _ => ?_, fun hres => absurd hresult hres,
      fun resp hresp => ?_⟩
    · simpa [Streaming.streamed, hdrain, Drain.inHand] using htext
    · cases hclosed
    · exact List.forall_mem_append.mpr ⟨h.running hresult, List.forall_mem_singleton.mpr rfl⟩
    · rw [hresult] at hresp
      cases hresp
  | close hdrain hchannel htx =>
    refine ⟨?_, h.busy, fun _ => ⟨hchannel, htx⟩, h.running, fun _ => rfl, h.answered⟩
    simpa [Streaming.streamed, hdrain, Drain.inHand] using htext
  | fail hpc hdrain hresult =>
    refine ⟨htext, h.busy, h.closed, fun hnone => ?_, fun _ => hdrain, fun resp hresp => ?_⟩
    · cases hnone
    · cases hresp
  | @stop reply conv hpc hdrain hresult =>
    have hstreamed : s.streamed = s.sink := by
      simp [Streaming.streamed, hdrain, (h.closed hdrain).1, Drain.inHand]
    have hreply : deltaText s.sink = reply := by
      rw [hpc, hstreamed] at htext
      exact htext
    refine ⟨?_, h.busy, h.closed, fun hnone => ?_, fun _ => hdrain, fun resp hresp => ?_⟩
    · rw [hpc]
      simpa [Pc.Streamed, Streaming.streamed, hdrain, (h.closed hdrain).1, Drain.inHand, textChunk]
        using hreply
    · cases hnone
    · cases hresp
      refine ⟨⟨s.sink, _, rfl, h.running hresult, rfl⟩, ?_⟩
      simpa [textChunk, buildResponse] using hreply

end Flow

lemma flow_of_reachable (h : (streaming cfg i req).Reachable s) : Flow s := by
  apply h.invariant
  · rintro _ rfl
    exact .init
  · exact fun _ _ hst hs => hs.step hst

end ModelApi.LiteRt
