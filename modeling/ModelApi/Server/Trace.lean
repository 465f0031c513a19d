import ModelApi.Server.Handler

/-!
# The frames on a connection

Which frames a handler writes is determined by the messages it has read and by what the slot has
done: at any time they are a prefix of `State.word`, and all of it once the handler has ended
without a failed write.
-/

namespace ModelApi.Server

open Lib

/-! ### The expected frames -/

/-- The request of an inference message. -/
def inferenceOf : ClientMessage → Option InferenceRequest
  | .inference req                  => some req
  | .hello _ | .cancel | .shutdown  => none

/-- The messages that end a session, once the handshake is done. -/
def isStop : ClientMessage → Bool
  | .hello _ | .shutdown      => true
  | .inference _ | .cancel    => false

/-- The frames of one call of the slot: its events that found room, then its result. -/
def SlotCall.frames (c : SlotCall) : List ServerMessage :=
  c.accepted.map SlotEvent.frame ++ c.result.toList.map replyOf

/-- The frames of all calls, of which the latest comes first. -/
def callFrames (calls : List SlotCall) : List ServerMessage := calls.reverse.flatMap SlotCall.frames

def helloFrame (cfg : Config) : ServerMessage :=
  .hello PROTOCOL_VERSION cfg.modelName cfg.gpuMemoryMb

/-- The frames a handler owes for the messages it has read and for what its slot has done. -/
def State.word (cfg : Config) (s : State) : List ServerMessage :=
  match s.received with
  | .hello v :: rest =>
    if v = PROTOCOL_VERSION then
      helloFrame cfg :: (callFrames s.calls ++ if .shutdown ∈ rest then [.goodbye] else [])
    else [.inferenceError (versionMismatch v)]
  | _ => []

/-- The requests a handler has passed to its slot. -/
def State.processed (s : State) : List InferenceRequest :=
  match s.received with
  | .hello v :: rest => if v = PROTOCOL_VERSION then rest.filterMap inferenceOf else []
  | _                => []

/-- What holds of the trace of a connection. -/
structure Trace (cfg : Config) (s : State) : Prop where
  /-- the frames written so far are the first of those owed -/
  written_prefix : s.written <+: s.word cfg
  /-- and all of them, when the handler has ended and no write has failed -/
  written_eq : (∃ r, s.pc = .ended r) → s.writeFailed = false → s.written = s.word cfg
  /-- the slot is called once for each processed inference, in order -/
  invoked : s.calls.reverse.map SlotCall.req = s.processed
  /-- every call but the latest has returned -/
  returned : ∀ c ∈ s.calls.tail, c.result.isSome = true
  /-- and so has the latest, when the handler has ended and no write has failed: each processed
  inference is then answered by one terminal frame -/
  answered : (∃ r, s.pc = .ended r) → s.writeFailed = false → ∀ c ∈ s.calls, c.result.isSome = true
  /-- no events without `stream` or `progress` -/
  silent : ∀ c ∈ s.calls, c.req.stream = false → c.req.progress = false → c.emitted = []
  /-- nothing is read behind a `Shutdown` or a second `Hello` -/
  stops : ∀ m ∈ s.received.tail.dropLast, isStop m = false
  stopped : ∀ m ∈ s.received.tail.getLast?, isStop m = true →
    s.pc = .goodbye ∨ ∃ r, s.pc = .ended r
  /-- the channel is never found closed -/
  not_closed : s.pc ≠ .ended (.error .channelClosed)

@[simp] lemma callFrames_nil : callFrames [] = [] := rfl

@[simp] lemma callFrames_cons (c : SlotCall) (cs : List SlotCall) :
    callFrames (c :: cs) = callFrames cs ++ c.frames := by
  simp [callFrames]

@[simp] lemma frames_fresh (req : InferenceRequest) : SlotCall.frames ⟨req, [], none⟩ = [] := rfl

lemma accepted_emit (c : SlotCall) (ev : SlotEvent) (n : ℕ) :
    SlotCall.accepted { c with emitted := c.emitted ++ [(ev, n)] } =
      if n < EVENT_CAPACITY then c.accepted ++ [ev] else c.accepted := by
  simp only [SlotCall.accepted, List.filter_append, List.map_append]
  split_ifs with h <;> simp [h]

/-! ### The invariant -/

/-- What the frames, the messages and the calls of the slot have to do with each other at any
time. -/
structure Core (cfg : Config) (s : State) : Prop where
  written_prefix : s.written <+: s.word cfg
  invoked : s.calls.reverse.map SlotCall.req = s.processed
  returned : ∀ c ∈ s.calls.tail, c.result.isSome = true
  stops : ∀ m ∈ s.received.tail.dropLast, isStop m = false

/-- After the handshake: the messages `rest` were read behind `Hello`, and `body` was written
behind the `Hello` of the server. -/
structure InSession (cfg : Config) (s : State) (rest : List ClientMessage)
    (body : List ServerMessage) : Prop where
  received : s.received = .hello PROTOCOL_VERSION :: rest
  written : s.written = helloFrame cfg :: body
  invoked : s.calls.reverse.map SlotCall.req = rest.filterMap inferenceOf

/-- All calls have returned. -/
def Returned (calls : List SlotCall) : Prop := ∀ c ∈ calls, c.result.isSome = true

/-- No message ends the session. -/
def Goes (rest : List ClientMessage) : Prop := ∀ m ∈ rest, isStop m = false

/-- The latest call is `c`. The calls before it have returned and are written in full, followed by
the events `out`. -/
def Serving (cfg : Config) (s : State) (c : SlotCall) (out : List SlotEvent) : Prop :=
  ∃ cs, s.calls = c :: cs ∧ Returned cs ∧ ∃ rest, Goes rest ∧
    InSession cfg s rest (callFrames cs ++ out.map SlotEvent.frame)

/-- The event that has left the channel and has not been written. -/
def Drain.inFlight : Drain → List SlotEvent
  | .forward ev | .forwardTail _ ev => [ev]
  | .poll | .check | .tail _        => []

/-- The result the drain loop has picked up. -/
def Drain.result : Drain → Option (Except String InferenceResponse)
  | .tail r | .forwardTail r _     => some r
  | .poll | .check | .forward _    => none

/-- What holds where the handler is. -/
def At (cfg : Config) (s : State) : Pc → Prop
  | .readHello   => s.received = [] ∧ s.calls = [] ∧ s.written = []
  | .refuse v    => s.received = [.hello v] ∧ v ≠ PROTOCOL_VERSION ∧ s.calls = [] ∧ s.written = []
  | .writeHello  => s.received = [.hello PROTOCOL_VERSION] ∧ s.calls = [] ∧ s.written = []
  | .readNext    =>
    Returned s.calls ∧ ∃ rest, Goes rest ∧ InSession cfg s rest (callFrames s.calls)
  | .run         => ∃ c, Serving cfg s c [] ∧ c.accepted = []
  | .stream ch d =>
    ∃ c out, Serving cfg s c out ∧ out ++ d.inFlight ++ ch.queue = c.accepted ∧
      ch.eventTx = true ∧ ∀ r ∈ d.result, c.result = some r
  | .reply msg   => ∃ c r, Serving cfg s c c.accepted ∧ c.result = some r ∧ msg = replyOf r
  | .goodbye     => Returned s.calls ∧ ∃ rest, Goes rest ∧
      InSession cfg s (rest ++ [.shutdown]) (callFrames s.calls)
  | .ended r     => Core cfg s ∧
      (s.writeFailed = false → s.written = s.word cfg ∧ Returned s.calls) ∧
      r ≠ .error .channelClosed

variable {cfg : Config} {s : State}

namespace InSession

variable {rest : List ClientMessage} {body : List ServerMessage}

lemma word_eq (h : InSession cfg s rest body) : s.word cfg =
    helloFrame cfg :: (callFrames s.calls ++ if .shutdown ∈ rest then [.goodbye] else []) := by
  simp only [State.word, h.received, if_true]

lemma core (h : InSession cfg s rest body)
    (hbody : body <+: callFrames s.calls ++ if .shutdown ∈ rest then [.goodbye] else [])
    (hreturned : ∀ c ∈ s.calls.tail, c.result.isSome = true) (hstops : Goes rest.dropLast) :
    Core cfg s where
  written_prefix := by
    rw [h.word_eq, h.written]
    exact List.cons_prefix_cons.mpr ⟨rfl, hbody⟩
  invoked := by
    rw [h.invoked]
    simp only [State.processed, h.received, if_true]
  returned := hreturned
  stops := by
    rw [h.received]
    exact hstops

/-- A further frame. -/
lemma write (h : InSession cfg s rest body) (f : ServerMessage) (pc' : Pc) :
    InSession cfg { s with pc := pc', written := s.written ++ [f] } rest (body ++ [f]) where
  received := h.received
  written := by
    show s.written ++ [f] = _
    rw [h.written, List.cons_append]
  invoked := h.invoked

/-- A further message that starts no call. -/
lemma read (h : InSession cfg s rest body) {m : ClientMessage} (hm : inferenceOf m = none)
    (pc' : Pc) :
    InSession cfg { s with pc := pc', received := s.received ++ [m] } (rest ++ [m]) body where
  received := by
    show s.received ++ [m] = _
    rw [h.received, List.cons_append]
  written := h.written
  invoked := by
    show s.calls.reverse.map SlotCall.req = _
    rw [h.invoked, List.filterMap_append, List.filterMap_cons_none hm, List.filterMap_nil,
      List.append_nil]

/-- An inference message starts a call. -/
lemma call (h : InSession cfg s rest body) (req : InferenceRequest) (pc' : Pc) :
    InSession cfg { s with
      pc := pc'
      received := s.received ++ [.inference req]
      calls := ⟨req, [], none⟩ :: s.calls } (rest ++ [.inference req]) body where
  received := by
    show s.received ++ [.inference req] = _
    rw [h.received, List.cons_append]
  written := h.written
  invoked := by
    show (_ :: s.calls).reverse.map SlotCall.req = _
    rw [List.reverse_cons, List.map_append, h.invoked, List.filterMap_append]
    rfl

end InSession

lemma Goes.append {rest : List ClientMessage} (h : Goes rest) {m : ClientMessage}
    (hm : isStop m = false) : Goes (rest ++ [m]) := by
  intro m' hm'
  rcases List.mem_append.mp hm' with hm' | hm'
  · exact h m' hm'
  · rwa [List.mem_singleton.mp hm']

lemma Goes.dropLast {rest : List ClientMessage} (h : Goes rest) : Goes rest.dropLast :=
  fun m hm => h m (List.mem_of_mem_dropLast hm)

lemma Goes.shutdown_notMem {rest : List ClientMessage} (h : Goes rest) : .shutdown ∉ rest :=
  fun hm => absurd (h _ hm) (by decide)

namespace Serving

variable {c : SlotCall} {out : List SlotEvent}

lemma core (h : Serving cfg s c out) (hout : out <+: c.accepted) : Core cfg s := by
  obtain ⟨cs, hcalls, hreturned, rest, hgoes, hs⟩ := h
  refine hs.core ?_ ?_ hgoes.dropLast
  · rw [hcalls, callFrames_cons, if_neg hgoes.shutdown_notMem, List.append_nil, SlotCall.frames]
    refine (List.prefix_append_right_inj _).mpr ?_
    exact (hout.map _).trans (List.prefix_append _ _)
  · rw [hcalls]
    exact hreturned

/-- The slot has moved on with its call. -/
lemma update (h : Serving cfg s c out) {cs : List SlotCall} (hcalls : s.calls = c :: cs)
    {c' : SlotCall} (hreq : c'.req = c.req) (pc' : Pc) :
    Serving cfg { s with pc := pc', calls := c' :: cs } c' out := by
  obtain ⟨cs', hcalls', hreturned, rest, hgoes, hs⟩ := h
  obtain ⟨-, rfl⟩ := List.cons.inj (hcalls.symm.trans hcalls')
  refine ⟨cs, rfl, hreturned, rest, hgoes, hs.received, hs.written, ?_⟩
  have hinvoked := hs.invoked
  rw [hcalls] at hinvoked
  simpa only [List.reverse_cons, List.map_append, List.map_cons, hreq] using hinvoked

lemma setPc (h : Serving cfg s c out) (pc' : Pc) : Serving cfg { s with pc := pc' } c out := by
  obtain ⟨cs, hcalls, hreturned, rest, hgoes, hs⟩ := h
  exact ⟨cs, hcalls, hreturned, rest, hgoes, hs.received, hs.written, hs.invoked⟩

/-- A further event is written. -/
lemma write (h : Serving cfg s c out) (ev : SlotEvent) (pc' : Pc) :
    Serving cfg { s with pc := pc', written := s.written ++ [ev.frame] } c (out ++ [ev]) := by
  obtain ⟨cs, hcalls, hreturned, rest, hgoes, hs⟩ := h
  refine ⟨cs, hcalls, hreturned, rest, hgoes, ?_⟩
  rw [List.map_append, ← List.append_assoc]
  exact hs.write ev.frame pc'

end Serving

/-- What holds where the handler is implies what holds at any time. -/
lemma At.core (h : At cfg s s.pc) : Core cfg s := by
  cases hpc : s.pc with
  | readHello =>
    simp only [At, hpc] at h
    obtain ⟨hreceived, hcalls, hwritten⟩ := h
    constructor <;> simp [State.word, State.processed, hreceived, hcalls, hwritten]
  | refuse v =>
    simp only [At, hpc] at h
    obtain ⟨hreceived, hv, hcalls, hwritten⟩ := h
    constructor <;> simp [State.word, State.processed, hreceived, hcalls, hwritten, hv]
  | writeHello =>
    simp only [At, hpc] at h
    obtain ⟨hreceived, hcalls, hwritten⟩ := h
    constructor <;> simp [State.word, State.processed, hreceived, hcalls, hwritten]
  | readNext =>
    simp only [At, hpc] at h
    obtain ⟨hreturned, rest, hgoes, hs⟩ := h
    exact hs.core (List.prefix_append _ _) (fun c hc => hreturned c (List.mem_of_mem_tail hc))
      hgoes.dropLast
  | run =>
    simp only [At, hpc] at h
    obtain ⟨c, hserving, -⟩ := h
    exact hserving.core List.nil_prefix
  | stream ch d =>
    simp only [At, hpc] at h
    obtain ⟨c, out, hserving, haccepted, -, -⟩ := h
    rw [List.append_assoc] at haccepted
    exact hserving.core ⟨_, haccepted⟩
  | reply msg =>
    simp only [At, hpc] at h
    obtain ⟨c, r, hserving, -, -⟩ := h
    exact hserving.core List.prefix_rfl
  | goodbye =>
    simp only [At, hpc] at h
    obtain ⟨hreturned, rest, hgoes, hs⟩ := h
    refine hs.core (List.prefix_append _ _) (fun c hc => hreturned c (List.mem_of_mem_tail hc)) ?_
    rw [List.dropLast_concat]
    exact hgoes
  | ended r =>
    simp only [At, hpc] at h
    exact h.1

/-! ### One lemma for each kind of step -/

/-- A handler that gives up keeps what holds at any time. -/
lemma Core.fail (h : Core cfg s) {e : HandlerError} (he : e ≠ .channelClosed) :
    At cfg { s with pc := .ended (.error e), writeFailed := true } (.ended (.error e)) :=
  ⟨⟨h.written_prefix, h.invoked, h.returned, h.stops⟩, nofun, fun hr => he (Except.error.inj hr)⟩

lemma at_first (h : At cfg s .readHello) (r : ReadResult) :
    At cfg { s with pc := afterFirst r, received := s.received ++ r.messages } (afterFirst r) := by
  obtain ⟨hreceived, hcalls, hwritten⟩ := h
  have hended : ∀ {received : List ClientMessage} {e : HandlerError}, (∀ v, received ≠ [.hello v]) →
      received.length ≤ 1 → e ≠ .channelClosed →
      At cfg { s with pc := .ended (.error e), received := received } (.ended (.error e)) := by
    intro received e hhello hlen he
    have hword : State.word cfg { s with pc := .ended (.error e), received := received } = [] ∧
        State.processed { s with pc := .ended (.error e), received := received } = [] ∧
        received.tail.dropLast = [] := by
      rcases received with _ | ⟨m, _ | ⟨m', rest⟩⟩
      · exact ⟨rfl, rfl, rfl⟩
      · cases m with
        | hello v => exact absurd rfl (hhello v)
        | _ => exact ⟨rfl, rfl, rfl⟩
      · simp at hlen
    obtain ⟨hword, hprocessed, hstops⟩ := hword
    refine ⟨⟨?_, ?_, ?_, ?_⟩, fun _ => ⟨?_, ?_⟩, fun hr => he (Except.error.inj hr)⟩
    · rw [hword]
      exact hwritten ▸ List.prefix_rfl
    · rw [hprocessed, hcalls]
      rfl
    · simp [hcalls]
    · simp [hstops]
    · rw [hword]
      exact hwritten
    · simp [Returned, hcalls]
  cases r with
  | eof =>
    simp only [afterFirst, ReadResult.messages, hreceived, List.nil_append]
    exact hended (by simp) (by simp) (by simp)
  | error e =>
    simp only [afterFirst, ReadResult.messages, hreceived, List.nil_append]
    exact hended (by simp) (by simp) (by simp)
  | message m =>
    simp only [ReadResult.messages, hreceived, List.nil_append]
    cases m with
    | hello v =>
      simp only [afterFirst]
      split_ifs with hv
      · exact ⟨by rw [hv], hcalls, hwritten⟩
      · exact ⟨rfl, hv, hcalls, hwritten⟩
    | _ => exact hended (by simp) (by simp) (by simp)

lemma at_next (h : At cfg s .readNext) (r : ReadResult) :
    At cfg { s with
      pc := afterNext r
      received := s.received ++ r.messages
      calls := (startCall r).toList ++ s.calls } (afterNext r) := by
  obtain ⟨hreturned, rest, hgoes, hs⟩ := h
  have htail : ∀ c ∈ s.calls.tail, c.result.isSome = true := fun c hc =>
    hreturned c (List.mem_of_mem_tail hc)
  have hquit : ∀ {r : Except HandlerError Unit}, r ≠ .error .channelClosed →
      At cfg { s with pc := .ended r } (.ended r) := by
    intro r hr
    have hcore := hs.core (List.prefix_append _ _) htail hgoes.dropLast
    refine ⟨⟨hcore.written_prefix, hcore.invoked, hcore.returned, hcore.stops⟩,
      fun _ => ⟨?_, hreturned⟩, hr⟩
    refine hs.written.trans (Eq.trans ?_ hs.word_eq.symm)
    rw [if_neg hgoes.shutdown_notMem, List.append_nil]
  cases r with
  | eof =>
    simp only [afterNext, ReadResult.messages, startCall, List.append_nil]
    exact hquit (by simp)
  | error e =>
    simp only [afterNext, ReadResult.messages, startCall, List.append_nil]
    exact hquit (by simp)
  | message m =>
    cases m with
    | hello v =>
      -- a second `Hello` ends the session and adds nothing to the frames
      have hs' := hs.read (m := .hello v) rfl (.ended (.error .duplicateHello))
      have hshutdown : .shutdown ∉ rest ++ [.hello v] := by
        simp [hgoes.shutdown_notMem]
      refine ⟨hs'.core (List.prefix_append _ _) htail ?_, fun _ => ⟨?_, hreturned⟩, nofun⟩
      · rw [List.dropLast_concat]
        exact hgoes
      · refine hs'.written.trans (Eq.trans ?_ hs'.word_eq.symm)
        rw [if_neg hshutdown, List.append_nil]
    | cancel => exact ⟨hreturned, rest ++ [.cancel], hgoes.append rfl, hs.read rfl _⟩
    | shutdown => exact ⟨hreturned, rest, hgoes, hs.read rfl _⟩
    | inference req =>
      have hserving : ∀ pc', Serving cfg { s with
          pc := pc'
          received := s.received ++ [.inference req]
          calls := ⟨req, [], none⟩ :: s.calls } ⟨req, [], none⟩ [] := fun pc' =>
        ⟨s.calls, rfl, hreturned, rest ++ [.inference req], hgoes.append rfl, by
          simpa using hs.call req pc'⟩
      simp only [afterNext, ReadResult.messages, startCall]
      split_ifs with hstream
      · exact ⟨_, [], hserving _, rfl, rfl, nofun⟩
      · exact ⟨_, hserving _, rfl⟩

lemma at_write {pc' : Pc} {f : ServerMessage} {context : String} (h : At cfg s s.pc)
    (hw : Writes cfg s.pc f pc' context) :
    At cfg { s with pc := pc', written := s.written ++ [f] } pc' := by
  generalize hpc : s.pc = pc at h hw
  cases hw with
  | hello =>
    obtain ⟨hreceived, hcalls, hwritten⟩ := h
    refine ⟨?_, [], ?_, ?_⟩
    · intro c hc
      rw [show s.calls = [] from hcalls] at hc
      cases hc
    · intro m hm
      cases hm
    · constructor
      · exact hreceived
      · simp [hwritten, hcalls, helloFrame]
      · simp [hcalls]
  | event ch ev =>
    obtain ⟨c, out, hserving, haccepted, htx, hresult⟩ := h
    exact ⟨c, out ++ [ev], hserving.write ev _, by simpa [Drain.inFlight] using haccepted, htx,
      nofun⟩
  | tailEvent ch r ev =>
    obtain ⟨c, out, hserving, haccepted, htx, hresult⟩ := h
    exact ⟨c, out ++ [ev], hserving.write ev _, by simpa [Drain.inFlight] using haccepted, htx,
      hresult⟩
  | reply msg =>
    obtain ⟨c, r, ⟨cs, hcalls, hreturned, rest, hgoes, hs⟩, hr, rfl⟩ := h
    refine ⟨?_, rest, hgoes, ?_⟩
    · intro c' hc'
      rw [show s.calls = c :: cs from hcalls] at hc'
      rcases List.mem_cons.mp hc' with rfl | hc'
      · rw [hr]
        rfl
      · exact hreturned c' hc'
    · have hframes : callFrames s.calls =
          callFrames cs ++ c.accepted.map SlotEvent.frame ++ [replyOf r] := by
        rw [hcalls, callFrames_cons, SlotCall.frames, hr, ← List.append_assoc]
        rfl
      show InSession cfg _ rest (callFrames s.calls)
      rw [hframes]
      exact hs.write _ _
  | goodbye =>
    obtain ⟨hreturned, rest, hgoes, hs⟩ := h
    have hs' := hs.write .goodbye (.ended (.ok ()))
    have hmem : .shutdown ∈ rest ++ [.shutdown] := by simp
    refine ⟨hs'.core ?_ (fun c hc => hreturned c (List.mem_of_mem_tail hc)) ?_,
      fun _ => ⟨?_, hreturned⟩, nofun⟩
    · rw [if_pos hmem]
    · rw [List.dropLast_concat]
      exact hgoes
    · refine hs'.written.trans (Eq.trans ?_ hs'.word_eq.symm)
      rw [if_pos hmem]

/-- A turn of the drain loop finds the channel open, moves an event out of it, or moves on. -/
lemma at_drain {ch : Channel} {d : Drain} {c : SlotCall} {cs : List SlotCall} {pc' : Pc}
    (h : At cfg s (.stream ch d)) (hcalls : s.calls = c :: cs) (hd : Drains c.result ch d pc') :
    At cfg { s with pc := pc' } pc' := by
  obtain ⟨c', out, hserving, haccepted, htx, hresult⟩ := h
  obtain rfl : c' = c := by
    obtain ⟨cs', hcalls', -⟩ := hserving
    exact (List.cons.inj (hcalls'.symm.trans hcalls)).1
  have taken : ∀ {ev : SlotEvent} {ch' : Channel}, ch.tryRecv = .ok ev ch' →
      ch.queue = ev :: ch'.queue ∧ ch'.eventTx = true := by
    intro ev ch' hrecv
    rw [Channel.tryRecv] at hrecv
    split at hrecv
    · next hqueue =>
      cases hrecv
      exact ⟨hqueue, htx⟩
    · split_ifs at hrecv
  cases hd with
  | event hrecv =>
    obtain ⟨hqueue, htx'⟩ := taken hrecv
    refine ⟨c', out, hserving.setPc _, ?_, htx', nofun⟩
    simpa [Drain.inFlight, hqueue] using haccepted
  | empty hrecv => exact ⟨c', out, hserving.setPc _, haccepted, htx, nofun⟩
  | closed hrecv =>
    -- the sender of the handler keeps the channel open
    exfalso
    rw [Channel.tryRecv] at hrecv
    split at hrecv
    · cases hrecv
    · rw [if_pos (.inr htx)] at hrecv
      cases hrecv
  | finished hr =>
    refine ⟨c', out, hserving.setPc _, haccepted, htx, ?_⟩
    rintro _ ⟨⟩
    exact hr
  | yield _ => exact ⟨c', out, hserving.setPc _, haccepted, htx, nofun⟩
  | tailEvent hrecv =>
    obtain ⟨hqueue, htx'⟩ := taken hrecv
    refine ⟨c', out, hserving.setPc _, ?_, htx', hresult⟩
    simpa [Drain.inFlight, hqueue] using haccepted
  | @drained r hempty =>
    have hqueue : ch.queue = [] := by
      cases hq : ch.queue with
      | nil => rfl
      | cons ev queue =>
        exact absurd (by simp only [Channel.tryRecv, hq]) (hempty ev { ch with queue := queue })
    rw [hqueue] at haccepted
    obtain rfl : out = c'.accepted := by simpa [Drain.inFlight] using haccepted
    exact ⟨c', r, hserving.setPc _, hresult r rfl, rfl⟩

lemma at_emit {ch : Channel} {d : Drain} {c : SlotCall} {cs : List SlotCall}
    (h : At cfg s (.stream ch d)) (hcalls : s.calls = c :: cs) (hrun : c.result = none)
    (ev : SlotEvent) :
    At cfg { s with
      pc := .stream (ch.trySend ev) d
      calls := { c with emitted := c.emitted ++ [(ev, ch.queue.length)] } :: cs }
      (.stream (ch.trySend ev) d) := by
  obtain ⟨c', out, hserving, haccepted, htx, hresult⟩ := h
  obtain rfl : c' = c := by
    obtain ⟨cs', hcalls', -⟩ := hserving
    exact (List.cons.inj (hcalls'.symm.trans hcalls)).1
  refine ⟨{ c' with emitted := c'.emitted ++ [(ev, ch.queue.length)] }, out,
    hserving.update hcalls (by rfl) _, ?_, ?_, hresult⟩
  · rw [accepted_emit, Channel.trySend, ← haccepted]
    split_ifs <;> simp
  · rw [Channel.trySend]
    split_ifs <;> exact htx

lemma at_finish {ch : Channel} {d : Drain} {c : SlotCall} {cs : List SlotCall}
    (h : At cfg s (.stream ch d)) (hcalls : s.calls = c :: cs) (hrun : c.result = none)
    (r : Except String InferenceResponse) :
    At cfg { s with
      pc := .stream { ch with sink := false } d, calls := { c with result := some r } :: cs }
      (.stream { ch with sink := false } d) := by
  obtain ⟨c', out, hserving, haccepted, htx, hresult⟩ := h
  obtain rfl : c' = c := by
    obtain ⟨cs', hcalls', -⟩ := hserving
    exact (List.cons.inj (hcalls'.symm.trans hcalls)).1
  refine ⟨{ c' with result := some r }, out, hserving.update hcalls (by rfl) _, haccepted, htx,
    fun r' hr' => ?_⟩
  rw [hresult r' hr'] at hrun
  cases hrun

lemma at_runReturns {c : SlotCall} {cs : List SlotCall} (h : At cfg s .run)
    (hcalls : s.calls = c :: cs) (r : Except String InferenceResponse) :
    At cfg { s with pc := .reply (replyOf r), calls := { c with result := some r } :: cs }
      (.reply (replyOf r)) := by
  obtain ⟨c', hserving, haccepted⟩ := h
  obtain rfl : c' = c := by
    obtain ⟨cs', hcalls', -⟩ := hserving
    exact (List.cons.inj (hcalls'.symm.trans hcalls)).1
  refine ⟨{ c' with result := some r }, r, ?_, rfl, rfl⟩
  have hout : ({ c' with result := some r } : SlotCall).accepted = [] := haccepted
  rw [hout]
  exact hserving.update hcalls (by rfl) _

/-- Every step leads to where the handler then is. -/
lemma at_step {t : State} (h : At cfg s s.pc) (hst : Step cfg s t) : At cfg t t.pc := by
  have hcore := h.core
  cases hst with
  | first r hpc => exact at_first (hpc ▸ h) r
  | next r hpc => exact at_next (hpc ▸ h) r
  | @refuse v hpc =>
    rw [hpc] at h
    obtain ⟨hreceived, hv, hcalls, hwritten⟩ := h
    refine ⟨⟨?_, hcore.invoked, hcore.returned, hcore.stops⟩, fun _ => ⟨?_, ?_⟩, nofun⟩
    · simp [State.word, hreceived, hv, hwritten]
    · simp [State.word, hreceived, hv, hwritten]
    · simp [Returned, hcalls]
  | refuseFails hpc => exact hcore.fail nofun
  | write hw _ => exact at_write h hw
  | writeFails hw e => exact hcore.fail nofun
  | drain hpc hcalls hd => exact at_drain (hpc ▸ h) hcalls hd
  | emit hpc hcalls hrun ev => exact at_emit (hpc ▸ h) hcalls hrun ev
  | finish hpc hcalls hrun r => exact at_finish (hpc ▸ h) hcalls hrun r
  | runReturns hpc hcalls r => exact at_runReturns (hpc ▸ h) hcalls r

/-- Only calls that were asked for events are run with a sink. -/
structure Gated (s : State) : Prop where
  silent : ∀ c ∈ s.calls, c.req.stream = false → c.req.progress = false → c.emitted = []
  stream : ∀ ch d, s.pc = .stream ch d → ∀ c ∈ s.calls.head?,
    c.req.stream = true ∨ c.req.progress = true

/-- A step that starts no call and leaves the streaming branch, if it was there, at most for
good. -/
lemma Gated.of_calls_eq {t : State} (h : Gated s) (hcalls : t.calls = s.calls)
    (hpc : ∀ ch d, t.pc = .stream ch d → ∃ ch d, s.pc = .stream ch d) : Gated t where
  silent := hcalls ▸ h.silent
  stream ch d ht := by
    obtain ⟨ch', d', hs⟩ := hpc ch d ht
    rw [hcalls]
    exact h.stream ch' d' hs

/-- The slot moves on with its call, and emits only in the streaming branch. -/
lemma Gated.of_update {t : State} (h : Gated s) {c c' : SlotCall} {cs : List SlotCall}
    (hcalls : s.calls = c :: cs) (hcalls' : t.calls = c' :: cs) (hreq : c'.req = c.req)
    (hemitted : c'.emitted = c.emitted ∨ ∃ ch d, s.pc = .stream ch d)
    (hpc : ∀ ch d, t.pc = .stream ch d → ∃ ch d, s.pc = .stream ch d) : Gated t := by
  have hwants : ∀ ch d, s.pc = .stream ch d → c.req.stream = true ∨ c.req.progress = true := by
    intro ch d hs
    exact h.stream ch d hs c (by rw [hcalls]; rfl)
  constructor
  · intro d hd hstream hprogress
    rw [hcalls'] at hd
    rcases List.mem_cons.mp hd with rfl | hd
    · rw [hreq] at hstream hprogress
      rcases hemitted with hsame | ⟨ch, d', hs⟩
      · rw [hsame]
        exact h.silent c (by rw [hcalls]; exact List.mem_cons_self) hstream hprogress
      · rcases hwants ch d' hs with hw | hw
        · rw [hstream] at hw
          cases hw
        · rw [hprogress] at hw
          cases hw
    · exact h.silent d (by rw [hcalls]; exact List.mem_cons_of_mem _ hd) hstream hprogress
  · intro ch d ht c₁ hc₁
    obtain ⟨ch', d', hs⟩ := hpc ch d ht
    rw [hcalls'] at hc₁
    cases hc₁
    rw [hreq]
    exact hwants ch' d' hs

lemma afterFirst_ne_stream (r : ReadResult) (ch : Channel) (d : Drain) :
    afterFirst r ≠ .stream ch d := by
  cases r with
  | message m =>
    cases m with
    | hello v =>
      rw [afterFirst]
      split_ifs <;> nofun
    | _ => nofun
  | _ => nofun

lemma Gated.next (h : Gated s) (r : ReadResult) :
    Gated { s with
      pc := afterNext r
      received := s.received ++ r.messages
      calls := (startCall r).toList ++ s.calls } := by
  cases r with
  | eof => exact h.of_calls_eq rfl fun _ _ hpc => by cases hpc
  | error e => exact h.of_calls_eq rfl fun _ _ hpc => by cases hpc
  | message m =>
    cases m with
    | hello v => exact h.of_calls_eq rfl fun _ _ hpc => by cases hpc
    | cancel => exact h.of_calls_eq rfl fun _ _ hpc => by cases hpc
    | shutdown => exact h.of_calls_eq rfl fun _ _ hpc => by cases hpc
    | inference req =>
      constructor
      · intro c hc hstream hprogress
        rcases List.mem_cons.mp hc with rfl | hc
        · rfl
        · exact h.silent c hc hstream hprogress
      · intro ch d hpc c hc
        cases hc
        simp only [afterNext] at hpc
        split_ifs at hpc with hwants
        simpa using hwants

lemma Gated.step {t : State} (h : Gated s) (hst : Step cfg s t) : Gated t := by
  cases hst with
  | first r hpc => exact h.of_calls_eq rfl fun ch d ht => absurd ht (afterFirst_ne_stream r ch d)
  | next r hpc => exact h.next r
  | refuse => exact h.of_calls_eq rfl fun _ _ hpc => by cases hpc
  | refuseFails => exact h.of_calls_eq rfl fun _ _ hpc => by cases hpc
  | write hw _ =>
    refine h.of_calls_eq rfl fun ch d ht => ?_
    generalize hpc : s.pc = pc at hw
    cases hw with
    | event ch ev => exact ⟨_, _, rfl⟩
    | tailEvent ch r ev => exact ⟨_, _, rfl⟩
    | _ => cases ht
  | writeFails => exact h.of_calls_eq rfl fun _ _ hpc => by cases hpc
  | drain hpc => exact h.of_calls_eq rfl fun _ _ _ => ⟨_, _, hpc⟩
  | emit hpc hcalls =>
    exact h.of_update hcalls rfl rfl (.inr ⟨_, _, hpc⟩) fun _ _ _ => ⟨_, _, hpc⟩
  | finish hpc hcalls => exact h.of_update hcalls rfl rfl (.inl rfl) fun _ _ _ => ⟨_, _, hpc⟩
  | runReturns hpc hcalls => exact h.of_update hcalls rfl rfl (.inl rfl) fun _ _ hpc => by cases hpc

/-- A handler that has read a message which ends the session is at its end. -/
lemma At.stopped (h : At cfg s s.pc) : ∀ m ∈ s.received.tail.getLast?, isStop m = true →
    s.pc = .goodbye ∨ ∃ r, s.pc = .ended r := by
  intro m hm hstop
  have hgoes : ∀ {rest : List ClientMessage}, Goes rest → s.received.tail = rest → False := by
    intro rest hrest heq
    rw [heq] at hm
    rw [hrest m (List.mem_of_getLast? hm)] at hstop
    cases hstop
  have hserving : ∀ {c out}, Serving cfg s c out → False := by
    rintro c out ⟨cs, -, -, rest, hrest, hs⟩
    exact hgoes hrest (by rw [hs.received]; rfl)
  cases hpc : s.pc with
  | goodbye => exact .inl rfl
  | ended r => exact .inr ⟨r, rfl⟩
  | readHello =>
    simp only [At, hpc] at h
    simp [h.1] at hm
  | refuse v =>
    simp only [At, hpc] at h
    simp [h.1] at hm
  | writeHello =>
    simp only [At, hpc] at h
    simp [h.1] at hm
  | readNext =>
    simp only [At, hpc] at h
    obtain ⟨-, rest, hrest, hs⟩ := h
    exact (hgoes hrest (by rw [hs.received]; rfl)).elim
  | run =>
    simp only [At, hpc] at h
    obtain ⟨c, hc, -⟩ := h
    exact (hserving hc).elim
  | stream ch d =>
    simp only [At, hpc] at h
    obtain ⟨c, out, hc, -⟩ := h
    exact (hserving hc).elim
  | reply msg =>
    simp only [At, hpc] at h
    obtain ⟨c, r, hc, -⟩ := h
    exact (hserving hc).elim

lemma At.not_closed (h : At cfg s s.pc) : s.pc ≠ .ended (.error .channelClosed) := by
  intro hpc
  rw [hpc] at h
  exact h.2.2 rfl

lemma at_init : At cfg State.init State.init.pc := ⟨rfl, rfl, rfl⟩

lemma Gated.init : Gated State.init := by
  constructor
  · intro c hc
    cases hc
  · intro ch d hpc
    cases hpc

/-- What holds of a handler at any time. -/
structure Inv (cfg : Config) (s : State) : Prop where
  at_pc : At cfg s s.pc
  gated : Gated s

lemma inv_of_reachable (h : (handleClient cfg).Reachable s) : Inv cfg s := by
  apply h.invariant
  · rintro _ rfl
    exact ⟨at_init, .init⟩
  · rintro s t hst ⟨hat, hgated⟩
    exact ⟨at_step hat hst, hgated.step hst⟩

lemma Inv.trace (h : Inv cfg s) : Trace cfg s := by
  obtain ⟨hat, hgated⟩ := h
  obtain ⟨hpre, hinvoked, hreturned, hstops⟩ := hat.core
  have hended : (∃ r, s.pc = .ended r) → s.writeFailed = false →
      s.written = s.word cfg ∧ Returned s.calls := by
    rintro ⟨r, hpc⟩ hwrites
    rw [hpc] at hat
    exact hat.2.1 hwrites
  exact
    { written_prefix := hpre
      written_eq := fun hpc hwrites => (hended hpc hwrites).1
      invoked := hinvoked
      returned := hreturned
      answered := fun hpc hwrites => (hended hpc hwrites).2
      silent := hgated.silent
      stops := hstops
      stopped := hat.stopped
      not_closed := hat.not_closed }

/-- The trace of a connection, at any time of any run. -/
theorem trace_of_reachable (h : (handleClient cfg).Reachable s) : Trace cfg s :=
  (inv_of_reachable h).trace

def demoConfig : Config := ⟨1, "demo", none, fun _ => "message"⟩

/-- A client that says hello, asks for one inference and leaves. -/
theorem trace_of_reachable_demo : ∃ s, (handleClient demoConfig).Reachable s ∧
    s.written.length = 3 ∧ s.pc = .ended (.ok ()) ∧ Trace demoConfig s := by
  have h0 : (handleClient demoConfig).Reachable State.init := .of_init rfl
  have h1 := h0.step (.first (.message (.hello PROTOCOL_VERSION)) rfl)
  have h2 := h1.step (.write .hello rfl)
  have h3 := h2.step (.next (.message (.inference (.plain .stateless []))) rfl)
  have h4 := h3.step (.runReturns rfl rfl (.error "no model"))
  have h5 := h4.step (.write (.reply _) rfl)
  have h6 := h5.step (.next (.message .shutdown) rfl)
  have h7 := h6.step (.write .goodbye rfl)
  exact ⟨_, h7, rfl, rfl, trace_of_reachable h7⟩

end ModelApi.Server
