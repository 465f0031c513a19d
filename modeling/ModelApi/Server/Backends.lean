import ModelApi.LiteRt.Stream
import ModelApi.Llama.Slot
import ModelApi.Server.Slots
import ModelApi.Server.Streaming

/-!
# The backends of a server

What each of the four slots can push into its sink for a request it answers. The chunks put together
are the text of the response. All backends but llama.cpp mark the last chunk; on the wire the mark
may be missing, since the event channel may have been full.
-/

namespace ModelApi.Server

/-- The slots a server can be started with. -/
inductive Backend (Token N : Type) where
  | liteRt (cfg : LiteRt.Config)
  | llama (slot : Llama.LlamaSlot Token N)
  | subprocess (slot : SubprocessSlot)
  | stub

variable {Token N : Type}

namespace Backend

/-- The backend can push these events for the request, and then return this result. -/
def Emits (req : InferenceRequest) (evs : List SlotEvent) (r : Except String InferenceResponse) :
    Backend Token N → Prop
  | .liteRt cfg      => ∃ i s, (LiteRt.streaming cfg i req).Reachable s ∧
      evs = s.sink.map .chunk ∧ s.result = some r
  | .llama slot      => ∃ session, (slot.runInner req true session).1 = ⟨evs, .ok r⟩
  | .subprocess slot => slot.runStream req = (evs, r)
  | .stub            => ∃ resp, StubSlot.runStream req = (evs, resp) ∧ r = .ok resp

/-- The backend marks the end of its chunks. -/
def Marks : Backend Token N → Prop
  | .llama _                            => False
  | .liteRt _ | .subprocess _ | .stub   => True

end Backend

lemma respond_text {slot : Llama.LlamaSlot Token N} {req : InferenceRequest} {text : String}
    {resp : InferenceResponse} (h : slot.respond req text = .ok (.ok resp)) : resp.text = text := by
  simp only [Llama.LlamaSlot.respond, bind, Except.bind, pure, Except.pure] at h
  split at h
  · split at h
    · cases h
    · cases h
      rfl
  · cases h
    rfl

/-- The llama.cpp slot pushes its reply as one chunk. -/
lemma chunksOf_runInner {slot : Llama.LlamaSlot Token N} {req : InferenceRequest}
    {session : Llama.Session Token} {evs : List SlotEvent} {resp : InferenceResponse}
    (h : (slot.runInner req true session).1 = ⟨evs, .ok (.ok resp)⟩) :
    chunksOf evs = [⟨resp.text, none, none⟩] := by
  simp only [Llama.LlamaSlot.runInner] at h
  split at h
  · cases h
  · split at h
    · cases h
    · next text _ _ =>
      obtain ⟨rfl, hresp⟩ := Llama.LlamaSlot.Outcome.mk.inj h
      rw [respond_text hresp]
      rfl

/-- Whatever backend answers a request, and however the reply comes in pieces: the chunks it pushes
into the sink, put together, are the text of the response. -/
theorem deltaText_of_emits {b : Backend Token N} {req : InferenceRequest} {evs : List SlotEvent}
    {resp : InferenceResponse} (h : b.Emits req evs (.ok resp)) :
    deltaText (chunksOf evs) = resp.text := by
  cases b with
  | liteRt cfg =>
    obtain ⟨i, s, hs, rfl, hresult⟩ := h
    rw [chunksOf_map]
    exact ((LiteRt.flow_of_reachable hs).answered resp hresult).2
  | llama slot =>
    obtain ⟨session, hrun⟩ := h
    rw [chunksOf_runInner hrun]
    simp
  | subprocess slot =>
    obtain ⟨reads, hchunks, rfl⟩ := SubprocessSlot.runStream_ok h
    obtain ⟨hdelta, htext⟩ := SubprocessSlot.deltaText_stream reads
    rw [hchunks, hdelta, htext]
  | stub =>
    obtain ⟨resp', hrun, hresp⟩ := h
    cases hresp
    have hdelta := StubSlot.deltaText_runStream req
    rwa [hrun] at hdelta

/-- A request for text, and a child whose output is read in these pieces. -/
def promptRequest : InferenceRequest :=
  { InferenceRequest.plain .stateless [] with input := .text "hi", stream := true }

def demoSubprocess (reads : List StdoutRead) : SubprocessSlot where
  llamaBin := "llama-completion"
  model := "model.gguf"
  libDir := "lib"
  nGpuLayers := 0
  modelName := "model"
  spawn _ := .ok (some reads)

/-- A character whose two bytes are read apart. -/
def splitReads : List StdoutRead := [.ok [0x61, 0xC3], .ok [0xA9]]

theorem deltaText_of_emits_demo : ∃ evs resp,
    (Backend.subprocess (demoSubprocess splitReads) : Backend Unit Unit).Emits
      promptRequest evs (.ok resp) ∧
    resp.text = "a\uFFFD\uFFFD" ∧ deltaText (chunksOf evs) = resp.text := by
  have hemits : (Backend.subprocess (demoSubprocess splitReads) : Backend Unit Unit).Emits
      promptRequest ((demoSubprocess splitReads).runStream promptRequest).1
      (.ok (SubprocessSlot.stream splitReads).2) := rfl
  exact ⟨_, _, hemits, by decide +kernel, deltaText_of_emits hemits⟩

/-- A backend that marks the end of its chunks marks the last one, and no other. -/
lemma stopped_of_emits {b : Backend Token N} (hb : b.Marks) {req : InferenceRequest}
    {evs : List SlotEvent} {resp : InferenceResponse} (h : b.Emits req evs (.ok resp)) :
    Stopped (chunksOf evs) := by
  cases b with
  | liteRt cfg =>
    obtain ⟨i, s, hs, rfl, hresult⟩ := h
    rw [chunksOf_map]
    exact ((LiteRt.flow_of_reachable hs).answered resp hresult).1
  | llama slot => exact hb.elim
  | subprocess slot =>
    obtain ⟨reads, hchunks, rfl⟩ := SubprocessSlot.runStream_ok h
    rw [hchunks]
    exact SubprocessSlot.stopped_stream reads
  | stub =>
    obtain ⟨resp', hrun, hresp⟩ := h
    have hstopped := StubSlot.stopped_runStream req
    rwa [hrun] at hstopped

/-! ### On the wire -/

/-- The chunks among the frames. -/
def chunkFrames (frames : List ServerMessage) : List StreamChunk :=
  frames.filterMap fun
    | .chunk c => some c
    | _        => none

/-- The chunks a slot has emitted, each with the number of events that were queued at that
moment. -/
def chunkEmissions (emitted : List (SlotEvent × ℕ)) : List (StreamChunk × ℕ) :=
  emitted.filterMap fun
    | (.chunk c, queued)   => some (c, queued)
    | (.progress _, _)     => none

lemma map_chunkEmissions (emitted : List (SlotEvent × ℕ)) :
    (chunkEmissions emitted).map Prod.fst = chunksOf (emitted.map Prod.fst) := by
  induction emitted with
  | nil => rfl
  | cons e emitted ih =>
    obtain ⟨ev, queued⟩ := e
    cases ev with
    | chunk c => exact congrArg (c :: ·) ih
    | progress p => exact ih

/-- The chunks that reach the wire are those that found room. -/
lemma chunkFrames_eq (emitted : List (SlotEvent × ℕ)) :
    chunkFrames ((emitted.filter fun e => e.2 < EVENT_CAPACITY).map fun e => e.1.frame) =
      ((chunkEmissions emitted).filter fun e => e.2 < EVENT_CAPACITY).map Prod.fst := by
  induction emitted with
  | nil => rfl
  | cons e emitted ih =>
    obtain ⟨ev, queued⟩ := e
    cases ev with
    | chunk c =>
      have hemissions : chunkEmissions ((.chunk c, queued) :: emitted) =
          (c, queued) :: chunkEmissions emitted := rfl
      rw [hemissions, List.filter_cons, List.filter_cons]
      split
      · exact congrArg (c :: ·) ih
      · exact ih
    | progress p =>
      have hemissions : chunkEmissions ((.progress p, queued) :: emitted) =
          chunkEmissions emitted := rfl
      rw [hemissions, List.filter_cons]
      split
      · exact ih
      · exact ih

variable {cfg : Config} {s t : State}

/-- No more events are queued than were emitted before. -/
def QueuedBelow (c : SlotCall) : Prop := ∀ e ∈ c.emitted, e.2 < c.emitted.length

lemma length_queue_le {ch : Channel} {d : Drain} {c : SlotCall} {cs : List SlotCall}
    (h : (handleClient cfg).Reachable s) (hpc : s.pc = .stream ch d) (hcalls : s.calls = c :: cs) :
    ch.queue.length ≤ c.emitted.length := by
  have hat := (inv_of_reachable h).at_pc
  rw [hpc] at hat
  obtain ⟨c', out, ⟨cs', hcalls', -⟩, hqueue, -⟩ := hat
  obtain ⟨rfl, -⟩ := List.cons.inj (hcalls.symm.trans hcalls')
  have hlen : ch.queue.length ≤ c.accepted.length := by
    rw [← hqueue, List.length_append]
    exact Nat.le_add_left _ _
  refine hlen.trans ?_
  rw [SlotCall.accepted, List.length_map]
  exact List.length_filter_le _ _

lemma queuedBelow_step (hs : (handleClient cfg).Reachable s) (hst : Step cfg s t)
    (h : ∀ c ∈ s.calls, QueuedBelow c) : ∀ c ∈ t.calls, QueuedBelow c := by
  cases hst with
  | next r hpc =>
    refine List.forall_mem_append.mpr ⟨fun c hc => ?_, h⟩
    cases r with
    | message m =>
      cases m with
      | inference req =>
        obtain rfl : c = ⟨req, [], none⟩ := by simpa [startCall] using hc
        exact List.forall_mem_nil _
      | _ => cases hc
    | _ => cases hc
  | @emit ch d c cs hpc hcalls hrun ev =>
    rw [hcalls] at h
    obtain ⟨hc, hcs⟩ := List.forall_mem_cons.mp h
    refine List.forall_mem_cons.mpr ⟨fun e he => ?_, hcs⟩
    have hqueue := length_queue_le hs hpc hcalls
    rw [List.length_append, List.length_singleton]
    rcases List.mem_append.mp he with hold | hnew
    · exact (hc e hold).trans (Nat.lt_succ_self _)
    · rw [List.mem_singleton.mp hnew]
      exact Nat.lt_succ_of_le hqueue
  | finish hpc hcalls hrun r =>
    rw [hcalls] at h
    obtain ⟨hc, hcs⟩ := List.forall_mem_cons.mp h
    exact List.forall_mem_cons.mpr ⟨hc, hcs⟩
  | runReturns hpc hcalls r =>
    rw [hcalls] at h
    obtain ⟨hc, hcs⟩ := List.forall_mem_cons.mp h
    exact List.forall_mem_cons.mpr ⟨hc, hcs⟩
  | _ => exact h

lemma queuedBelow_of_reachable (h : (handleClient cfg).Reachable s) :
    ∀ c ∈ s.calls, QueuedBelow c := by
  apply h.run_induction
  · rintro _ rfl
    exact List.forall_mem_nil _
  · exact fun _ _ hs hst ih => queuedBelow_step hs hst ih

/-- The events of the stub always find room. -/
lemma room_of_stub (h : (handleClient cfg).Reachable s) {c : SlotCall} (hc : c ∈ s.calls)
    {resp : InferenceResponse}
    (hemits : (Backend.stub : Backend Token N).Emits c.req (c.emitted.map Prod.fst) (.ok resp)) :
    ∀ e ∈ c.emitted, e.2 < EVENT_CAPACITY := by
  intro e he
  obtain ⟨resp', hrun, -⟩ := hemits
  have hlen := StubSlot.length_runStream c.req
  rw [hrun, List.length_map] at hlen
  have hbelow := queuedBelow_of_reachable h c hc e he
  exact hbelow.trans_le (hlen.trans (by decide))

/-- Among the chunk frames of a request that a backend other than llama.cpp has answered, there is
one with a finish reason exactly when the event channel had room as the slot emitted its last
chunk, which it always has for the stub; and then it is the only one, and the last. -/
theorem chunkFrames_stopped (h : (handleClient cfg).Reachable s) {k : ℕ}
    {frames : List ServerMessage} {terminal : ServerMessage}
    (hblock : (requestBlocks [] s.written.tail)[k]? = some (frames, terminal)) {c : SlotCall}
    (hc : s.calls.reverse[k]? = some c) {b : Backend Token N} (hb : b.Marks)
    {resp : InferenceResponse} (hemits : b.Emits c.req (c.emitted.map Prod.fst) (.ok resp)) :
    ∃ front stop queued, chunkEmissions c.emitted = front ++ [(stop, queued)] ∧
      (queued < EVENT_CAPACITY → Stopped (chunkFrames frames)) ∧
      (EVENT_CAPACITY ≤ queued → ∀ m ∈ chunkFrames frames, m.finishReason = none) ∧
      (b = .stub → queued < EVENT_CAPACITY) := by
  obtain ⟨c', r, hc', -, -, rfl⟩ := blocks_of_reachable h hblock
  obtain rfl : c' = c := Option.some.inj (hc'.symm.trans hc)
  obtain ⟨front, stop, hchunks, hfront, hstop⟩ := stopped_of_emits hb hemits
  rw [← map_chunkEmissions] at hchunks
  obtain ⟨front', stopped, hemissions, rfl, hlast⟩ := List.map_eq_append_iff.mp hchunks
  obtain ⟨⟨stop', queued⟩, rfl, rfl⟩ := List.map_eq_singleton_iff.mp hlast
  have hunmarked : ∀ m ∈ (front'.filter fun e => e.2 < EVENT_CAPACITY).map Prod.fst,
      m.finishReason = none := by
    intro m hm
    obtain ⟨e, he, rfl⟩ := List.mem_map.mp hm
    exact hfront _ (List.mem_map_of_mem (List.mem_of_mem_filter he))
  refine ⟨front', stop', queued, hemissions, fun hroom => ?_, fun hfull => ?_, ?_⟩
  · refine ⟨_, stop', ?_, hunmarked, hstop⟩
    rw [chunkFrames_eq, hemissions, List.filter_append, List.map_append]
    simp [hroom]
  · rw [chunkFrames_eq, hemissions, List.filter_append, List.map_append]
    simpa [not_lt.mpr hfull] using hunmarked
  · rintro rfl
    have hmem : (SlotEvent.chunk stop', queued) ∈ c'.emitted := by
      have hin : (stop', queued) ∈ chunkEmissions c'.emitted := by rw [hemissions]; simp
      obtain ⟨⟨ev, q⟩, he, heq⟩ := List.mem_filterMap.mp hin
      cases ev with
      | chunk c =>
        cases heq
        exact he
      | progress p => cases heq
    exact room_of_stub h (List.mem_reverse.mp (List.mem_of_getElem? hc)) hemits _ hmem

/-! ### Concrete runs -/

lemma exists_of_isOk {ε α : Type} {x : Except ε α} (h : x.isOk = true) : ∃ a, x = .ok a := by
  cases x with
  | ok a => exact ⟨a, rfl⟩
  | error e => cases h

lemma encode_of_isOk {evs : List SlotEvent}
    (h : ∀ ev ∈ evs, (Framed.encode ServerMessage.format ev.frame).isOk = true) :
    ∀ ev ∈ evs, ∃ bytes, Framed.encode ServerMessage.format ev.frame = .ok bytes :=
  fun ev hev => exists_of_isOk (h ev hev)

lemma requestBlocks_answer (evs : List SlotEvent) (r : Except String InferenceResponse) :
    requestBlocks [] (evs.map SlotEvent.frame ++ [replyOf r]) =
      [(evs.map SlotEvent.frame, replyOf r)] := by
  rw [requestBlocks_events]
  simp [requestBlocks]

/-- The stub answers, and the handler writes what it has emitted. -/
theorem chunkFrames_stopped_demo : ∃ s, (handleClient demoConfig).Reachable s ∧
    (requestBlocks [] s.written.tail)[0]? =
      some ((StubSlot.runStream demoRequest).1.map SlotEvent.frame,
        replyOf (.ok (StubSlot.runStream demoRequest).2)) ∧
    Stopped (chunkFrames ((StubSlot.runStream demoRequest).1.map SlotEvent.frame)) := by
  have hencode : ∀ ev ∈ (StubSlot.runStream demoRequest).1,
      (Framed.encode ServerMessage.format ev.frame).isOk = true := by
    decide +kernel
  have hreply : ∃ bytes, Framed.encode ServerMessage.format
      (replyOf (.ok (StubSlot.runStream demoRequest).2)) = .ok bytes := ⟨_, rfl⟩
  obtain ⟨bytes, hreply⟩ := hreply
  have hburst := reachable_demoBurst (StubSlot.runStream demoRequest).1 (by decide +kernel)
  have hreach := hburst.steps (steps_answer rfl rfl rfl (encode_of_isOk hencode) hreply)
  have hblock := congrArg (·[0]?) (requestBlocks_answer (StubSlot.runStream demoRequest).1
    (.ok (StubSlot.runStream demoRequest).2))
  have hemits : (Backend.stub : Backend Unit Unit).Emits demoRequest
      ((StubSlot.runStream demoRequest).1.zipIdx.map Prod.fst)
      (.ok (StubSlot.runStream demoRequest).2) :=
    ⟨_, by rw [List.zipIdx_map_fst], rfl⟩
  obtain ⟨_, _, _, _, hstopped, _, hroom⟩ :=
    chunkFrames_stopped hreach hblock rfl (b := .stub) trivial hemits
  exact ⟨_, hreach, hblock, hstopped (hroom rfl)⟩

/-- Output in 62 pieces, each long enough to be pushed at once. -/
def longReads : List StdoutRead := List.replicate 62 (.ok (List.replicate 16 0x61))

/-- The events in front of the stop marker, which fill the event channel. -/
def burstEvents : List SlotEvent :=
  [progress "queued" none, progress "gen_start" (some "ngl=0")] ++
    List.replicate 62 (.chunk (textChunk "aaaaaaaaaaaaaaaa" none))

def stopEvent : SlotEvent := .chunk (textChunk "" (some "stop"))

def doneEvent : SlotEvent := progress "gen_done" (some "992 chars")

lemma runStream_longReads : (demoSubprocess longReads).runStream promptRequest =
    (burstEvents ++ [stopEvent] ++ [doneEvent], .ok (SubprocessSlot.stream longReads).2) := by
  have hevents : ((demoSubprocess longReads).runStream promptRequest).1 =
      burstEvents ++ [stopEvent] ++ [doneEvent] := by
    decide +kernel
  exact Prod.ext hevents rfl

/-- A long reply that is emitted before the handler gets to run again reaches the client without
its stop marker. -/
theorem burst_loses_stop :
    ¬ ∀ s, (handleClient demoConfig).Reachable s → ∀ (k : ℕ) (frames : List ServerMessage)
      (terminal : ServerMessage) (c : SlotCall) (b : Backend Unit Unit) (resp : InferenceResponse),
      (requestBlocks [] s.written.tail)[k]? = some (frames, terminal) →
      s.calls.reverse[k]? = some c → c.req.stream = true → b.Marks →
      b.Emits c.req (c.emitted.map Prod.fst) (.ok resp) → Stopped (chunkFrames frames) := by
  intro hclaim
  have hencode : ∀ ev ∈ burstEvents,
      (Framed.encode ServerMessage.format ev.frame).isOk = true := by
    decide +kernel
  obtain ⟨bytes, hreply⟩ : ∃ bytes, Framed.encode ServerMessage.format
      (replyOf (.ok (SubprocessSlot.stream longReads).2)) = .ok bytes := by
    apply exists_of_isOk
    decide +kernel
  have hburst : (handleClient demoConfig).Steps (streamingState promptRequest) _ :=
    steps_emit (c := ⟨promptRequest, [], none⟩) rfl rfl rfl burstEvents (by decide)
  have hfull := (reachable_streamingState rfl).steps hburst
  have hstop := hfull.step (step_lose rfl rfl rfl (by decide) stopEvent)
  have hdone := hstop.step (step_lose rfl rfl rfl (by decide) doneEvent)
  have hreach := hdone.steps (steps_answer rfl rfl rfl (encode_of_isOk hencode) hreply)
  have hblock := congrArg (·[0]?) (requestBlocks_answer burstEvents
    (.ok (SubprocessSlot.stream longReads).2))
  have hemits : (Backend.subprocess (demoSubprocess longReads) : Backend Unit Unit).Emits
      promptRequest ((burstEvents.zipIdx ++ [(stopEvent, EVENT_CAPACITY)] ++
        [(doneEvent, EVENT_CAPACITY)]).map Prod.fst)
      (.ok (SubprocessSlot.stream longReads).2) := by
    rw [Backend.Emits, runStream_longReads]
    simp [List.zipIdx_map_fst]
  obtain ⟨front, stop, hchunks, -, hmarked⟩ := hclaim _ hreach 0 _ _ _
    (.subprocess (demoSubprocess longReads)) _ hblock rfl rfl trivial hemits
  have hunmarked : ∀ m ∈ chunkFrames (burstEvents.map SlotEvent.frame), m.finishReason = none := by
    decide +kernel
  rw [hunmarked stop (by rw [hchunks]; simp)] at hmarked
  cases hmarked

end ModelApi.Server
