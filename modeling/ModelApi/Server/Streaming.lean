import ModelApi.Server.Trace

/-!
# Streaming through the bounded channel

The frames in front of the terminal frame of a request are the events its slot emitted, in order,
but for those that found the channel full.
-/

namespace ModelApi.Server

open Lib

variable {cfg : Config} {s : State}

/-- The frames behind `acc`, cut behind each terminal frame. What follows the last terminal frame is
left out. -/
def requestBlocks (acc : List ServerMessage) :
    List ServerMessage → List (List ServerMessage × ServerMessage)
  | []      => []
  | m :: ms =>
    if m.isTerminal then (acc, m) :: requestBlocks [] ms else requestBlocks (acc ++ [m]) ms

/-- The block a finished call leaves. -/
def SlotCall.block (c : SlotCall) : Option (List ServerMessage × ServerMessage) :=
  c.result.map fun r => (c.accepted.map SlotEvent.frame, replyOf r)

lemma requestBlocks_events (acc : List ServerMessage) (evs : List SlotEvent)
    (ms : List ServerMessage) :
    requestBlocks acc (evs.map SlotEvent.frame ++ ms) =
      requestBlocks (acc ++ evs.map SlotEvent.frame) ms := by
  induction evs generalizing acc with
  | nil => simp
  | cons ev evs ih => simp [requestBlocks, ih]

lemma requestBlocks_frames (c : SlotCall) (ms : List ServerMessage) :
    requestBlocks [] (c.frames ++ ms) =
      match c.block with
      | some block => block :: requestBlocks [] ms
      | none       => requestBlocks (c.accepted.map SlotEvent.frame) ms := by
  rw [SlotCall.frames, List.append_assoc, requestBlocks_events, SlotCall.block]
  cases c.result with
  | none => rfl
  | some r => simp [requestBlocks]

lemma requestBlocks_returned {calls : List SlotCall} (h : Returned calls)
    (ms : List ServerMessage) :
    requestBlocks [] (calls.flatMap SlotCall.frames ++ ms) =
      calls.filterMap SlotCall.block ++ requestBlocks [] ms := by
  induction calls with
  | nil => rfl
  | cons c calls ih =>
    obtain ⟨r, hr⟩ := Option.isSome_iff_exists.mp (h c List.mem_cons_self)
    have hblock : c.block = some (c.accepted.map SlotEvent.frame, replyOf r) := by
      rw [SlotCall.block, hr]
      rfl
    rw [List.flatMap_cons, List.append_assoc, requestBlocks_frames, hblock,
      List.filterMap_cons_some hblock, ih fun c' hc' => h c' (List.mem_cons_of_mem _ hc')]
    rfl

lemma requestBlocks_goodbye (acc : List ServerMessage) (b : Bool) :
    requestBlocks acc (if b then [.goodbye] else []) = [] := by
  cases b <;> rfl

/-- The blocks of a word are those of the finished calls. -/
lemma requestBlocks_callFrames {calls : List SlotCall}
    (h : ∀ c ∈ calls.tail, c.result.isSome = true) (b : Bool) :
    requestBlocks [] (callFrames calls ++ if b then [.goodbye] else []) =
      calls.reverse.filterMap SlotCall.block := by
  cases calls with
  | nil => exact requestBlocks_goodbye [] b
  | cons c calls =>
    have hreturned : Returned calls.reverse := fun c' hc' => h c' (List.mem_reverse.mp hc')
    rw [callFrames_cons, callFrames, List.append_assoc, requestBlocks_returned hreturned,
      requestBlocks_frames, List.reverse_cons, List.filterMap_append]
    cases hblock : c.block with
    | none => simp [hblock, requestBlocks_goodbye]
    | some block => simp [hblock, requestBlocks_goodbye]

lemma requestBlocks_prefix {ms ms' : List ServerMessage} (h : ms <+: ms') :
    ∀ acc, requestBlocks acc ms <+: requestBlocks acc ms' := by
  induction ms generalizing ms' with
  | nil => exact fun acc => List.nil_prefix
  | cons m ms ih =>
    intro acc
    cases ms' with
    | nil => exact absurd h.length_le (by simp)
    | cons m' ms' =>
      obtain ⟨rfl, hrest⟩ := List.cons_prefix_cons.mp h
      simp only [requestBlocks]
      split_ifs
      · exact List.cons_prefix_cons.mpr ⟨rfl, ih hrest []⟩
      · exact ih hrest _

/-- When all calls but the last have returned, blocks and calls are numbered alike. -/
lemma getElem?_filterMap_block {calls : List SlotCall}
    (h : ∀ c ∈ calls.dropLast, c.result.isSome = true) {k : ℕ}
    {block : List ServerMessage × ServerMessage}
    (hb : (calls.filterMap SlotCall.block)[k]? = some block) :
    ∃ c, calls[k]? = some c ∧ c.block = some block := by
  induction calls generalizing k with
  | nil => simp at hb
  | cons c calls ih =>
    cases hblock : c.block with
    | some first =>
      rw [List.filterMap_cons_some hblock] at hb
      cases k with
      | zero =>
        simp only [List.getElem?_cons_zero, Option.some.injEq] at hb
        exact ⟨c, rfl, by rw [hblock, hb]⟩
      | succ k =>
        simp only [List.getElem?_cons_succ] at hb ⊢
        apply ih _ hb
        cases calls with
        | nil => simp
        | cons c' calls =>
          intro d hd
          exact h d (List.mem_cons_of_mem _ hd)
    | none =>
      -- a call that has not returned is the last one
      cases calls with
      | nil =>
        rw [List.filterMap_cons_none hblock] at hb
        simp at hb
      | cons c' calls =>
        have hresult := h c List.mem_cons_self
        obtain ⟨r, hr⟩ := Option.isSome_iff_exists.mp hresult
        rw [SlotCall.block, hr] at hblock
        cases hblock

lemma tail_prefix_of_prefix_cons {ms ms' : List ServerMessage} {m : ServerMessage}
    (h : ms <+: m :: ms') : ms.tail <+: ms' := by
  simpa only [List.drop_one, List.tail_cons] using h.drop 1

lemma Trace.prefix_blocks (h : Trace cfg s) :
    requestBlocks [] s.written.tail <+: s.calls.reverse.filterMap SlotCall.block := by
  have hpre := h.written_prefix
  cases hreceived : s.received with
  | nil =>
    simp only [State.word, hreceived, List.prefix_nil] at hpre
    simp [hpre, requestBlocks]
  | cons m rest =>
    cases m with
    | hello v =>
      simp only [State.word, hreceived] at hpre
      split_ifs at hpre with hv hshutdown
      · have := requestBlocks_callFrames h.returned true
        simp only [if_true] at this
        rw [← this]
        exact requestBlocks_prefix (tail_prefix_of_prefix_cons hpre) []
      · have := requestBlocks_callFrames h.returned false
        simp only [Bool.false_eq_true, if_false] at this
        rw [← this]
        exact requestBlocks_prefix (tail_prefix_of_prefix_cons hpre) []
      · rw [List.prefix_nil.mp (tail_prefix_of_prefix_cons hpre)]
        exact List.nil_prefix
    | _ =>
      simp only [State.word, hreceived, List.prefix_nil] at hpre
      simp [hpre, requestBlocks]

/-- The frames written for the `k`-th request in front of its terminal frame are the events the slot
emitted for it, in order, but for those that were emitted while the channel was full; and the
terminal frame carries the result of that call. -/
theorem blocks_of_reachable (h : (handleClient cfg).Reachable s) {k : ℕ}
    {frames : List ServerMessage} {terminal : ServerMessage}
    (hb : (requestBlocks [] s.written.tail)[k]? = some (frames, terminal)) :
    ∃ c r, s.calls.reverse[k]? = some c ∧ c.result = some r ∧ terminal = replyOf r ∧
      frames = (c.emitted.filter fun e => e.2 < EVENT_CAPACITY).map fun e => e.1.frame := by
  have htrace := (inv_of_reachable h).trace
  obtain ⟨rest, hrest⟩ := htrace.prefix_blocks
  have hblock : (s.calls.reverse.filterMap SlotCall.block)[k]? = some (frames, terminal) := by
    rw [← hrest]
    exact List.getElem?_append_left (List.getElem?_eq_some_iff.mp hb).1 ▸ hb
  have hreturned : ∀ c ∈ s.calls.reverse.dropLast, c.result.isSome = true := by
    rw [List.dropLast_reverse]
    exact fun c hc => htrace.returned c (List.mem_reverse.mp hc)
  obtain ⟨c, hc, hblock⟩ := getElem?_filterMap_block hreturned hblock
  obtain ⟨r, hr, heq⟩ := Option.map_eq_some_iff.mp hblock
  obtain ⟨rfl, rfl⟩ := Prod.mk.inj heq
  exact ⟨c, r, hc, hr, rfl, by rw [SlotCall.accepted, List.map_map]; rfl⟩

/-! ### Bursts -/

/-- A burst that fits is queued. -/
lemma steps_emit {queue : List SlotEvent} {c : SlotCall} {cs : List SlotCall}
    (hpc : s.pc = .stream ⟨queue, true, true⟩ .poll) (hcalls : s.calls = c :: cs)
    (hrun : c.result = none) (evs : List SlotEvent)
    (hfit : queue.length + evs.length ≤ EVENT_CAPACITY) :
    (handleClient cfg).Steps s { s with
      pc := .stream ⟨queue ++ evs, true, true⟩ .poll
      calls := { c with emitted := c.emitted ++ evs.zipIdx queue.length } :: cs } := by
  induction evs generalizing s queue c with
  | nil =>
    simp only [List.append_nil, List.zipIdx_nil]
    rw [← hpc, ← hcalls]
  | cons ev evs ih =>
    have hroom : queue.length < EVENT_CAPACITY := by
      simp only [List.length_cons] at hfit
      omega
    have hsend : (Channel.mk queue true true).trySend ev = ⟨queue ++ [ev], true, true⟩ :=
      if_pos hroom
    have hst : Step cfg s _ := .emit hpc hcalls hrun ev
    rw [hsend] at hst
    refine .head hst ?_
    have := ih (s := { s with
        pc := .stream ⟨queue ++ [ev], true, true⟩ .poll
        calls := { c with emitted := c.emitted ++ [(ev, queue.length)] } :: cs })
      rfl rfl hrun (by simpa [Nat.add_assoc, Nat.add_comm 1] using hfit)
    simpa using this

/-- An event behind a full queue is lost. -/
lemma step_lose {queue : List SlotEvent} {c : SlotCall} {cs : List SlotCall}
    (hpc : s.pc = .stream ⟨queue, true, true⟩ .poll) (hcalls : s.calls = c :: cs)
    (hrun : c.result = none) (hfull : queue.length = EVENT_CAPACITY) (ev : SlotEvent) :
    Step cfg s { s with
      calls := { c with emitted := c.emitted ++ [(ev, EVENT_CAPACITY)] } :: cs } := by
  have hsend : (Channel.mk queue true true).trySend ev = ⟨queue, true, true⟩ :=
    if_neg (by rw [hfull]; exact lt_irrefl _)
  have hst : Step cfg s _ := .emit hpc hcalls hrun ev
  rw [hsend, ← hpc] at hst
  simpa only [hfull] using hst

/-- What is queued is written, one frame an event. -/
lemma steps_forward {queue : List SlotEvent} {sink : Bool} {c : SlotCall} {cs : List SlotCall}
    (hpc : s.pc = .stream ⟨queue, sink, true⟩ .poll) (hcalls : s.calls = c :: cs)
    (henc : ∀ ev ∈ queue, ∃ bytes, Framed.encode ServerMessage.format ev.frame = .ok bytes) :
    (handleClient cfg).Steps s { s with
      pc := .stream ⟨[], sink, true⟩ .poll
      written := s.written ++ queue.map SlotEvent.frame } := by
  induction queue generalizing s with
  | nil =>
    simp only [List.map_nil, List.append_nil]
    rw [← hpc]
  | cons ev queue ih =>
    obtain ⟨bytes, hbytes⟩ := henc ev List.mem_cons_self
    have hpoll : Step cfg s { s with pc := .stream ⟨queue, sink, true⟩ (.forward ev) } :=
      .drain hpc hcalls (.event rfl)
    have hwrite : Step cfg { s with pc := .stream ⟨queue, sink, true⟩ (.forward ev) } _ :=
      .write (.event _ ev) hbytes
    refine .head hpoll (.head hwrite ?_)
    have := ih (s := { s with
        pc := .stream ⟨queue, sink, true⟩ .poll, written := s.written ++ [ev.frame] })
      rfl hcalls fun ev' hev' => henc ev' (List.mem_cons_of_mem _ hev')
    simpa using this

/-- A finished call is answered behind the events that are queued. -/
lemma steps_answer {queue : List SlotEvent} {c : SlotCall} {cs : List SlotCall}
    (hpc : s.pc = .stream ⟨queue, true, true⟩ .poll) (hcalls : s.calls = c :: cs)
    (hrun : c.result = none) {r : Except String InferenceResponse} {bytes : List UInt8}
    (hevents : ∀ ev ∈ queue, ∃ bytes, Framed.encode ServerMessage.format ev.frame = .ok bytes)
    (hreply : Framed.encode ServerMessage.format (replyOf r) = .ok bytes) :
    (handleClient cfg).Steps s { s with
      pc := .readNext
      calls := { c with result := some r } :: cs
      written := s.written ++ queue.map SlotEvent.frame ++ [replyOf r] } := by
  refine .head (Step.finish hpc hcalls hrun r) ?_
  refine (steps_forward rfl rfl hevents).trans ?_
  refine .head (Step.drain rfl rfl (.empty rfl)) ?_
  refine .head (Step.drain rfl rfl (.finished rfl)) ?_
  refine .head (Step.drain rfl rfl (.drained ?_)) ?_
  · intro ev ch hrecv
    cases hrecv
  · exact .single (Step.write (.reply _) hreply)

/-- A request for events. -/
def demoRequest : InferenceRequest := { InferenceRequest.plain .stateless [] with stream := true }

def demoChunk : SlotEvent := .chunk ⟨"a", none, none⟩

/-- The slot has emitted some events for a request, and the handler has not looked yet. -/
def demoBurst (queue : List SlotEvent) (emitted : List (SlotEvent × ℕ)) : State where
  pc := .stream ⟨queue, true, true⟩ .poll
  received := [.hello PROTOCOL_VERSION, .inference demoRequest]
  calls := [⟨demoRequest, emitted, none⟩]
  written := [helloFrame demoConfig]
  writeFailed := false

/-- A request for events has reached the slot. -/
def streamingState (req : InferenceRequest) : State where
  pc := .stream ⟨[], true, true⟩ .poll
  received := [.hello PROTOCOL_VERSION, .inference req]
  calls := [⟨req, [], none⟩]
  written := [helloFrame demoConfig]
  writeFailed := false

lemma reachable_streamingState {req : InferenceRequest} (h : req.stream = true) :
    (handleClient demoConfig).Reachable (streamingState req) := by
  have h0 : (handleClient demoConfig).Reachable State.init := .of_init rfl
  have h1 := h0.step (.first (.message (.hello PROTOCOL_VERSION)) rfl)
  have h2 := h1.step (.write .hello rfl)
  have h3 := h2.step (.next (.message (.inference req)) rfl)
  have hafter : afterNext (.message (.inference req)) = .stream ⟨[], true, true⟩ .poll := by
    simp [afterNext, h]
  rw [hafter] at h3
  exact h3

lemma reachable_demoBurst (evs : List SlotEvent) (hfit : evs.length ≤ EVENT_CAPACITY) :
    (handleClient demoConfig).Reachable (demoBurst evs evs.zipIdx) := by
  have hemit : (handleClient demoConfig).Steps (streamingState demoRequest) _ :=
    steps_emit (c := ⟨demoRequest, [], none⟩) rfl rfl rfl evs (by simpa using hfit)
  exact (reachable_streamingState rfl).steps hemit

lemma encode_demoChunk :
    ∃ bytes, Framed.encode ServerMessage.format demoChunk.frame = .ok bytes := ⟨_, rfl⟩

/-- A call that emits one event. -/
theorem blocks_of_reachable_demo : ∃ s, (handleClient demoConfig).Reachable s ∧
    (requestBlocks [] s.written.tail)[0]? = some ([demoChunk.frame], replyOf (.error "")) ∧
    ∃ (c : SlotCall) (r : Except String InferenceResponse), s.calls.reverse[0]? = some c ∧
      c.result = some r ∧ replyOf (.error "") = replyOf r ∧
      [demoChunk.frame] =
        (c.emitted.filter fun e => e.2 < EVENT_CAPACITY).map fun e => e.1.frame := by
  have hanswer : (handleClient demoConfig).Steps (demoBurst [demoChunk] [(demoChunk, 0)]) _ :=
    steps_answer rfl rfl rfl (r := .error "") (by simpa using encode_demoChunk) rfl
  have hreach := (reachable_demoBurst [demoChunk] (by decide)).steps hanswer
  exact ⟨_, hreach, rfl, blocks_of_reachable hreach rfl⟩

/-- Of 65 events emitted before the handler gets to run again, one is lost. -/
theorem burst_loses_event :
    ¬ ∀ s, (handleClient demoConfig).Reachable s → s.writeFailed = false →
      ∀ (k : ℕ) (frames : List ServerMessage) (terminal : ServerMessage),
        (requestBlocks [] s.written.tail)[k]? = some (frames, terminal) →
        ∃ c : SlotCall, s.calls.reverse[k]? = some c ∧
          frames = c.emitted.map fun e => e.1.frame := by
  intro hclaim
  let evs := List.replicate EVENT_CAPACITY demoChunk
  let emitted := evs.zipIdx ++ [(demoChunk, EVENT_CAPACITY)]
  have hlose : Step demoConfig (demoBurst evs evs.zipIdx) _ :=
    step_lose rfl rfl rfl rfl demoChunk
  have hanswer : (handleClient demoConfig).Steps (demoBurst evs emitted) _ :=
    steps_answer rfl rfl rfl (r := .error "")
      (fun ev hev => List.eq_of_mem_replicate hev ▸ encode_demoChunk) rfl
  have hfull : (handleClient demoConfig).Reachable (demoBurst evs emitted) :=
    (reachable_demoBurst evs (by decide)).step hlose
  have hreach := hfull.steps hanswer
  have hblocks : requestBlocks [] (evs.map SlotEvent.frame ++ [replyOf (.error "")]) =
      [(evs.map SlotEvent.frame, replyOf (.error ""))] := by
    rw [requestBlocks_events]
    rfl
  obtain ⟨c, hc, hframes⟩ := hclaim _ hreach rfl 0 _ _ (congrArg (·[0]?) hblocks)
  cases hc
  have hlength := congrArg List.length hframes
  simp [emitted, evs] at hlength

end ModelApi.Server
