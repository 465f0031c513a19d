import ModelApi.Server.Streaming

/-!
# Which events a client is sent

The two flags of a request choose together whether the slot is given a sink. The sink forwards
whatever it is given.
-/

namespace ModelApi.Server

open Lib

variable {cfg : Config} {s t : State} {req : InferenceRequest} {f : ServerMessage}

/-- The frame is of a kind that the request asks for. -/
def AskedFor (req : InferenceRequest) : ServerMessage → Prop
  | .chunk _    => req.stream = true
  | .progress _ => req.progress = true
  | .hello _ _ _ | .inferenceComplete _ | .inferenceError _ | .goodbye => True

/-- In some run on some connection the handler writes the frame while the request is the latest one
that it has passed to its slot. -/
def WritesFor (cfg : Config) (req : InferenceRequest) (f : ServerMessage) : Prop :=
  ∃ s t c cs, (handleClient cfg).Reachable s ∧ Step cfg s t ∧ s.calls = c :: cs ∧ c.req = req ∧
    t.written = s.written ++ [f]

/-- What one step writes. -/
lemma exists_writes (hst : Step cfg s t) (hw : t.written = s.written ++ [f]) :
    (∃ m, f = .inferenceError m) ∨ ∃ pc' context, Writes cfg s.pc f pc' context := by
  have hsame : s.written ≠ s.written ++ [f] := by simp
  cases hst with
  | first r hpc => exact absurd hw hsame
  | next r hpc => exact absurd hw hsame
  | refuse hpc =>
    obtain rfl := List.singleton_inj.mp (List.append_cancel_left hw)
    exact .inl ⟨_, rfl⟩
  | refuseFails hpc => exact absurd hw hsame
  | write hwrites henc =>
    obtain rfl := List.singleton_inj.mp (List.append_cancel_left hw)
    exact .inr ⟨_, _, hwrites⟩
  | writeFails hwrites e => exact absurd hw hsame
  | drain hpc hcalls hd => exact absurd hw hsame
  | emit hpc hcalls hrun ev => exact absurd hw hsame
  | finish hpc hcalls hrun r => exact absurd hw hsame
  | runReturns hpc hcalls r => exact absurd hw hsame

lemma askedFor_replyOf (req : InferenceRequest) (r : Except String InferenceResponse) :
    AskedFor req (replyOf r) := by
  cases r <;> trivial

lemma askedFor_frame (hstream : req.stream = true) (hprogress : req.progress = true)
    (ev : SlotEvent) : AskedFor req ev.frame := by
  cases ev with
  | chunk c => exact hstream
  | progress p => exact hprogress

/-- Where the flags agree, both are set when there is a sink. -/
lemma askedFor_of_writesFor (hflags : req.stream = req.progress) (h : WritesFor cfg req f) :
    AskedFor req f := by
  obtain ⟨s, t, c, cs, hreach, hst, hcalls, rfl, hw⟩ := h
  have hinv := inv_of_reachable hreach
  have hsink : ∀ ch d, s.pc = .stream ch d → ∀ ev : SlotEvent, AskedFor c.req ev.frame := by
    intro ch d hpc ev
    rcases hinv.gated.stream ch d hpc c (by rw [hcalls]; rfl) with hset | hset
    · exact askedFor_frame hset (hflags ▸ hset) ev
    · exact askedFor_frame (hflags ▸ hset) hset ev
  rcases exists_writes hst hw with ⟨m, rfl⟩ | ⟨pc', context, hwrites⟩
  · trivial
  · have hat := hinv.at_pc
    generalize hpc : s.pc = pc at hwrites hat
    cases hwrites with
    | hello => trivial
    | event ch ev => exact hsink _ _ hpc ev
    | tailEvent ch r ev => exact hsink _ _ hpc ev
    | reply msg =>
      obtain ⟨c', r, -, -, rfl⟩ := hat
      exact askedFor_replyOf _ r
    | goodbye => trivial

/-- A slot that is given a sink may push any event into it. -/
lemma writesFor_event (hset : (req.stream || req.progress) = true) (ev : SlotEvent)
    {bytes : List UInt8} (henc : Framed.encode ServerMessage.format ev.frame = .ok bytes) :
    WritesFor demoConfig req ev.frame := by
  have h0 : (handleClient demoConfig).Reachable State.init := .of_init rfl
  have h1 := h0.step (.first (.message (.hello PROTOCOL_VERSION)) rfl)
  have h2 := h1.step (.write .hello rfl)
  have h3 := h2.step (.next (.message (.inference req)) rfl)
  have hpc : afterNext (.message (.inference req)) = .stream ⟨[], true, true⟩ .poll := if_pos hset
  have h4 := h3.step (.emit hpc rfl rfl ev)
  have h5 := h4.step (.drain rfl rfl (.event rfl))
  exact ⟨_, _, _, _, h5, .write (.event _ ev) henc, rfl, rfl, rfl⟩

/-- Clients are sent only what they ask for if a request asks for both kinds of events or for none,
and not otherwise. -/
theorem askedFor_iff (req : InferenceRequest) :
    (∀ cfg f, WritesFor cfg req f → AskedFor req f) ↔ req.stream = req.progress := by
  constructor
  · intro h
    cases hstream : req.stream with
    | true =>
      have hwrites : WritesFor demoConfig req (.progress ⟨"gen_start", none, none⟩) :=
        writesFor_event (by rw [hstream, Bool.true_or]) (.progress _) rfl
      exact (h _ _ hwrites).symm
    | false =>
      cases hprogress : req.progress with
      | false => rfl
      | true =>
        have hwrites : WritesFor demoConfig req (.chunk ⟨"a", none, none⟩) :=
          writesFor_event (by rw [hprogress, Bool.or_true]) (.chunk _) rfl
        exact hstream.symm.trans (h _ _ hwrites)
  · exact fun hflags cfg f h => askedFor_of_writesFor hflags h

/-- A request for progress events alone is sent the text as well. -/
theorem not_askedFor : ¬ ∀ (cfg : Config) (req : InferenceRequest) (f : ServerMessage),
    WritesFor cfg req f → AskedFor req f := by
  intro h
  have hwrites : WritesFor demoConfig
      { InferenceRequest.plain .stateless [] with progress := true } demoChunk.frame :=
    writesFor_event rfl demoChunk rfl
  have hasked := h _ _ _ hwrites
  revert hasked
  simp [AskedFor, demoChunk, SlotEvent.frame, InferenceRequest.plain]

end ModelApi.Server
