import ModelApi.Link.Wire

/-!
# The client's part of a step

What the steps of a client and of a handler on one connection do to the client: each is a step of
`Client.Step`, so that the invariant of the client holds while the handler plays the server.
-/

namespace ModelApi

open Lib

namespace Client

/-! ### The calls that have written their frames -/

lemma State.wrote_calls {s : State} {i : ℕ} {c : Call} :
    ∃ c', (s.wrote i c).calls = (s.setCall i c').calls ∧ c'.op = c.op ∧
      (c'.pc = .reading ∨ c'.pc = .done .unit) := by
  rw [State.wrote]
  split
  · exact ⟨_, rfl, rfl, .inl rfl⟩
  · exact ⟨_, rfl, rfl, .inl rfl⟩
  · exact ⟨_, rfl, rfl, .inl rfl⟩
  · exact ⟨_, rfl, rfl, .inr rfl⟩

lemma State.record_wrote (s : State) (i : ℕ) (c : Call) :
    (s.wrote i c).record = if c.op.isInference then s.record.ask i else s.record := by
  rw [State.wrote]
  split <;> next hop => rw [hop]; rfl

@[simp] lemma State.closed_wrote (s : State) (i : ℕ) (c : Call) :
    (s.wrote i c).closed = s.closed := by
  rw [State.wrote]
  split <;> rfl

@[simp] lemma State.record_deliver (s : State) (f : ServerMessage) (frame : List UInt8) :
    (s.deliver f frame).record = s.record.deliver f := rfl

variable [ToString BincodeError] {s t : State} {l : Label}

lemma Step.wrote {i : ℕ} {c : Call} {frame : List UInt8} (hi : s.calls i = some c)
    (hpc : c.pc = .holding) (henc : clientFrame c.op.message = .ok frame) :
    Step s .tau (s.wrote i c) := by
  rw [State.wrote]
  split
  · next req hop => exact .writeInference hi hpc henc (by rw [hop]; rfl)
  · next req hop => exact .writeInference hi hpc henc (by rw [hop]; rfl)
  · next hop => exact .writeShutdown hi hpc henc hop
  · next hop => exact .writeCancel hi hpc henc hop

/-- A call past its write stays there, with the same method. -/
lemma Step.past_op (hst : Step s l t) {i : ℕ} {c : Call} (hi : s.calls i = some c)
    (hpc : c.pc = .reading ∨ ∃ r, c.pc = .done r) :
    ∃ c', t.calls i = some c' ∧ c'.op = c.op ∧ (c'.pc = .reading ∨ ∃ r, c'.pc = .done r) := by
  have other : ∀ {j : ℕ} {d d' : Call}, s.calls j = some d → d'.op = d.op →
      (d.pc = .entered ∨ d.pc = .holding ∨ d'.pc = .reading ∨ ∃ r, d'.pc = .done r) →
      ∃ c', (s.setCall j d').calls i = some c' ∧ c'.op = c.op ∧
        (c'.pc = .reading ∨ ∃ r, c'.pc = .done r) := by
    intro j d d' hj hop hd
    by_cases hij : i = j
    · subst hij
      obtain rfl := Option.some.inj (hi.symm.trans hj)
      refine ⟨d', Function.update_self .., hop, ?_⟩
      rcases hd with hd | hd | hd
      · rw [hd] at hpc
        rcases hpc with hpc | ⟨r, hpc⟩ <;> cases hpc
      · rw [hd] at hpc
        rcases hpc with hpc | ⟨r, hpc⟩ <;> cases hpc
      · exact hd
    · exact ⟨c, (Function.update_of_ne hij ..).trans hi, rfl, hpc⟩
  cases hst with
  | @call j op hj =>
    have hij : i ≠ j := by
      rintro rfl
      rw [hi] at hj
      cases hj
    exact ⟨c, (Function.update_of_ne hij ..).trans hi, rfl, hpc⟩
  | lock hj hpd => exact other hj rfl (.inl hpd)
  | lockPoisoned hj hpd => exact other hj rfl (.inl hpd)
  | encodeFails hj hpd => exact other hj rfl (.inr (.inl hpd))
  | writeFails hj hpd => exact other hj rfl (.inr (.inl hpd))
  | writeInference hj hpd => exact other hj rfl (.inr (.inl hpd))
  | writeShutdown hj hpd => exact other hj rfl (.inr (.inl hpd))
  | writeCancel hj hpd => exact other hj rfl (.inr (.inl hpd))
  | readEvent hj hpd => exact other hj rfl (.inr (.inr (.inl hpd)))
  | readPanics hj => exact other hj rfl (.inr (.inr (.inr ⟨_, rfl⟩)))
  | readFinish hj => exact other hj rfl (.inr (.inr (.inr ⟨_, rfl⟩)))
  | readOn | serveEvent | serveTerminal | serveOutOfBand | serveStray | close =>
    exact ⟨c, hi, rfl, hpc⟩

lemma serverFrame_ne_nil {msg : ServerMessage} {frame : List UInt8}
    (h : serverFrame msg = .ok frame) : frame ≠ [] := (frameOf_serverFrame h).ne_nil

omit [ToString BincodeError] in
lemma not_append_suffix {bs frame : List UInt8} (hne : frame ≠ []) : ¬ bs ++ frame <:+ bs := by
  intro h
  have hle := h.length_le
  have hpos := List.length_pos_iff.mpr hne
  rw [List.length_append] at hle
  omega

/-- A step in which nothing is written leaves the record alone. -/
lemma Quiet.record_eq (hquiet : Quiet s t) (hst : Step s l t) : t.record = s.record := by
  cases hst with
  | @writeInference i c frame hi hpc henc hop =>
    obtain ⟨c', hi', hc'⟩ := hquiet.holding i c hi hpc
    cases (Function.update_self i _ s.calls).symm.trans hi'
    rcases hc' with hc' | ⟨e, hc'⟩ <;> cases hc'
  | serveEvent ev hopen hhead henc =>
    exact absurd hquiet.inbound (not_append_suffix (serverFrame_ne_nil henc))
  | serveTerminal msg hopen hhead hterm henc =>
    exact absurd hquiet.inbound (not_append_suffix (serverFrame_ne_nil henc))
  | _ => rfl

/-! ### The callbacks -/

/-- How a call ends with an answer of the server. -/
def Result.IsReply (r : Result) : Prop :=
  (∃ resp, r = .response resp) ∨ ∃ message, r = .error (.server message)

/-- By the time a streaming call returns an answer, its callback has received all events. -/
def Heard (s : State) : Prop :=
  ∀ i c r, s.calls i = some c → c.op.isStream = true → c.pc = .done r → r.IsReply →
    c.received = s.events i

omit [ToString BincodeError] in
lemma Heard.init : Heard State.init := by
  intro i c r hi
  cases hi

/-- An answer that a call returns came behind all events of its request. -/
lemma Inv.heard_of_finish (h : Inv s) {i : ℕ} {c : Call} (hi : s.calls i = some c)
    (hpc : c.pc = .reading) {src src' : Source IoError} {rest : List UInt8}
    (hmeets : Meets s src rest) (hclean : CleanRead src)
    {result : Except ClientError (Option ServerMessage)}
    (hread : readServerFrame src = some (result, src')) {r : Result}
    (hhandle : c.op.handle result = .finish r) (hr : r.IsReply) (hstream : c.op.isStream = true) :
    c.received = s.events i := by
  have hop : c.op.isInference = true := by
    cases hop : c.op with
    | inferenceStream req => rfl
    | inference | cancel | shutdown =>
      rw [hop] at hstream
      cases hstream
  have hgoes : ∀ {msg : ServerMessage}, msg.isTerminal = false →
      c.op.handle (.ok (some msg)) ≠ .finish r := by
    intro msg hmsg hfinish
    rcases Op.handle_of_not_isTerminal hop hmsg with ⟨hgo, -⟩ | ⟨ev, hgo, -, -⟩ <;>
      · rw [hgo] at hfinish
        cases hfinish
  obtain ⟨msgs, hmsgs, hawaiting⟩ := h.stream.awaiting i c hi hpc hop
  rcases hmsgs.read hmeets hclean hread with ⟨msg, msgs', rfl, rfl, -⟩ | ⟨hresult, -, -⟩
  · generalize hl : msg :: msgs' = l at hawaiting
    cases hawaiting with
    | owed hopen hheard hanswer howed =>
      subst hl
      exact absurd hhandle (hgoes (List.forall_mem_cons.mp hopen).1)
    | @answered pre oob answer hopen hheard hterm hanswer hoob hsettled =>
      cases pre with
      | nil => simpa using hheard hstream
      | cons msg' pre =>
        obtain ⟨rfl, -⟩ := List.cons.inj hl
        exact absurd hhandle (hgoes (List.forall_mem_cons.mp hopen).1)
  · obtain ⟨e, hfinish, he⟩ := Op.handle_hungUp hop hresult
    rw [hfinish] at hhandle
    cases hhandle
    rcases hr with ⟨resp, hr⟩ | ⟨message, hr⟩
    · cases hr
    · cases hr
      exact absurd rfl (he message)

lemma Heard.step (h : Heard s) (hinv : Inv s) (hl : l.Clean) (hst : Step s l t) : Heard t := by
  have set : ∀ {i : ℕ} {c' : Call}, t.calls = (s.setCall i c').calls → t.events = s.events →
      (∀ r, c'.op.isStream = true → c'.pc = .done r → r.IsReply → c'.received = s.events i) →
      Heard t := by
    intro i c' hcalls hevents hc' j d r hj hstream hpd hr
    rw [hcalls] at hj
    rw [hevents]
    rcases State.setCall_cases hj with ⟨rfl, rfl⟩ | ⟨-, hj⟩
    · exact hc' r hstream hpd hr
    · exact h j d r hj hstream hpd hr
  have fails : ∀ {e : ClientError}, (∀ message, e ≠ .server message) →
      ¬ (Result.error e).IsReply := by
    rintro e he (⟨resp, hr⟩ | ⟨message, hr⟩)
    · cases hr
    · exact he message (Result.error.inj hr)
  cases hst with
  | call i op hi => exact set rfl rfl fun r _ hpc => by cases hpc
  | lock => exact set rfl rfl fun r _ hpc => by cases hpc
  | writeInference => exact set rfl rfl fun r _ hpc => by cases hpc
  | writeShutdown => exact set rfl rfl fun r _ hpc => by cases hpc
  | lockPoisoned =>
    refine set rfl rfl fun r _ hpc hr => ?_
    cases hpc
    exact absurd hr (fails (by simp))
  | encodeFails =>
    refine set rfl rfl fun r _ hpc hr => ?_
    cases hpc
    exact absurd hr (fails (by simp))
  | writeFails =>
    refine set rfl rfl fun r _ hpc hr => ?_
    cases hpc
    exact absurd hr (fails (by simp))
  | writeCancel hi hpd henc hop =>
    refine set rfl rfl fun r hstream _ _ => ?_
    rw [show Op.isStream _ = false from congrArg Op.isStream hop] at hstream
    cases hstream
  | readOn => exact h
  | readEvent hi hpd =>
    refine set rfl rfl fun r _ hpc => ?_
    rw [show _ = Pc.reading from hpd] at hpc
    cases hpc
  | readPanics =>
    refine set rfl rfl fun r _ hpc hr => ?_
    cases hpc
    rcases hr with ⟨resp, hr⟩ | ⟨message, hr⟩ <;> cases hr
  | readFinish hi hpd hmeets hread hhandle =>
    refine set rfl rfl fun r hstream hpc hr => ?_
    cases hpc
    have hheard := hinv.heard_of_finish hi hpd hmeets hl hread hhandle hr hstream
    exact hheard
  | @serveEvent i frame ev hopen hhead =>
    intro j c r hj hstream hpc hr
    have hne : j ≠ i := by
      rintro rfl
      have hnone := hinv.ledger.answers_eq_none hopen hhead
      rcases hr with ⟨resp, rfl⟩ | ⟨message, rfl⟩
      · rw [hinv.matched.response j c resp hj hpc] at hnone
        cases hnone
      · rw [hinv.matched.server j c message hj hpc] at hnone
        cases hnone
    show c.received = Function.update s.events i (s.events i ++ [ev]) j
    rw [Function.update_of_ne hne]
    exact h j c r hj hstream hpc hr
  | serveTerminal => exact h
  | serveOutOfBand => exact h
  | serveStray => exact h
  | close => exact h

/-! ### What the handler does to the client -/

/-- A frame of the handler is one that the server of `Client.Step` may send. -/
lemma Step.deliver {f : ServerMessage} {frame : List UInt8} (hopen : s.closed = false)
    (henc : serverFrame f = .ok frame) (hf : f.isOutOfBand = false → s.unanswered ≠ []) :
    Step s .tau (s.deliver f frame) := by
  cases hoob : f.isOutOfBand with
  | true =>
    rw [State.deliver, Link.Record.deliver_of_isOutOfBand _ hoob]
    exact .serveOutOfBand f hopen hoob henc
  | false =>
    obtain ⟨i, later, hi⟩ := List.exists_cons_of_ne_nil (hf hoob)
    have hhead : s.unanswered.head? = some i := by
      rw [hi]
      rfl
    have htail : s.unanswered.tail = later := by
      rw [hi]
      rfl
    have hevent : ∀ ev : StreamEvent, f = ev.frame → Step s .tau (s.deliver f frame) := by
      rintro ev rfl
      rw [State.deliver, Link.Record.deliver_event (r := s.record) hi (isTerminal_frame ev)
        (eventOf_frame ev)]
      exact .serveEvent ev hopen hhead henc
    have hterminal : f.isTerminal = true → Step s .tau (s.deliver f frame) := by
      intro hterm
      rw [State.deliver, Link.Record.deliver_terminal (r := s.record) hi hterm, ← htail]
      exact .serveTerminal f hopen hhead hterm henc
    cases f with
    | hello | goodbye => cases hoob
    | chunk c => exact hevent (.chunk c) rfl
    | progress p => exact hevent (.progress p) rfl
    | inferenceComplete resp => exact hterminal rfl
    | inferenceError message => exact hterminal rfl

/-- The handler hangs up, perhaps inside a frame. -/
lemma Step.hangUp {f : ServerMessage} {cut : List UInt8} (hopen : s.closed = false)
    (hcut : Link.PartOf f cut) :
    Step s .tau { s with inbound := s.inbound ++ cut, closed := true } := by
  rw [Link.PartOf] at hcut
  cases henc : serverFrame f with
  | ok frame =>
    rw [henc] at hcut
    exact .close hopen henc hcut.1 hcut.2
  | error e =>
    rw [henc] at hcut
    obtain rfl := hcut
    have hgoodbye : serverFrame .goodbye = .ok [4, 0, 0, 0, 5, 0, 0, 0] := rfl
    exact .close hopen hgoodbye List.nil_prefix nofun

/-- The client behind the handshake. -/
lemma Inv.greeted {bs : List UInt8} {closed : Bool} (h : Carries serverNext bs closed []) :
    Inv { State.init with inbound := bs, closed := closed } := by
  have hcalls : ∀ i c, State.init.calls i ≠ some c := by
    intro i c hi
    cases hi
  refine ⟨⟨rfl, fun i c hi => absurd hi (hcalls i c), fun _ => rfl⟩,
    ⟨fun _ _ => ⟨rfl, rfl⟩, .inr (.inl rfl)⟩, ⟨fun _ _ => ?_, fun i c hi => absurd hi (hcalls i c)⟩,
    ⟨fun i c _ hi => absurd hi (hcalls i c), fun i c _ hi => absurd hi (hcalls i c),
      fun i c hi => absurd hi (hcalls i c)⟩⟩
  refine ⟨[], h, fun msg hmsg => ?_, .inr rfl⟩
  cases hmsg

/-! ### The first frame -/

/-- A message is one that the incremental decoder finds in the bytes ahead, whatever interrupts the
read. -/
lemma readFrame_eq_message {T : Type} {deserialize : List UInt8 → Except BincodeError T}
    {src src' : Source IoError} {value : T}
    (h : readFrame deserialize src = some (.ok (some value), src')) :
    ∃ n, ModelApi.Framed.tryDecode Framed.MAX_FRAME_BYTES deserialize src.bytes =
        .ok (some (value, n)) ∧ n ≤ src.bytes.length ∧ src'.bytes = src.bytes.drop n := by
  rw [readFrame] at h
  split at h
  · cases h
  · split_ifs at h <;> cases h
  · cases h
  · next b src₁ hfirst =>
    obtain ⟨hnil, -⟩ | ⟨b', hb, hbytes⟩ := ModelApi.Framed.read_one_eq_ok hfirst
    · cases hnil
    · cases hb
      split at h
      · cases h
      · cases h
      · next tail src₂ htail =>
        dsimp only at h
        split_ifs at h with hmax
        · cases h
        · split at h
          · cases h
          · cases h
          · next payload src₃ hpayload =>
            split at h
            · cases h
            · next value' hvalue =>
              cases h
              exact ModelApi.Framed.tryDecode_of_readExact hbytes htail hmax hpayload hvalue
  · cases h

end Client

end ModelApi
