import ModelApi.Link.CutOff

/-!
# Steps in which nothing fails

What the handler does of its own accord, when neither a read nor a write fails: it takes what has
arrived, serves it and comes back for the next message, and when the last of the messages is served,
every request has been answered.
-/

namespace ModelApi

open Lib

/-! ### Reading what has arrived -/

namespace Framed

variable {ε T : Type} [ToString ε] {maxFrameBytes : ℕ} {deserialize : List UInt8 → Except ε T}
  {b : UInt8} {bs : List UInt8} {value : T} {n : ℕ}

/-- A frame that the incremental decoder finds, piece by piece. -/
lemma pieces_of_tryDecode
    (h : tryDecode maxFrameBytes deserialize (b :: bs) = .ok (some (value, n))) :
    3 ≤ bs.length ∧ ¬ ofLe (b :: bs.take 3) > maxFrameBytes ∧
      ofLe (b :: bs.take 3) ≤ (bs.drop 3).length ∧
      deserialize ((bs.drop 3).take (ofLe (b :: bs.take 3))) = .ok value ∧
      (b :: bs).drop n = (bs.drop 3).drop (ofLe (b :: bs.take 3)) := by
  simp only [tryDecode, List.take_succ_cons, List.drop_succ_cons, List.length_cons] at h
  split_ifs at h with h4 hmax hlen
  · cases h
  · cases h
  · cases hvalue : deserialize ((bs.drop 3).take (ofLe (b :: bs.take 3))) with
    | error e =>
      rw [hvalue] at h
      cases h
    | ok value' =>
      rw [hvalue] at h
      cases h
      refine ⟨by omega, hmax, ?_, rfl, ?_⟩
      · rw [List.length_drop]
        omega
      · rw [List.drop_drop, Nat.add_comm 4, List.drop_succ_cons, Nat.add_comm]

lemma readFrameAsync_arrived
    (h : tryDecode maxFrameBytes deserialize bs = .ok (some (value, n))) (eof : Bool) :
    readFrameAsync maxFrameBytes deserialize (Source.arrived bs eof) =
      some (.ok (some value), Source.arrived (bs.drop n) eof) := by
  cases bs with
  | nil => cases h
  | cons b bs =>
    obtain ⟨h3, hmax, hlen, hvalue, hdrop⟩ := pieces_of_tryDecode h
    rw [hdrop, readFrameAsync, Source.read_arrived]
    simp only [readExact, Source.readExact_arrived h3, if_neg hmax, Source.readExact_arrived hlen,
      hvalue]

end Framed

lemma Client.readFrame_arrived {T : Type} [ToString BincodeError]
    {deserialize : List UInt8 → Except BincodeError T} {bs : List UInt8} {value : T} {n : ℕ}
    (h : ModelApi.Framed.tryDecode Client.Framed.MAX_FRAME_BYTES deserialize bs =
      .ok (some (value, n))) (eof : Bool) :
    Client.readFrame deserialize (Source.arrived bs eof) =
      some (.ok (some value), Source.arrived (bs.drop n) eof) := by
  cases bs with
  | nil => cases h
  | cons b bs =>
    obtain ⟨h3, hmax, hlen, hvalue, hdrop⟩ := Framed.pieces_of_tryDecode h
    rw [hdrop, Client.readFrame, Source.read_arrived]
    simp only [Client.readExact, Source.readExact_arrived h3, if_neg hmax,
      Source.readExact_arrived hlen, hvalue]

namespace Link

open Client Server

variable [ToString BincodeError] {cfg : Server.Config} {clientVersion : UInt32}
  {debug : ServerMessage → String} {s t u : State}

/-! ### Smooth steps -/

/-- A step in which nothing fails but the encoding of a message that fits no frame. -/
structure Smooth (cfg : Server.Config) (clientVersion : UInt32) (debug : ServerMessage → String)
    (s t : State) : Prop where
  step : Step cfg clientVersion debug s t
  /-- no read of the handler fails -/
  read : ∀ e, t.server.pc = .ended (.error (.readHello e)) ∨
    t.server.pc = .ended (.error (.read e)) → t.server.pc = s.server.pc
  /-- nor does a write -/
  write : t.server.writeFailed = true → s.server.writeFailed = true ∨
    ∃ f e, s.server.pc.frame cfg = some f ∧ serverFrame f = .error e
  /-- nor does a write of a call -/
  request : ∀ i c c' r, s.client.calls i = some c → c.pc = .holding →
    t.client.calls i = some c' → c'.pc = .done (.error r) →
      ∃ e, clientFrame c.op.message = .error e
  /-- no callback panics -/
  poisoned : t.client.poisoned = s.client.poisoned

/-- A run of smooth steps in which only the handler moves. -/
structure ServerRun (cfg : Server.Config) (clientVersion : UInt32)
    (debug : ServerMessage → String) (s t : State) : Prop where
  steps : Relation.ReflTransGen (Smooth cfg clientVersion debug) s t
  calls : t.client.calls = s.client.calls
  lock : t.client.lock = s.client.lock
  sent : t.sent = s.sent

namespace ServerRun

lemma refl : ServerRun cfg clientVersion debug s s := ⟨.refl, rfl, rfl, rfl⟩

lemma trans (h : ServerRun cfg clientVersion debug s t)
    (h' : ServerRun cfg clientVersion debug t u) : ServerRun cfg clientVersion debug s u where
  steps := h.steps.trans h'.steps
  calls := h'.calls.trans h.calls
  lock := h'.lock.trans h.lock
  sent := h'.sent.trans h.sent

lemma single (hst : Step cfg clientVersion debug s t)
    (hread : ∀ e, t.server.pc = .ended (.error (.readHello e)) ∨
      t.server.pc = .ended (.error (.read e)) → t.server.pc = s.server.pc)
    (hwrite : t.server.writeFailed = true → s.server.writeFailed = true ∨
      ∃ f e, s.server.pc.frame cfg = some f ∧ serverFrame f = .error e)
    (hcalls : t.client.calls = s.client.calls) (hlock : t.client.lock = s.client.lock)
    (hpoisoned : t.client.poisoned = s.client.poisoned) (hsent : t.sent = s.sent) :
    ServerRun cfg clientVersion debug s t where
  steps := .single {
    step := hst
    read := hread
    write := hwrite
    request := by
      intro i c c' r hi hpc hi' hpc'
      rw [hcalls] at hi'
      rw [Option.some.inj (hi.symm.trans hi'), hpc'] at hpc
      cases hpc
    poisoned := hpoisoned }
  calls := hcalls
  lock := hlock
  sent := hsent

end ServerRun

lemma steps_of_smooth (h : Relation.ReflTransGen (Smooth cfg clientVersion debug) s t) :
    (link cfg clientVersion debug).Steps s t :=
  h.lift id fun _ _ hst => hst.step

/-! ### One message -/

/-- The handler comes back for the next message, or ends. -/
def ComesBack (cfg : Server.Config) (clientVersion : UInt32) (debug : ServerMessage → String)
    (s : State) : Prop :=
  ∃ t, ServerRun cfg clientVersion debug s t ∧
    (t.server.pc = .readNext ∧ t.server.received = s.server.received ∨
      ∃ r, t.server.pc = .ended r)

namespace ComesBack

lemma of_run (hrun : ServerRun cfg clientVersion debug s t)
    (hreceived : t.server.received = s.server.received)
    (h : ComesBack cfg clientVersion debug t) : ComesBack cfg clientVersion debug s := by
  obtain ⟨u, hu, hend⟩ := h
  rw [hreceived] at hend
  exact ⟨u, hrun.trans hu, hend⟩

/-- The drain loop turns, or the slot moves on. -/
lemma of_runs {pc : Server.Pc} {calls : List SlotCall}
    (hst : Server.Step cfg s.server { s.server with pc := pc, calls := calls })
    (hpc : s.server.pc ≠ .readHello ∧ s.server.pc ≠ .readNext) (hended : ∀ r, pc ≠ .ended r)
    (h : ComesBack cfg clientVersion debug
      { s with server := { s.server with pc := pc, calls := calls } }) :
    ComesBack cfg clientVersion debug s := by
  refine of_run (.single (.serverRuns hst hpc rfl rfl) ?_ .inl rfl rfl rfl rfl) (by rfl) h
  rintro e (hread | hread) <;> exact absurd hread (hended _)

/-- A frame is written, or fits no frame. -/
lemma of_write {f : ServerMessage} {pc : Server.Pc} {context : String}
    (hw : Server.Writes cfg s.server.pc f pc context)
    (h : ∀ client, client.calls = s.client.calls → ComesBack cfg clientVersion debug
      { s with
        client := client
        server := { s.server with pc := pc, written := s.server.written ++ [f] } }) :
    ComesBack cfg clientVersion debug s := by
  have hf : s.server.pc.frame cfg = some f := by
    generalize s.server.pc = from_ at hw
    cases hw <;> rfl
  have hread : ∀ e, pc ≠ .ended (.error (.readHello e)) ∧ pc ≠ .ended (.error (.read e)) := by
    intro e
    generalize s.server.pc = from_ at hw
    cases hw <;> simp
  cases henc : serverFrame f with
  | ok frame =>
    have hst := Server.Step.write hw henc
    refine of_run (.single (.serverWrites hst hf rfl henc) ?_ .inl rfl rfl rfl rfl) (by rfl)
      (h _ rfl)
    rintro e (hended | hended)
    · exact absurd hended (hread e).1
    · exact absurd hended (hread e).2
  | error e =>
    have hst := Server.Step.writeFails hw e.message
    have hcut : PartOf f [] := by simp [PartOf, henc]
    refine ⟨_, .single (.serverFails hst hf ⟨_, rfl⟩ rfl hcut) ?_ (fun _ => .inr ⟨f, e, hf, henc⟩)
      rfl rfl rfl rfl, .inr ⟨_, rfl⟩⟩
    rintro e (hended | hended) <;> cases hended

/-- A last frame is written. -/
lemma of_last {f : ServerMessage} {pc : Server.Pc} {context : String}
    (hw : Server.Writes cfg s.server.pc f pc context)
    (hpc : pc = .readNext ∨ ∃ r, pc = .ended r) : ComesBack cfg clientVersion debug s := by
  refine of_write hw fun client _ => ⟨_, .refl, ?_⟩
  exact hpc.imp_left fun hpc => ⟨hpc, rfl⟩

lemma of_reply {msg : ServerMessage} (hpc : s.server.pc = .reply msg) :
    ComesBack cfg clientVersion debug s := by
  have hw : Server.Writes cfg s.server.pc msg .readNext "write reply" := by
    rw [hpc]
    exact .reply msg
  exact of_last hw (.inl rfl)

omit [ToString BincodeError] in
lemma not_reads_of_stream {pc : Server.Pc} {ch : Channel} {d : Drain} (hpc : pc = .stream ch d) :
    pc ≠ .readHello ∧ pc ≠ .readNext := by
  rw [hpc]
  simp

variable {c : SlotCall} {cs : List SlotCall}

/-- What is left in the channel is written, and then the reply. -/
lemma of_tail {ch : Channel} {r : Except String InferenceResponse}
    (hpc : s.server.pc = .stream ch (.tail r)) (hcalls : s.server.calls = c :: cs) :
    ComesBack cfg clientVersion debug s := by
  induction hq : ch.queue generalizing s ch with
  | nil =>
    have hd : Drains c.result ch (.tail r) (.reply (replyOf r)) := by
      refine .drained fun ev ch' hrecv => ?_
      rw [Channel.tryRecv, hq] at hrecv
      split_ifs at hrecv
    exact of_runs (.drain hpc hcalls hd) (not_reads_of_stream hpc) (by simp) (of_reply rfl)
  | cons ev queue ih =>
    have hd : Drains c.result ch (.tail r)
        (.stream { ch with queue := queue } (.forwardTail r ev)) :=
      .tailEvent (by rw [Channel.tryRecv, hq])
    refine of_runs (.drain hpc hcalls hd) (not_reads_of_stream hpc) (by simp) ?_
    exact of_write (.tailEvent _ r ev) fun client _ => ih rfl hcalls rfl

/-- The drain loop forwards what is queued, and finds the result. -/
lemma of_poll {ch : Channel} {r : Except String InferenceResponse}
    (hpc : s.server.pc = .stream ch .poll) (hcalls : s.server.calls = c :: cs)
    (hr : c.result = some r) (htx : ch.eventTx = true) : ComesBack cfg clientVersion debug s := by
  induction hq : ch.queue generalizing s ch with
  | nil =>
    have hempty : Drains c.result ch .poll (.stream ch .check) := by
      refine .empty ?_
      rw [Channel.tryRecv, hq]
      exact if_pos (.inr htx)
    refine of_runs (.drain hpc hcalls hempty) (not_reads_of_stream hpc) (by simp) ?_
    have hfinished : Drains c.result ch .check (.stream ch (.tail r)) := .finished hr
    refine of_runs (.drain rfl hcalls hfinished) (not_reads_of_stream rfl) (by simp) ?_
    exact of_tail rfl hcalls
  | cons ev queue ih =>
    have hd : Drains c.result ch .poll (.stream { ch with queue := queue } (.forward ev)) :=
      .event (by rw [Channel.tryRecv, hq])
    refine of_runs (.drain hpc hcalls hd) (not_reads_of_stream hpc) (by simp) ?_
    exact of_write (.event _ ev) fun client _ => ih rfl hcalls htx rfl

/-- Once the slot has returned, the streaming branch comes to its end. -/
lemma of_stream {ch : Channel} {d : Drain} {r : Except String InferenceResponse}
    (hpc : s.server.pc = .stream ch d) (hcalls : s.server.calls = c :: cs)
    (hr : c.result = some r) (htx : ch.eventTx = true) : ComesBack cfg clientVersion debug s := by
  cases d with
  | poll => exact of_poll hpc hcalls hr htx
  | forward ev =>
    have hw : Server.Writes cfg s.server.pc ev.frame (.stream ch .poll) "write event" := by
      rw [hpc]
      exact .event ch ev
    exact of_write hw fun client _ => of_poll rfl hcalls hr htx
  | check =>
    have hfinished : Drains c.result ch .check (.stream ch (.tail r)) := .finished hr
    refine of_runs (.drain hpc hcalls hfinished) (not_reads_of_stream hpc) (by simp) ?_
    exact of_tail rfl hcalls
  | tail r => exact of_tail hpc hcalls
  | forwardTail r ev =>
    have hw : Server.Writes cfg s.server.pc ev.frame (.stream ch (.tail r)) "write tail event" := by
      rw [hpc]
      exact .tailEvent ch r ev
    exact of_write hw fun client _ => of_tail rfl hcalls

/-- A handler that is not reading finishes what it does, whatever the slot returns. -/
lemma of_at (debug : ServerMessage → String) (hat : Server.At cfg s.server s.server.pc)
    (hpc : s.server.pc ≠ .readHello ∧ s.server.pc ≠ .readNext) :
    ComesBack cfg clientVersion debug s := by
  cases h : s.server.pc with
  | readHello => exact absurd h hpc.1
  | readNext => exact absurd h hpc.2
  | ended r => exact ⟨s, .refl, .inr ⟨r, h⟩⟩
  | refuse v =>
    have hf : s.server.pc.frame cfg = some (.inferenceError (versionMismatch v)) := by
      rw [h]
      rfl
    cases henc : serverFrame (.inferenceError (versionMismatch v)) with
    | ok frame =>
      refine ⟨_, .single (.serverWrites (.refuse h) hf rfl henc) ?_ .inl rfl rfl rfl rfl,
        .inr ⟨_, rfl⟩⟩
      rintro e (hended | hended) <;> cases hended
    | error e =>
      have hcut : PartOf (.inferenceError (versionMismatch v)) [] := by simp [PartOf, henc]
      refine ⟨_, .single (.serverFails (.refuseFails h) hf ⟨_, rfl⟩ rfl hcut) ?_
        (fun _ => .inr ⟨_, e, hf, henc⟩) rfl rfl rfl rfl, .inr ⟨_, rfl⟩⟩
      rintro e (hended | hended) <;> cases hended
  | writeHello =>
    have hw : Server.Writes cfg s.server.pc (helloFrame cfg) .readNext "write hello" := by
      rw [h]
      exact .hello
    exact of_last hw (.inl rfl)
  | goodbye =>
    have hw : Server.Writes cfg s.server.pc .goodbye (.ended (.ok ())) "write goodbye" := by
      rw [h]
      exact .goodbye
    exact of_last hw (.inr ⟨_, rfl⟩)
  | reply msg => exact of_reply h
  | run =>
    rw [h] at hat
    obtain ⟨c, ⟨cs, hcalls, -⟩, -⟩ := hat
    refine of_runs (.runReturns h hcalls (.error "")) hpc (by simp) ?_
    exact of_reply rfl
  | stream ch d =>
    rw [h] at hat
    obtain ⟨c, out, ⟨cs, hcalls, -⟩, -, htx, -⟩ := hat
    cases hr : c.result with
    | some r => exact of_stream h hcalls hr htx
    | none =>
      refine of_runs (.finish h hcalls hr (.error "")) hpc (by simp) ?_
      exact of_stream rfl rfl rfl htx

end ComesBack

/-! ### All messages -/

omit [ToString BincodeError] in
/-- Only a failed read ends a handler so. -/
lemma read_message_ne {server : Server.State} (m : ClientMessage) (e : String)
    (hpc : server.pc = .readHello ∨ server.pc = .readNext) :
    (server.read (.message m)).pc ≠ .ended (.error (.readHello e)) ∧
      (server.read (.message m)).pc ≠ .ended (.error (.read e)) := by
  rw [Server.State.read]
  rcases hpc with hpc | hpc <;> rw [hpc]
  · cases m with
    | hello v =>
      simp only [afterFirst]
      split_ifs <;> simp
    | inference | cancel | shutdown => simp [afterFirst]
  · cases m with
    | inference req =>
      simp only [afterNext]
      split_ifs <;> simp
    | hello | cancel | shutdown => simp [afterNext]

/-- The handler takes the next message on its way. -/
lemma exists_read (debug : ServerMessage → String) (hinv : Inv cfg clientVersion s)
    (hpc : s.server.pc = .readHello ∨ s.server.pc = .readNext) {m : ClientMessage}
    {later : List ClientMessage} (hsent : s.sent = s.server.received ++ m :: later) :
    ∃ t, ServerRun cfg clientVersion debug s t ∧ t.server.received = s.server.received ++ [m] := by
  have hpc' : ∀ r, s.server.pc ≠ .ended r := by
    rintro r hr
    rw [hr] at hpc
    rcases hpc with hpc | hpc <;> cases hpc
  obtain ⟨later', hsent', hup⟩ := hinv.carries hpc'
  obtain rfl := List.append_cancel_left (hsent'.symm.trans hsent)
  obtain ⟨n, hnext, -⟩ := hup.next_cons
  have hmeets : s.Meets (Source.arrived s.up false) [] :=
    ⟨by simp, fun heof => by simp at heof⟩
  have hread : Server.Framed.readFrameAsync (Bincode.deserialize ClientMessage.format)
      (Source.arrived s.up false) = some (.ok (some m), Source.arrived (s.up.drop n) false) :=
    Framed.readFrameAsync_arrived hnext false
  refine ⟨_, .single (.serverReads hpc hmeets hread) ?_ (fun hfailed => .inl ?_) rfl rfl rfl rfl,
    ?_⟩
  · rintro e (hended | hended)
    · exact absurd hended (read_message_ne m e hpc).1
    · exact absurd hended (read_message_ne m e hpc).2
  · have hsame :
        (s.server.read (readResult (.ok (some m)))).writeFailed = s.server.writeFailed := by
      rw [Server.State.read]
      split <;> rfl
    exact hsame.symm.trans hfailed
  · exact received_read _ _

lemma ServerRun.reachable (h : ServerRun cfg clientVersion debug s t)
    (hs : (link cfg clientVersion debug).Reachable s) :
    (link cfg clientVersion debug).Reachable t := hs.steps (steps_of_smooth h.steps)

/-- By itself the handler gets to its next read, or ends. -/
lemma exists_reading (h : (link cfg clientVersion debug).Reachable s) :
    ∃ t, ServerRun cfg clientVersion debug s t ∧
      ((t.server.pc = .readHello ∨ t.server.pc = .readNext) ∧
        t.server.received = s.server.received ∨ ∃ r, t.server.pc = .ended r) := by
  by_cases hpc : s.server.pc = .readHello ∨ s.server.pc = .readNext
  · exact ⟨s, .refl, .inl ⟨hpc, rfl⟩⟩
  · have hat := (Server.inv_of_reachable (inv_of_reachable h).server).at_pc
    obtain ⟨t, ht, hend⟩ := ComesBack.of_at debug hat (not_or.mp hpc)
    exact ⟨t, ht, hend.imp_left fun ⟨hpc, hreceived⟩ => ⟨.inr hpc, hreceived⟩⟩

/-- By itself the handler takes all messages on its way, or ends. -/
lemma exists_settled (h : (link cfg clientVersion debug).Reachable s) (hsome : s.sent ≠ []) :
    ∃ t, ServerRun cfg clientVersion debug s t ∧
      ((t.server.pc = .readNext ∧ t.server.received = t.sent) ∨ ∃ r, t.server.pc = .ended r) := by
  obtain ⟨later, hsent, -⟩ := (inv_of_reachable h).wire
  induction later generalizing s with
  | nil =>
    obtain ⟨t, ht, ⟨hpc, hreceived⟩ | hended⟩ := exists_reading h
    · refine ⟨t, ht, .inl ⟨hpc.resolve_left fun hpc => ?_, ?_⟩⟩
      · -- before the first read, nothing has been received
        have hat := (Server.inv_of_reachable (inv_of_reachable (ht.reachable h)).server).at_pc
        rw [hpc] at hat
        rw [hsent, ← hreceived, hat.1] at hsome
        exact hsome rfl
      · rw [ht.sent, hsent, hreceived, List.append_nil]
    · exact ⟨t, ht, .inr hended⟩
  | cons m later ih =>
    obtain ⟨t, ht, ⟨hpc, hreceived⟩ | hended⟩ := exists_reading h
    · have hsent' : t.sent = t.server.received ++ m :: later := by
        rw [ht.sent, hsent, hreceived]
      have hreachable := ht.reachable h
      obtain ⟨u, hu, hnext⟩ := exists_read debug (inv_of_reachable hreachable) hpc hsent'
      have hrest : u.sent = u.server.received ++ later := by
        rw [hu.sent, hsent', hnext, List.append_assoc]
        rfl
      obtain ⟨v, hv, hend⟩ := ih (hu.reachable hreachable) (by rwa [hu.sent, ht.sent]) hrest
      exact ⟨v, (ht.trans hu).trans hv, hend⟩
    · exact ⟨t, ht, .inr hended⟩

omit [ToString BincodeError] in
lemma countP_frames {cs : List SlotCall} (h : Server.Returned cs) :
    (cs.flatMap SlotCall.frames).countP ServerMessage.isTerminal = cs.length := by
  induction cs with
  | nil => rfl
  | cons c cs ih =>
    obtain ⟨hc, hcs⟩ := List.forall_mem_cons.mp h
    obtain ⟨r, hr⟩ := Option.isSome_iff_exists.mp hc
    have hevents : (c.accepted.map SlotEvent.frame).countP ServerMessage.isTerminal = 0 := by
      simp [List.countP_eq_zero]
    rw [List.flatMap_cons, List.countP_append, ih hcs, SlotCall.frames, List.countP_append, hevents,
      hr, List.length_cons]
    simp [Nat.add_comm]

/-- When all messages are served, every request has been answered. -/
lemma unanswered_eq_nil (hsession : Session s) (hserver : (handleClient cfg).Reachable s.server)
    (hpc : s.server.pc = .readNext) (hreceived : s.server.received = s.sent) :
    s.client.unanswered = [] := by
  have hat := (Server.inv_of_reachable hserver).at_pc
  rw [hpc] at hat
  obtain ⟨hreturned, rest, -, hin⟩ := hat
  have hrecord : s.client.unanswered =
      s.asked.drop ((callFrames s.server.calls).countP ServerMessage.isTerminal) := by
    have hfold := congrArg Record.unanswered hsession.record
    rw [hin.written, List.tail_cons, Record.unanswered_foldl] at hfold
    exact hfold
  have hasked : s.asked.length = s.server.calls.length := by
    have hlen := hsession.asked.length_eq
    rw [← hreceived, hin.received, List.filterMap_cons_none rfl, ← hin.invoked] at hlen
    simpa using hlen
  rw [hrecord, callFrames, countP_frames fun c hc => hreturned c (List.mem_reverse.mp hc),
    List.length_reverse, hasked.symm, List.drop_length]

end Link

end ModelApi
