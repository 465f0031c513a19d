import ModelApi.Link.Invariant

/-!
# Runs of a client and a handler

Every step of the two keeps the invariant, so it holds in every run, from the opened socket on.
-/

namespace ModelApi.Link

open Lib Client Server

variable {cfg : Server.Config} {clientVersion : UInt32} {debug : ServerMessage → String}

/-! ### The handshake -/

/-- The frame that answers a `Hello`. -/
def answerTo (cfg : Server.Config) (clientVersion : UInt32) : ServerMessage :=
  if clientVersion = PROTOCOL_VERSION then helloFrame cfg
  else .inferenceError (versionMismatch clientVersion)

/-- Behind a `Hello`, the handler writes one frame at most. -/
lemma written_of_greeting {server : Server.State} (h : (handleClient cfg).Reachable server)
    {later : List ClientMessage} (hsent : [.hello clientVersion] = server.received ++ later) :
    server.written = [] ∨ server.written = [answerTo cfg clientVersion] := by
  have hcore := (Server.inv_of_reachable h).at_pc.core
  have hword := hcore.written_prefix
  have hword' : server.word cfg <+: [answerTo cfg clientVersion] := by
    cases hreceived : server.received with
    | nil =>
      simp only [Server.State.word, hreceived]
      exact List.nil_prefix
    | cons m rest =>
      rw [hreceived, List.cons_append, List.cons.injEq] at hsent
      obtain ⟨rfl, hnil⟩ := hsent
      obtain ⟨rfl, -⟩ := List.append_eq_nil_iff.mp hnil.symm
      have hcalls : server.calls = [] := by
        have hinvoked := hcore.invoked
        simp only [Server.State.processed, hreceived, List.filterMap_nil, ite_self] at hinvoked
        simpa using hinvoked
      simp only [Server.State.word, hreceived, answerTo, hcalls, List.not_mem_nil, if_false]
      split_ifs <;> simp
  rcases hwritten : server.written with _ | ⟨f, written⟩
  · exact .inl rfl
  · rw [hwritten] at hword
    obtain ⟨rfl, hnil⟩ := List.cons_prefix_cons.mp (hword.trans hword')
    rw [List.prefix_nil.mp hnil]
    exact .inr rfl

variable {s : State}

lemma State.Silent.deliver (h : s.Silent) (f : ServerMessage) (frame : List UInt8)
    (server : Server.State) :
    State.Silent { s with client := s.client.deliver f frame, server := server } := by
  obtain ⟨hasked, hclient⟩ := h
  refine ⟨hasked, ?_⟩
  have hnil : s.client.record.unanswered = [] := by
    rw [hclient]
    rfl
  simp only [Client.State.deliver, Record.deliver_of_nil hnil]
  rw [hclient]
  rfl

lemma State.Silent.setInbound (h : s.Silent) (inbound : List UInt8) (closed : Bool) :
    State.Silent { s with client := { s.client with inbound := inbound, closed := closed } } := by
  obtain ⟨hasked, hclient⟩ := h
  refine ⟨hasked, ?_⟩
  show ({ s.client with inbound := inbound, closed := closed } : Client.State) = _
  rw [hclient]

section Steps

variable [ToString BincodeError]

/-- The first frame on its way to the client is what `connect` reads. -/
lemma message_of_carries {client : Client.State} {src src' : Source IoError} {rest : List UInt8}
    {msgs : List ServerMessage} (h : Carries serverNext client.inbound client.closed msgs)
    (hmeets : Client.Meets client src rest) {msg : ServerMessage}
    (hread : readServerFrame src = some (.ok (some msg), src')) :
    ∃ msgs', msgs = msg :: msgs' ∧
      Carries serverNext (src'.bytes ++ rest) client.closed msgs' := by
  obtain ⟨n, hnext, hn, hdrop⟩ := readFrame_eq_message hread
  rw [hmeets.bytes] at h
  rw [hdrop]
  exact h.take decided_serverNext hnext hn

omit [ToString BincodeError] in
lemma Refusal.of_io (context : String) : Refusal clientVersion (.io context) := ⟨nofun, nofun⟩

/-- The answer to `Hello` completes the handshake, or refuses the version. -/
lemma Inv.welcome (h : Inv cfg clientVersion s) (debug : ServerMessage → String)
    (hphase : s.phase = .greeting) {src src' : Source IoError} {rest : List UInt8}
    {result : Except ClientError (Option ServerMessage)} (hmeets : Client.Meets s.client src rest)
    (hread : readServerFrame src = some (result, src')) :
    Talk cfg clientVersion { s with
      phase := welcomed clientVersion debug result
      client := { s.client with inbound := src'.bytes ++ rest }
      upClosed := (welcomed clientVersion debug result).isFailed }
      (welcomed clientVersion debug result) := by
  have htalk := h.talk
  rw [hphase] at htalk
  obtain ⟨hsent, -, hsilent, hcarries⟩ := htalk
  have hfailed : ∀ e, Refusal clientVersion e → ∀ upClosed, Talk cfg clientVersion { s with
      phase := .failed e
      client := { s.client with inbound := src'.bytes ++ rest }
      upClosed := upClosed } (.failed e) :=
    fun e he _ => ⟨.inr hsent, hsilent.setInbound _ s.client.closed, he⟩
  rcases result with e | _ | msg
  · obtain ⟨context, rfl⟩ := readFrame_error hread
    exact hfailed _ (.of_io context) _
  · exact hfailed .disconnected ⟨nofun, nofun⟩ _
  · obtain ⟨msgs, hwritten, hrest⟩ := message_of_carries hcarries hmeets hread
    obtain ⟨later, hlater, -⟩ := h.wire
    rw [hsent] at hlater
    rcases written_of_greeting h.server hlater with hnil | hone
    · rw [hnil] at hwritten
      cases hwritten
    · rw [hone] at hwritten
      obtain ⟨rfl, rfl⟩ := List.cons.inj hwritten
      by_cases hv : clientVersion = PROTOCOL_VERSION
      · have hanswer : answerTo cfg clientVersion = helloFrame cfg := if_pos hv
        have hwelcome : welcomed clientVersion debug (.ok (some (helloFrame cfg))) =
            .connected ⟨PROTOCOL_VERSION, cfg.modelName, cfg.gpuMemoryMb⟩ := by
          simp only [helloFrame, welcomed, hv, ne_eq, not_true, if_false]
        rw [hanswer, hwelcome]
        refine ⟨hv, rfl, by rw [hsent]; rfl, ?_⟩
        obtain ⟨hasked, hclient⟩ := hsilent.setInbound (src'.bytes ++ rest) s.client.closed
        refine ⟨?_, ?_, ?_, ?_, ?_, ?_⟩
        · show Client.Inv ({ s.client with inbound := src'.bytes ++ rest } : Client.State)
          rw [show ({ s.client with inbound := src'.bytes ++ rest } : Client.State) = _
            from hclient]
          exact .greeted hrest
        · show Heard ({ s.client with inbound := src'.bytes ++ rest } : Client.State)
          rw [show ({ s.client with inbound := src'.bytes ++ rest } : Client.State) = _
            from hclient]
          intro i c r hi
          cases hi
        · show s.asked.Nodup
          rw [hsilent.1]
          exact List.nodup_nil
        · show List.Forall₂ _ s.asked (s.sent.filterMap inferenceOf)
          rw [hsilent.1, hsent]
          exact .nil
        · show s.server.written ≠ []
          rw [hone]
          exact List.cons_ne_nil _ _
        · show s.client.record = s.server.written.tail.foldl _ (.start s.asked)
          rw [hone, hsilent.1, hsilent.2]
          rfl
      · have hanswer : answerTo cfg clientVersion =
            .inferenceError (versionMismatch clientVersion) := if_neg hv
        rw [hanswer]
        refine hfailed (.server _) ⟨fun message hmessage => ?_, fun server client he => ?_⟩ _
        · cases hmessage
          exact ⟨hv, rfl⟩
        · cases he

/-! ### The other steps -/

namespace Talk

variable {p : Phase} {server : Server.State}

/-- The handler moves on without writing. -/
lemma congr (h : Talk cfg clientVersion s p) (up : List UInt8)
    (hwritten : server.written = s.server.written) :
    Talk cfg clientVersion { s with up := up, server := server } p := by
  cases p with
  | start =>
    obtain ⟨hsent, hopen, hsilent, hcarries⟩ := h
    exact ⟨hsent, hopen, hsilent, by rwa [hwritten]⟩
  | greeting =>
    obtain ⟨hsent, hopen, hsilent, hcarries⟩ := h
    exact ⟨hsent, hopen, hsilent, by rwa [hwritten]⟩
  | connected info =>
    obtain ⟨hv, hinfo, hhead, hsession⟩ := h
    exact ⟨hv, hinfo, hhead, hsession.congr rfl rfl rfl hwritten⟩
  | failed e => exact h

/-- The handler writes a frame. -/
lemma write (h : Talk cfg clientVersion s p) (hserver : (handleClient cfg).Reachable server)
    {later : List ClientMessage} (hsent : s.sent = server.received ++ later)
    (hopen : s.client.closed = false) {f : ServerMessage} {frame : List UInt8}
    (hwritten : server.written = s.server.written ++ [f]) (henc : serverFrame f = .ok frame) :
    Talk cfg clientVersion { s with client := s.client.deliver f frame, server := server } p := by
  have hcarries : Carries serverNext s.client.inbound s.client.closed s.server.written →
      Carries serverNext (s.client.inbound ++ frame) s.client.closed server.written := by
    intro hcarries
    rw [hopen] at hcarries ⊢
    rw [hwritten]
    exact hcarries.append (frameOf_serverFrame henc) Framed.tryDecode_nil
  cases p with
  | start =>
    obtain ⟨hnone, hup, hsilent, hdown⟩ := h
    exact ⟨hnone, hup, hsilent.deliver f frame server, hcarries hdown⟩
  | greeting =>
    obtain ⟨hone, hup, hsilent, hdown⟩ := h
    exact ⟨hone, hup, hsilent.deliver f frame server, hcarries hdown⟩
  | connected info =>
    obtain ⟨hv, hinfo, hhead, hsession⟩ := h
    refine ⟨hv, hinfo, hhead, ?_⟩
    rw [hv] at hhead
    exact hsession.deliver (serves_of_reachable hserver hsent) hhead hopen hwritten henc
  | failed e =>
    obtain ⟨hsent, hsilent, he⟩ := h
    exact ⟨hsent, hsilent.deliver f frame server, he⟩

/-- The handler hangs up. -/
lemma hangUp (h : Talk cfg clientVersion s p) (hopen : s.client.closed = false)
    {f : ServerMessage} {cut : List UInt8} (hcut : PartOf f cut) :
    Talk cfg clientVersion { s with
      client := { s.client with inbound := s.client.inbound ++ cut, closed := true } } p := by
  have hcarries : Carries serverNext s.client.inbound s.client.closed s.server.written →
      Carries serverNext (s.client.inbound ++ cut) true s.server.written := by
    intro hcarries
    rw [PartOf] at hcut
    cases henc : serverFrame f with
    | ok frame =>
      rw [henc] at hcut
      rw [hopen] at hcarries
      exact hcarries.close (frameOf_serverFrame henc) hcut.1 hcut.2
    | error e =>
      rw [henc] at hcut
      obtain rfl := hcut
      rw [List.append_nil]
      exact hcarries.hangUp
  cases p with
  | start =>
    obtain ⟨hnone, hup, hsilent, hdown⟩ := h
    exact ⟨hnone, hup, hsilent.setInbound _ _, hcarries hdown⟩
  | greeting =>
    obtain ⟨hone, hup, hsilent, hdown⟩ := h
    exact ⟨hone, hup, hsilent.setInbound _ _, hcarries hdown⟩
  | connected info =>
    obtain ⟨hv, hinfo, hhead, hsession⟩ := h
    have hclean : Client.Label.Clean .tau := trivial
    exact ⟨hv, hinfo, hhead, hsession.step hclean (Client.Step.hangUp hopen hcut) rfl⟩
  | failed e =>
    obtain ⟨hsent, hsilent, he⟩ := h
    exact ⟨hsent, hsilent.setInbound _ _, he⟩

end Talk

lemma Inv.init : Inv cfg clientVersion State.init where
  server := .of_init rfl
  wire := ⟨[], rfl, .inr (.nil Framed.tryDecode_nil)⟩
  closed h := by cases h
  talk := ⟨rfl, rfl, ⟨rfl, rfl⟩, .nil Framed.tryDecode_nil⟩

/-- The bytes on their way while the handler has not ended. -/
lemma Inv.carries (h : Inv cfg clientVersion s) (hpc : ∀ r, s.server.pc ≠ .ended r) :
    ∃ later, s.sent = s.server.received ++ later ∧
      Carries clientNext s.up s.upClosed later := by
  obtain ⟨later, hsent, hup⟩ := h.wire
  exact ⟨later, hsent, hup.resolve_left fun ⟨r, hr⟩ => hpc r hr⟩

lemma Inv.open (h : Inv cfg clientVersion s) (hpc : ∀ r, s.server.pc ≠ .ended r) :
    s.client.closed = false := by
  by_contra hclosed
  obtain ⟨r, hr⟩ := h.closed (by simpa using hclosed)
  exact hpc r hr

/-- The handler reads. -/
lemma Inv.serverReads (h : Inv cfg clientVersion s)
    (hpc : s.server.pc = .readHello ∨ s.server.pc = .readNext) {src src' : Source IoError}
    {rest : List UInt8} (hmeets : s.Meets src rest)
    {result : Except IoError (Option ClientMessage)}
    (hread : Server.Framed.readFrameAsync (Bincode.deserialize ClientMessage.format) src =
      some (result, src')) :
    Inv cfg clientVersion { s with
      up := src'.bytes ++ rest, server := s.server.read (readResult result) } where
  server := h.server.step (step_read hpc _)
  wire := by
    have hpc' : ∀ r, s.server.pc ≠ .ended r := by
      rintro r hr
      rw [hr] at hpc
      rcases hpc with hpc | hpc <;> cases hpc
    obtain ⟨later, hsent, hup⟩ := h.carries hpc'
    have hended : (∀ m, readResult result ≠ .message m) → ∃ later,
        s.sent = (s.server.read (readResult result)).received ++ later ∧
          ((∃ r, (s.server.read (readResult result)).pc = .ended r) ∨
            Carries clientNext (src'.bytes ++ rest) s.upClosed later) := by
      intro hr
      have hnil : (readResult result).messages = [] := by
        cases hresult : readResult result with
        | message m => exact absurd hresult (hr m)
        | eof | error => rfl
      refine ⟨later, ?_, .inl (ended_of_read hpc hr)⟩
      rw [received_read, hnil, List.append_nil, hsent]
    rcases result with e | found
    · exact hended fun m hm => by cases hm
    · rcases hmeets.read hup hread with ⟨m, later', rfl, rfl, hrest⟩ | ⟨rfl, -, -⟩
      · refine ⟨later', ?_, .inr hrest⟩
        rw [received_read, hsent, List.append_assoc]
        rfl
      · exact hended fun m hm => by cases hm
  closed hclosed := by
    obtain ⟨r, hr⟩ := h.closed hclosed
    rw [hr] at hpc
    rcases hpc with hpc | hpc <;> cases hpc
  talk := h.talk.congr _ (written_read _ _)

/-- The handler makes a step that is no read, in which the client is told nothing or all. -/
lemma Inv.serverStep (h : Inv cfg clientVersion s) {server : Server.State}
    (hst : Server.Step cfg s.server server)
    (hpc : s.server.pc ≠ .readHello ∧ s.server.pc ≠ .readNext) {client : Client.State}
    (hclosed : client.closed = true → ∃ r, server.pc = .ended r)
    (htalk : Talk cfg clientVersion { s with client := client, server := server } s.phase) :
    Inv cfg clientVersion { s with client := client, server := server } where
  server := h.server.step hst
  wire := by
    obtain ⟨later, hsent, hup⟩ := h.carries fun r hr => not_step_of_ended hr hst
    refine ⟨later, ?_, .inr hup⟩
    rw [received_of_step hst hpc]
    exact hsent
  closed := hclosed
  talk := htalk

lemma Inv.step {t : State} (h : Inv cfg clientVersion s)
    (hst : Step cfg clientVersion debug s t) : Inv cfg clientVersion t := by
  have htalk := h.talk
  have hopen : ∀ {server : Server.State}, Server.Step cfg s.server server →
      s.client.closed = false := fun hst => h.open fun r hr => not_step_of_ended hr hst
  obtain ⟨later, hsent, hup⟩ := h.wire
  cases hst with
  | @hello frame hphase henc =>
    rw [hphase] at htalk
    obtain ⟨hnone, hupOpen, hsilent, hcarries⟩ := htalk
    refine ⟨h.server, ⟨later ++ [.hello clientVersion], ?_, hup.imp_right fun hup => ?_⟩, h.closed,
      ?_, hupOpen, hsilent, hcarries⟩
    · rw [hsent, List.append_assoc]
    · rw [hupOpen] at hup ⊢
      exact hup.append (frameOf_clientFrame henc) Framed.tryDecode_nil
    · rw [hnone]
      rfl
  | @helloFails frame cut e hphase henc hcut hne =>
    rw [hphase] at htalk
    obtain ⟨hnone, hupOpen, hsilent, hcarries⟩ := htalk
    refine ⟨h.server, ⟨later, hsent, hup.imp_right fun hup => ?_⟩, h.closed, .inl hnone, hsilent,
      .of_io _⟩
    rw [hupOpen] at hup
    exact hup.close (frameOf_clientFrame henc) hcut hne
  | @welcome src src' rest result hphase hmeets hread =>
    have hwelcome := h.welcome debug hphase hmeets hread
    rw [hphase] at htalk
    obtain ⟨-, hupOpen, -, -⟩ := htalk
    refine ⟨h.server, ⟨later, hsent, hup.imp_right fun hup => ?_⟩, h.closed, hwelcome⟩
    cases hfailed : (welcomed clientVersion debug result).isFailed with
    | true => exact hup.hangUp
    | false => rwa [hupOpen] at hup
  | @call info l client hphase hupOpen hclean hclient hquiet =>
    rw [hphase] at htalk
    obtain ⟨hv, hinfo, hhead, hsession⟩ := htalk
    refine ⟨h.server, ⟨later, hsent, hup⟩, ?_, ?_⟩
    · rw [hquiet.closed]
      exact h.closed
    · show Talk cfg clientVersion { s with client := client } s.phase
      rw [hphase]
      have hcalled := hsession.step hclean hclient (hquiet.record_eq hclient)
      exact ⟨hv, hinfo, hhead, hcalled.congr rfl rfl rfl rfl⟩
  | @write info i c frame hphase hupOpen hi hpc henc =>
    rw [hphase] at htalk
    obtain ⟨hv, hinfo, hhead, hsession⟩ := htalk
    refine ⟨h.server, ⟨later ++ [c.op.message], ?_, hup.imp_right fun hup => ?_⟩, ?_, ?_⟩
    · rw [hsent, List.append_assoc]
    · rw [hupOpen] at hup ⊢
      exact hup.append (frameOf_clientFrame henc) Framed.tryDecode_nil
    · rw [State.closed_wrote]
      exact h.closed
    · show Talk cfg clientVersion _ s.phase
      rw [hphase]
      refine ⟨hv, hinfo, ?_, ?_⟩
      · show (s.sent ++ [c.op.message]).head? = _
        rw [List.head?_append, hhead]
        rfl
      · rw [hv] at hhead
        have hwritten := hsession.write (serves_of_reachable h.server hsent) hhead hi hpc henc
        exact (hwritten (s.up ++ frame)).congr rfl rfl rfl rfl
  | @drop info hphase hdone =>
    rw [hphase] at htalk
    obtain ⟨hv, hinfo, hhead, hsession⟩ := htalk
    refine ⟨h.server, ⟨later, hsent, hup.imp_right Carries.hangUp⟩, h.closed, ?_⟩
    show Talk cfg clientVersion _ s.phase
    rw [hphase]
    exact ⟨hv, hinfo, hhead, hsession.congr rfl rfl rfl rfl⟩
  | serverReads hpc hmeets hread => exact h.serverReads hpc hmeets hread
  | serverRuns hserver hpc hwritten =>
    refine h.serverStep hserver hpc (fun hclosed => ?_) (htalk.congr s.up hwritten)
    rw [hopen hserver] at hclosed
    cases hclosed
  | serverWrites hserver hf hwritten henc =>
    have hpc := (not_reads_of_frame hf).1
    refine h.serverStep hserver hpc (fun hclosed => ?_) ?_
    · rw [show (s.client.deliver _ _).closed = s.client.closed from rfl, hopen hserver] at hclosed
      cases hclosed
    · have hsent' := hsent
      rw [← received_of_step hserver hpc] at hsent'
      exact htalk.write (h.server.step hserver) hsent' (hopen hserver) hwritten henc
  | serverFails hserver hf hended hwritten hcut =>
    refine h.serverStep hserver (not_reads_of_frame hf).1 (fun _ => hended) ?_
    exact (htalk.hangUp (hopen hserver) hcut).congr s.up hwritten
  | serverDrops hclosed hended =>
    refine ⟨h.server, ⟨later, hsent, hup⟩, fun _ => hended, ?_⟩
    have hnothing : PartOf .goodbye [] := ⟨List.nil_prefix, nofun⟩
    have hdropped := htalk.hangUp hclosed hnothing
    rwa [List.append_nil] at hdropped

lemma inv_of_reachable (h : (link cfg clientVersion debug).Reachable s) :
    Inv cfg clientVersion s := by
  refine h.invariant ?_ ?_
  · rintro _ rfl
    exact .init
  · exact fun _ _ hst hs => hs.step hst

/-! ### What the client has sent -/

/-- `Hello` comes first. -/
lemma Inv.head_sent (h : Inv cfg clientVersion s) {m : ClientMessage} {later : List ClientMessage}
    (hsent : s.sent = m :: later) : m = .hello clientVersion := by
  have htalk := h.talk
  cases hphase : s.phase with
  | start =>
    rw [hphase] at htalk
    rw [htalk.1] at hsent
    cases hsent
  | greeting =>
    rw [hphase] at htalk
    rw [htalk.1] at hsent
    exact (List.cons.inj hsent).1.symm
  | connected info =>
    rw [hphase] at htalk
    have hhead := htalk.2.2.1
    rw [hsent] at hhead
    exact Option.some.inj hhead
  | failed e =>
    rw [hphase] at htalk
    rcases htalk.1 with hnone | hone
    · rw [hnone] at hsent
      cases hsent
    · rw [hone] at hsent
      exact (List.cons.inj hsent).1.symm

/-- Nothing is asked of a handler of another version. -/
lemma Inv.silent (h : Inv cfg clientVersion s) (hv : clientVersion ≠ PROTOCOL_VERSION) :
    s.Silent ∧ s.sent.filterMap inferenceOf = [] := by
  have htalk := h.talk
  cases hphase : s.phase with
  | start =>
    rw [hphase] at htalk
    exact ⟨htalk.2.2.1, by rw [htalk.1]; rfl⟩
  | greeting =>
    rw [hphase] at htalk
    exact ⟨htalk.2.2.1, by rw [htalk.1]; rfl⟩
  | connected info =>
    rw [hphase] at htalk
    exact absurd htalk.1 hv
  | failed e =>
    rw [hphase] at htalk
    obtain ⟨hsent | hsent, hsilent, -⟩ := htalk <;> exact ⟨hsilent, by rw [hsent]; rfl⟩

end Steps

/-! ### A run -/

/-- The source that holds a frame. -/
def sourceOf : Except IoError (List UInt8) → Source IoError
  | .ok (b :: bs)       => ⟨[.data b bs], false⟩
  | .ok [] | .error _   => ⟨[], false⟩

def demoRequest : InferenceRequest :=
  { InferenceRequest.plain .stateless [] with input := .text "hi" }

def demoOp : Client.Op := .inference demoRequest

/-- The client whose call has entered the method. -/
def demoEntered : Client.State := Client.State.init.setCall 0 ⟨demoOp, .entered, []⟩

def demoHolding : Client.State :=
  { demoEntered.setCall 0 ⟨demoOp, .holding, []⟩ with lock := some 0 }

def demoReading : Client.State :=
  { demoHolding.setCall 0 ⟨demoOp, .reading, []⟩ with unanswered := [0] }

/-- The handler behind the handshake. -/
def demoServer (pc : Server.Pc) (rest : List ClientMessage) (calls : List SlotCall)
    (body : List ServerMessage) : Server.State :=
  ⟨pc, .hello PROTOCOL_VERSION :: rest, calls, helloFrame demoConfig :: body, false⟩

def demoState (client : Client.State) (up : List UInt8) (server : Server.State)
    (requests : List ClientMessage) (asked : List ℕ) : State :=
  ⟨.connected ⟨PROTOCOL_VERSION, "demo", none⟩, client, up, false, server,
    .hello PROTOCOL_VERSION :: requests, asked⟩

lemma demo_quiet {s t : Client.State} (s₀ : Client.State) (pc : Client.Pc)
    (hcalls : s.calls = (s₀.setCall 0 ⟨demoOp, pc, []⟩).calls)
    (hnone : ∀ i, i ≠ 0 → s₀.calls i = none) (hpc : pc ≠ .holding)
    (hinbound : t.inbound <:+ s.inbound) (hclosed : t.closed = s.closed) : Quiet s t := by
  refine ⟨hinbound, hclosed, fun i d hi hpd => ?_⟩
  rw [hcalls] at hi
  rcases State.setCall_cases hi with ⟨rfl, rfl⟩ | ⟨hi0, hi⟩
  · exact absurd hpd hpc
  · rw [hnone i hi0] at hi
    cases hi

/-- A client connects and calls, and the handler has read its request. -/
lemma demo_reading : (@link demoText demoConfig PROTOCOL_VERSION fun _ => "").Reachable
    (demoState demoReading [] (demoServer .run [demoOp.message]
      [⟨demoRequest, [], none⟩] []) [demoOp.message] [0]) := by
  let _ := demoText
  let Reaches := (link demoConfig PROTOCOL_VERSION fun _ => "").Reachable
  have h0 : Reaches State.init := .of_init rfl
  have h1 := h0.step (.hello rfl rfl)
  have h2 := h1.step (.serverReads (.inl rfl) (show State.Meets _
    (sourceOf (clientFrame (.hello PROTOCOL_VERSION))) [] from ⟨rfl, fun h => by cases h⟩) rfl)
  have h3 := h2.step (.serverWrites (.write .hello rfl) rfl rfl rfl)
  have h4 : Reaches (demoState Client.State.init [] (demoServer .readNext [] [] []) [] []) :=
    h3.step (.welcome rfl (show Client.Meets _
      (sourceOf (serverFrame (helloFrame demoConfig))) [] from ⟨rfl, fun h => by cases h⟩) rfl)
  have h5 : Reaches (demoState demoEntered [] (demoServer .readNext [] [] []) [] []) :=
    h4.step (.call (l := .tau) rfl rfl trivial (.call 0 demoOp rfl)
      ⟨List.suffix_refl _, rfl, fun i c hi => by cases hi⟩)
  have h6 : Reaches (demoState demoHolding [] (demoServer .readNext [] [] []) [] []) :=
    h5.step (.call (l := .tau) rfl rfl trivial
      (.lock (s := demoEntered) (i := 0) (c := ⟨demoOp, .entered, []⟩) rfl rfl rfl rfl)
      (demo_quiet Client.State.init .entered rfl (fun _ _ => rfl) (by simp) (List.suffix_refl _)
        rfl))
  have h7 := h6.step (.write (i := 0) rfl rfl rfl rfl rfl)
  exact h7.step (.serverReads (.inr rfl) (show State.Meets _
    (sourceOf (clientFrame demoOp.message)) [] from ⟨rfl, fun h => by cases h⟩) rfl)

/-- What the call reads ends it. -/
lemma demo_quiet_reading {s t : Client.State} (hcalls : s.calls = demoReading.calls)
    (hinbound : t.inbound = []) (hclosed : t.closed = s.closed) : Quiet s t := by
  refine demo_quiet demoHolding .reading hcalls (fun i hi => ?_) (by simp) ?_ hclosed
  · exact (Function.update_of_ne hi ..).trans (Function.update_of_ne hi ..)
  · rw [hinbound]
    exact List.nil_suffix

/-- The slot fails, and the call returns its error. -/
lemma demo_answered : ∃ s, (@link demoText demoConfig PROTOCOL_VERSION fun _ => "").Reachable s ∧
    s.phase = .connected ⟨PROTOCOL_VERSION, "demo", none⟩ ∧
    s.client.calls 0 = some ⟨demoOp, .done (.error (.server "no")), []⟩ := by
  let _ := demoText
  have h9 := demo_reading.step (.serverRuns (.runReturns rfl rfl (.error "no"))
    ⟨by simp [demoState, demoServer], by simp [demoState, demoServer]⟩ rfl rfl)
  have h10 := h9.step (.serverWrites (.write (.reply _) rfl) rfl rfl rfl)
  have hread : CleanRead (sourceOf (serverFrame (.inferenceError "no"))) := by
    constructor
    · intro e he
      cases he
    · intro e he
      cases List.mem_singleton.mp he
  have h11 := h10.step (.call (l := .read _) rfl rfl hread (.readFinish (i := 0) rfl rfl
    (show Client.Meets _ _ [] from ⟨rfl, fun h => by cases h⟩) rfl rfl)
    (demo_quiet_reading rfl rfl rfl))
  exact ⟨_, h11, rfl, rfl⟩

end ModelApi.Link
